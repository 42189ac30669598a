/-!
How clauses are grouped. A clause belongs to a family, which says whether it counts
towards the score, and has a mode, which says how it combines with its siblings.
The clauses of one family are kept apart by mode, each group in order of addition.
-/
namespace SearchQuery

inductive Family where
  | filter
  | query
deriving DecidableEq, Repr, Inhabited

namespace Family

/-- Both families, filters first: the order in which they are written. -/
def all : List Family := [.filter, .query]

def default : Family := .query

def name : Family → String
  | .filter => "filter"
  | .query => "query"

end Family

inductive Mode where
  | and
  | or
  | not
deriving DecidableEq, Repr, Inhabited

structure UnknownMode where
  text : String
deriving DecidableEq, Repr

def UnknownMode.message (e : UnknownMode) : String :=
  "unknown mode '" ++ e.text ++ "', expected one of: and, or, not"

namespace Mode

def all : List Mode := [.and, .or, .not]

def default : Mode := .and

def name : Mode → String
  | .and => "and"
  | .or => "or"
  | .not => "not"

/-- The key of a bool clause under which a mode is written. Required filters go to the
bare filter key where filters are written the simple way. -/
def boolKey (mode : Mode) (simpleFilter : Bool) : String :=
  match mode with
  | .and => if simpleFilter then "filter" else "must"
  | .or => "should"
  | .not => "must_not"

/-- Reads a mode by its name or by its key, in any letter case. No letter beyond ASCII
becomes one of these words in lower case. -/
def parse (text : String) : Except UnknownMode Mode :=
  let word := text.toLower
  if word = "and" ∨ word = "must" then .ok .and
  else if word = "or" ∨ word = "should" then .ok .or
  else if word = "not" ∨ word = "must_not" then .ok .not
  else .error ⟨text⟩

end Mode

structure ByMode (α : Type) where
  and : List α := []
  or : List α := []
  not : List α := []
deriving DecidableEq, Repr, Inhabited

namespace ByMode

variable {α β : Type}

def get (groups : ByMode α) : Mode → List α
  | .and => groups.and
  | .or => groups.or
  | .not => groups.not

def push (groups : ByMode α) (mode : Mode) (a : α) : ByMode α :=
  match mode with
  | .and => { groups with and := groups.and ++ [a] }
  | .or => { groups with or := groups.or ++ [a] }
  | .not => { groups with not := groups.not ++ [a] }

def toList (groups : ByMode α) : List α := groups.and ++ groups.or ++ groups.not

def map (f : α → β) (groups : ByMode α) : ByMode β :=
  ⟨groups.and.map f, groups.or.map f, groups.not.map f⟩

def any (groups : ByMode α) : Option Mode → Bool
  | some mode => !(groups.get mode).isEmpty
  | none => !groups.toList.isEmpty

def onlyOneAnd (groups : ByMode α) : Bool :=
  groups.and.length == 1 && groups.or.isEmpty && groups.not.isEmpty

theorem get_push (groups : ByMode α) (mode other : Mode) (a : α) :
    (groups.push mode a).get other =
      if other = mode then groups.get other ++ [a] else groups.get other := by
  cases mode <;> cases other <;> simp [push, get]

theorem get_map (f : α → β) (groups : ByMode α) (mode : Mode) :
    (groups.map f).get mode = (groups.get mode).map f := by
  cases mode <;> rfl

/-- Groups that agree in every mode are the same. -/
theorem eq_of_get {groups others : ByMode α}
    (h : ∀ mode, groups.get mode = others.get mode) : groups = others := by
  obtain ⟨and, or, not⟩ := groups
  obtain ⟨and', or', not'⟩ := others
  exact ByMode.mk.injEq .. ▸ ⟨h .and, h .or, h .not⟩

end ByMode

end SearchQuery
