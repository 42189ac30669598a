import SearchQuery.Keyed
import SearchQuery.Toml.Statement

/-!
The tree of tables that statements build. A table is defined by its own header, implied
by a longer header, or made by a path in an assignment; what may still be added to it
depends on that. Values are closed: nothing is added to an array or an inline table. An
array of tables is open at its last element.
-/
namespace SearchQuery.Toml

/-- How a table came to be. -/
inductive Origin where
  /-- By its header. -/
  | defined
  /-- By the header of a table inside it. -/
  | implied
  /-- By a path in an assignment. -/
  | dotted
deriving DecidableEq, Repr, Inhabited

inductive Node where
  | leaf (datum : Datum)
  | table (origin : Origin) (entries : List (String × Node))
  | tables (elements : List (List (String × Node)))
deriving Repr, Inhabited

abbrev Entries := Keyed Node

def changeLast? {α : Type} (f : α → Option α) : List α → Option (List α)
  | [] => none
  | [last] => (f last).map fun last => [last]
  | first :: rest => (changeLast? f rest).map (first :: ·)

/-- Changes the table at a path, making the tables on the way that are missing. The path
of an assignment does not lead through tables that have a header. -/
def changeAt? (inAssignment : Bool) (change : Origin → Entries → Option Entries) :
    List String → Origin → Entries → Option Entries
  | [], origin, entries => change origin entries
  | key :: path, _, entries =>
    match entries.get? key with
    | none => do
      let origin := if inAssignment then .dotted else .implied
      let inner ← changeAt? inAssignment change path origin []
      return entries.insert key (.table origin inner)
    | some (.table origin inner) =>
      if inAssignment ∧ origin = .defined then none
      else do
        let inner ← changeAt? inAssignment change path origin inner
        return entries.insert key (.table origin inner)
    | some (.tables elements) => do
      let elements ← changeLast? (changeAt? inAssignment change path .defined) elements
      return entries.insert key (.tables elements)
    | some (.leaf _) => none

/-- Gives a new key a value. A path of one key needs a table that no assignment made,
and a longer path needs one that an assignment made. -/
def assign? (path : List String) (datum : Datum) (origin : Origin) (entries : Entries) :
    Option Entries :=
  match path.getLast? with
  | none => none
  | some key =>
    let parents := path.dropLast
    changeAt? true
      (fun origin entries =>
        if (origin == .dotted) == parents.isEmpty || entries.contains key then none
        else some (entries.insert key (.leaf datum)))
      parents origin entries

/-- Opens a table by its header: a new one, or one that longer headers implied. -/
def openTable? (path : List String) (root : Entries) : Option Entries :=
  match path.getLast? with
  | none => none
  | some key =>
    changeAt? false
      (fun _ entries =>
        match entries.get? key with
        | none => some (entries.insert key (.table .defined []))
        | some (.table .implied inner) => some (entries.insert key (.table .defined inner))
        | some _ => none)
      path.dropLast .defined root

def openElement? (path : List String) (root : Entries) : Option Entries :=
  match path.getLast? with
  | none => none
  | some key =>
    changeAt? false
      (fun _ entries =>
        match entries.get? key with
        | none => some (entries.insert key (.tables [[]]))
        | some (.tables elements) => some (entries.insert key (.tables (elements ++ [[]])))
        | some _ => none)
      path.dropLast .defined root

mutual

/-- The datum of a node. The keys of every table come in ascending order. -/
def Node.datum : Node → Datum
  | .leaf datum => datum
  | .table _ entries => .object (Keyed.sorted (entriesData entries))
  | .tables elements => .array (tablesData elements)

def entriesData : List (String × Node) → List (String × Datum)
  | [] => []
  | (key, node) :: rest => (key, node.datum) :: entriesData rest

def tablesData : List (List (String × Node)) → List Datum
  | [] => []
  | entries :: rest => .object (Keyed.sorted (entriesData entries)) :: tablesData rest

end

def tableDatum (entries : Entries) : Datum := .object (Keyed.sorted (entriesData entries))

mutual

/-- The datum of a value as written. The paths of an inline table build a table. -/
def Item.datum? : Item → Option Datum
  | .scalar datum => some datum
  | .array items => (itemsData? items).map .array
  | .table entries => do
    let assignments ← assignmentsData? entries
    let built ← assignments.foldlM
      (fun table (assignment : List String × Datum) =>
        assign? assignment.1 assignment.2 .defined table) []
    return tableDatum built

def itemsData? : List Item → Option (List Datum)
  | [] => some []
  | item :: rest => do return (← item.datum?) :: (← itemsData? rest)

def assignmentsData? : List (List String × Item) → Option (List (List String × Datum))
  | [] => some []
  | (path, item) :: rest => do return (path, ← item.datum?) :: (← assignmentsData? rest)

end

structure Building where
  root : Entries := []
  header : List String := []

def Building.step? (state : Building) : Statement → Option Building
  | .table path => do return ⟨← openTable? path state.root, path⟩
  | .element path => do return ⟨← openElement? path state.root, path⟩
  | .assign path item => do
    let datum ← item.datum?
    let root ← changeAt? false (assign? path datum) state.header .defined state.root
    return { state with root := root }

def afterMark : List Char → List Char
  | '\ufeff' :: rest => rest
  | text => text

def datum? (text : String) : Option Datum := do
  let chars := afterMark text.toList
  let statements ← statements? (chars.length + 1) chars
  let built ← statements.foldlM Building.step? {}
  return tableDatum built.root

end SearchQuery.Toml
