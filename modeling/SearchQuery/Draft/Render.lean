import SearchQuery.Draft
import SearchQuery.Draft.Slot

/-!
The request object that a draft stands for. A root draft with one required query, no
filter and no bool clause in its base writes that query alone. Every other draft writes
each group of clauses into a bool clause: one clause as an object, several as an array.
Filters are written the simple way, straight into the bool clause of the query, if they
are one required filter, or if no filter is an alternative or owns a draft and there are
no queries; otherwise they get a bool clause of their own. An owned draft yields what is
under its query, and that is merged last into the body of the clause that owns it.
-/
namespace SearchQuery

abbrev Rendered := Except DraftError Object

structure RenderedClauses where
  filters : ByMode Rendered
  queries : ByMode Rendered

def RenderedClauses.get (clauses : RenderedClauses) (family : Family) (mode : Mode) :
    List Rendered :=
  match family with
  | .filter => clauses.filters.get mode
  | .query => clauses.queries.get mode

namespace Clause

/-- The shape in which the object of an owned draft enters the body of a clause of some
kind. Outside a bool clause it goes under a query, inside a bool clause if it is the body
of one. What has a bool clause on top is unwrapped by one level. -/
def nestedBody (kind : String) (child : Object) : Object :=
  let placed : Object :=
    if kind = "bool" then child
    else if hasBoolKeys child then
      Keyed.single "query" (.object (Keyed.single "bool" (.object child)))
    else Keyed.single "query" (.object child)
  match placed.get? "bool" with
  | some (.object inner) => inner
  | _ => placed

def rendered (clause : Clause) (child : Option Object) : Object :=
  let body := match child with
    | none => clause.ownBody
    | some object => clause.ownBody.extend (nestedBody clause.kind object)
  Keyed.single clause.kind (.object body)

end Clause

namespace Draft

/-- Whether filters go straight into the bool clause of the query. -/
def simpleFilter (draft : Draft) : Bool :=
  draft.filters.onlyOneAnd ||
    (draft.filters.or.isEmpty && !draft.has .query none && !anyNested draft.filters)

def slot (draft : Draft) (family : Family) : Slot :=
  if draft.placement = .inFilter then .query
  else if family = .query ∨ draft.simpleFilter then .queryBool
  else .filterBool

def key (draft : Draft) (family : Family) (mode : Mode) : String :=
  mode.boolKey (draft.simpleFilter && family == .filter)

/-- Whether the base has a bool clause. A query without one cannot take clauses. -/
def baseHasBool (base : Object) : Except DraftError Bool :=
  match base.get? "query" with
  | none => .ok false
  | some (.object query) =>
    if Keyed.contains query "bool" then .ok true else .error (.structuralConflict "query")
  | some _ => .error (.structuralConflict "query")

/-- Whether the draft holds one required query and nothing it has to be combined with. -/
def isLoneQuery (draft : Draft) (baseHasBool : Bool) : Bool :=
  draft.placement == .root && !baseHasBool && !draft.has .filter none &&
    draft.queries.onlyOneAnd

/-- One clause stays an object, several become an array. -/
def collapse : List Object → Value
  | [object] => .object object
  | objects => .array (objects.map .object)

def collect (group : List Rendered) : Except DraftError (List Object) := group.mapM id

def writeGroup (draft : Draft) (family : Family) (mode : Mode) (group : List Rendered)
    (request : Object) : Rendered :=
  if group.isEmpty then .ok request
  else do
    let objects ← collect group
    let key := draft.key family mode
    (draft.slot family).change
      (fun target => raiseThreshold key (draft.threshold family)
        (mergeClauses key (collapse objects) target))
      request

def groups : List (Family × Mode) :=
  Family.all.flatMap fun family => Mode.all.map fun mode => (family, mode)

def writeClauses (draft : Draft) (clauses : RenderedClauses) : Rendered :=
  groups.foldlM
    (fun request (group : Family × Mode) =>
      draft.writeGroup group.1 group.2 (clauses.get group.1 group.2) request)
    draft.base

def writeRawOptions (draft : Draft) (request : Object) : Object :=
  request.extend draft.rawOptions

/-- What an owned draft yields: the contents of its query, or all of it without one. -/
def nestedResult (request : Object) : Rendered :=
  match request.get? "query" with
  | none => .ok request
  | some (.object query) => .ok query
  | some _ => .error (.structuralConflict "query")

def writeSettings (draft : Draft) (request : Object) : Object :=
  let request := if draft.sort.isEmpty then request else request.insert "sort" draft.sort.toValue
  let request := match draft.size with
    | none => request
    | some count => request.insert "size" (.int count.toNat)
  match draft.offset with
  | none => request
  | some count => request.insert "from" (.int count.toNat)

def withClauses (draft : Draft) (baseHasBool : Bool) (clauses : RenderedClauses) : Rendered :=
  match draft.isLoneQuery baseHasBool, clauses.queries.and with
  | true, lone :: _ => do return draft.base.insert "query" (.object (← lone))
  | _, _ => draft.writeClauses clauses

def assemble (draft : Draft) (clauses : RenderedClauses) : Rendered := do
  if draft.placement = .inFilter then
    if let some clause := draft.firstQuery? then
      throw (.contextViolation clause.kind)
  let hasBool ← baseHasBool draft.base
  let request ← draft.withClauses hasBool clauses
  -- An owned draft has its raw options before it is cut down to its query.
  let request := draft.writeRawOptions request
  if draft.placement.isNested then nestedResult request
  else return draft.writeSettings request

end Draft

mutual

def Clause.render : Clause → Rendered
  | ⟨kind, payload, options, nested⟩ => do
    let child ← renderNested nested
    return Clause.rendered ⟨kind, payload, options, none⟩ child

def renderNested : Option Draft → Except DraftError (Option Object)
  | none => .ok none
  | some draft => do return some (← draft.render)

def Draft.render : Draft → Rendered
  | ⟨base, placement, filters, queries, rawOptions, sort, size, offset, filterThreshold,
      queryThreshold⟩ =>
    Draft.assemble ⟨base, placement, filters, queries, rawOptions, sort, size, offset,
        filterThreshold, queryThreshold⟩
      ⟨renderGroups filters, renderGroups queries⟩

def renderGroups : ByMode Clause → ByMode Rendered
  | ⟨and, or, not⟩ => ⟨renderList and, renderList or, renderList not⟩

def renderList : List Clause → List Rendered
  | [] => []
  | clause :: rest => clause.render :: renderList rest

end

theorem renderList_eq_map (clauses : List Clause) :
    renderList clauses = clauses.map Clause.render := by
  induction clauses with
  | nil => rfl
  | cons clause rest ih => simp [renderList, ih]

theorem renderGroups_eq_map (groups : ByMode Clause) :
    renderGroups groups = groups.map Clause.render := by
  cases groups
  simp [renderGroups, ByMode.map, renderList_eq_map]

/-- A draft is assembled from its rendered clauses. -/
theorem Draft.render_eq (draft : Draft) :
    draft.render =
      draft.assemble ⟨draft.filters.map Clause.render, draft.queries.map Clause.render⟩ := by
  cases draft
  rw [Draft.render, renderGroups_eq_map, renderGroups_eq_map]

/-- A clause is rendered from the object of the draft it owns. -/
theorem Clause.render_eq (clause : Clause) :
    clause.render =
      match clause.nested with
      | none => .ok (clause.rendered none)
      | some draft => draft.render.map fun object => clause.rendered (some object) := by
  obtain ⟨kind, payload, options, _ | draft⟩ := clause
  · rfl
  · simp only [Clause.render, renderNested]
    cases draft.render <;> rfl

end SearchQuery
