import SearchQuery.Draft.Render
import SearchQuery.Spec

/-!
From a spec to a draft. The settings come first, then the sort fields, the raw options
and the clauses, each in order; the first thing that cannot be taken over is the error.
-/
namespace SearchQuery

namespace ClauseSpec

/-- The clause of a declaration, without what it carries. A value needs its field, and a
body goes with neither. -/
def clause (spec : ClauseSpec) : Except SpecError Clause :=
  let start : Clause := { kind := spec.kind }
  let clause : Except SpecError Clause :=
    match spec.body, spec.field, spec.value with
    | some body, none, none => .ok (start.withBody body)
    | some _, _, _ => .error (.conflictingPayload spec.kind)
    | none, none, some _ => .error (.valueWithoutField spec.kind)
    | none, some field, some value => .ok (start.withFieldValue field value)
    | none, some field, none => .ok (start.withField field)
    | none, none, none => .ok start
  clause.map (·.withOptions spec.options)

end ClauseSpec

namespace Spec

def addSort (draft : Draft) (sort : SortSpec) : Except SpecError Draft :=
  match Direction.parse (sort.direction.getD Direction.default.name) with
  | .ok direction => .ok (draft.sortBy sort.field direction)
  | .error error => .error (.draft error)

def withSettings (spec : Spec) (draft : Draft) : Except SpecError Draft := do
  let draft := spec.base.elim draft draft.withBase
  let draft := spec.size.elim draft draft.withSize
  let draft := spec.offset.elim draft draft.withOffset
  let draft := spec.queryThreshold.elim draft (draft.withThreshold .query)
  let draft := spec.filterThreshold.elim draft (draft.withThreshold .filter)
  let draft ← spec.sort.foldlM addSort draft
  return spec.raw.foldl (fun draft option => draft.withRawOption option.1 option.2) draft

mutual

def addTo (draft : Draft) : Spec → Except SpecError Draft
  | ⟨base, size, offset, queryThreshold, filterThreshold, sort, raw, clauses⟩ => do
    let spec : Spec := ⟨base, size, offset, queryThreshold, filterThreshold, sort, raw, []⟩
    addClauses (← spec.withSettings draft) clauses

def addClauses (draft : Draft) : List ClauseSpec → Except SpecError Draft
  | [] => .ok draft
  | spec :: rest => do addClauses (← addClause draft spec) rest

def addClause (draft : Draft) : ClauseSpec → Except SpecError Draft
  | ⟨family, mode, kind, field, value, body, options, nested⟩ => do
    let clause ← ClauseSpec.clause ⟨family, mode, kind, field, value, body, options, none⟩
    match ← carried family nested with
    | none => return draft.add family mode clause
    | some child => return draft.add family mode (clause.owning child)

def carried (family : Family) : Option Spec → Except SpecError (Option Draft)
  | none => .ok none
  | some spec => do return some (← addTo (Draft.fresh (.below family)) spec)

end

def draft (spec : Spec) : Except SpecError Draft := addTo {} spec

def render (spec : Spec) : Except SpecError Object := do
  let draft ← spec.draft
  match draft.render with
  | .ok object => return object
  | .error error => .error (.draft error)

end Spec

end SearchQuery
