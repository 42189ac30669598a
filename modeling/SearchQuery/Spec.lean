import SearchQuery.Draft

/-!
Specs: requests as they are declared in a file. Every setting may be left out. A clause
declares its payload by a field, a field and a value, or a body, and it may carry a spec
of its own.
-/
namespace SearchQuery

/-- A declared sort field. The direction is any text until the spec is drafted. -/
structure SortSpec where
  field : String
  direction : Option String := none
deriving DecidableEq, Repr, Inhabited

mutual

structure Spec where
  base : Option Object := none
  size : Option UInt64 := none
  offset : Option UInt64 := none
  queryThreshold : Option Int64 := none
  filterThreshold : Option Int64 := none
  sort : List SortSpec := []
  raw : List (String × Value) := []
  clauses : List ClauseSpec := []

/-- A declared clause. A value may be there and null. -/
structure ClauseSpec where
  family : Family := Family.default
  mode : Mode := Mode.default
  kind : String
  field : Option String := none
  value : Option Value := none
  body : Option Object := none
  options : Object := []
  nested : Option Spec := none

end

instance : Inhabited Spec := ⟨{}⟩

instance : Inhabited ClauseSpec := ⟨{ kind := "" }⟩

inductive Notation where
  | json
  | toml
deriving DecidableEq, Repr, Inhabited

inductive SpecError where
  /-- The file is missing or is no text. -/
  | unreadable
  | malformed (source : Notation)
  /-- A clause of this kind declares a body together with a field or a value. -/
  | conflictingPayload (kind : String)
  | valueWithoutField (kind : String)
  | draft (error : DraftError)
deriving DecidableEq, Repr, Inhabited

def SpecError.message : SpecError → Option String
  | .conflictingPayload kind =>
    some ("clause '" ++ kind ++ "' declares both `body` and `field`/`value`")
  | .valueWithoutField kind =>
    some ("clause '" ++ kind ++ "' declares `value` without `field`")
  | .draft error => some error.message
  | .unreadable => none
  | .malformed _ => none

end SearchQuery
