import SearchQuery.Spec

/-!
Specs up to the order of keys. Some notations do not keep the order in which the keys of
an object are written; what they give back is the spec with all its objects sorted.
-/
namespace SearchQuery

mutual

def Spec.keySorted : Spec → Spec
  | ⟨base, size, offset, queryThreshold, filterThreshold, sort, raw, clauses⟩ =>
    ⟨base.map Object.keySorted, size, offset, queryThreshold, filterThreshold, sort,
      raw.map fun option => (option.1, option.2.keySorted), clausesKeySorted clauses⟩

def clausesKeySorted : List ClauseSpec → List ClauseSpec
  | [] => []
  | clause :: rest => clause.keySorted :: clausesKeySorted rest

def ClauseSpec.keySorted : ClauseSpec → ClauseSpec
  | ⟨family, mode, kind, field, value, body, options, nested⟩ =>
    ⟨family, mode, kind, field, value.map Value.keySorted, body.map Object.keySorted,
      Object.keySorted options, carriedKeySorted nested⟩

def carriedKeySorted : Option Spec → Option Spec
  | none => none
  | some spec => some spec.keySorted

end

end SearchQuery
