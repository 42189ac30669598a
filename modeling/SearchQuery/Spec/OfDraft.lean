import SearchQuery.Spec

/-!
The spec of a draft. Settings are taken over as they are, and every clause is declared
with its payload and options, filters before queries and each family in the order of the
modes. A draft that a clause owns becomes the spec that its declaration carries. Where a
draft sits is not declared: it follows from the families.
-/
namespace SearchQuery

namespace ClauseSpec

def ofClause (family : Family) (mode : Mode) (clause : Clause) : ClauseSpec :=
  let spec : ClauseSpec := { family, mode, kind := clause.kind, options := clause.options }
  match clause.payload with
  | .empty => spec
  | .field name => { spec with field := some name }
  | .fieldValue name value => { spec with field := some name, value := some value }
  | .body object => { spec with body := some object }

end ClauseSpec

def SortSpec.ofField (field : String × Direction) : SortSpec := ⟨field.1, some field.2.name⟩

mutual

def Spec.ofDraft : Draft → Spec
  | ⟨base, _, filters, queries, rawOptions, sort, size, offset, filterThreshold,
      queryThreshold⟩ =>
    { base := some base, size, offset, queryThreshold, filterThreshold,
      sort := sort.map SortSpec.ofField, raw := rawOptions,
      clauses := declarations .filter filters ++ declarations .query queries }

def declarations (family : Family) : ByMode Clause → List ClauseSpec
  | ⟨and, or, not⟩ =>
    declared family .and and ++ declared family .or or ++ declared family .not not

def declared (family : Family) (mode : Mode) : List Clause → List ClauseSpec
  | [] => []
  | clause :: rest => declaration family mode clause :: declared family mode rest

def declaration (family : Family) (mode : Mode) : Clause → ClauseSpec
  | ⟨kind, payload, options, nested⟩ =>
    { ClauseSpec.ofClause family mode ⟨kind, payload, options, none⟩ with
      nested := owned nested }

def owned : Option Draft → Option Spec
  | none => none
  | some draft => some (Spec.ofDraft draft)

end

end SearchQuery
