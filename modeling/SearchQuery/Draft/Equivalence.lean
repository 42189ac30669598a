import SearchQuery.Draft
import SearchQuery.Value.Equivalence

/-!
Equality of drafts up to the order of object keys. Clauses, raw options and sort fields
are compared in order.
-/
namespace SearchQuery

def Payload.same : Payload → Payload → Bool
  | .empty, .empty => true
  | .field m, .field n => m == n
  | .fieldValue m v, .fieldValue n w => m == n && v.same w
  | .body d, .body e => Object.same d e
  | _, _ => false

def sameRawOptions (xs ys : List (String × Value)) : Bool :=
  sameLists (fun x y => x.1 == y.1 && x.2.same y.2) xs ys

def Draft.sameSettings (d e : Draft) : Bool :=
  Object.same d.base e.base && d.placement == e.placement &&
    sameRawOptions d.rawOptions e.rawOptions && d.sort == e.sort &&
    d.size == e.size && d.offset == e.offset &&
    d.filterThreshold == e.filterThreshold && d.queryThreshold == e.queryThreshold

mutual

def Clause.same : Clause → Clause → Bool
  | ⟨kind, payload, options, nested⟩, other =>
    kind == other.kind && payload.same other.payload && Object.same options other.options &&
      sameNested nested other.nested

def sameNested : Option Draft → Option Draft → Bool
  | none, none => true
  | some d, some e => d.same e
  | _, _ => false

def Draft.same : Draft → Draft → Bool
  | ⟨base, placement, filters, queries, rawOptions, sort, size, offset, filterThreshold,
      queryThreshold⟩, other =>
    Draft.sameSettings ⟨base, placement, {}, {}, rawOptions, sort, size, offset,
        filterThreshold, queryThreshold⟩ other &&
      sameGroups filters other.filters && sameGroups queries other.queries

def sameGroups : ByMode Clause → ByMode Clause → Bool
  | ⟨and, or, not⟩, other =>
    sameClauses and other.and && sameClauses or other.or && sameClauses not other.not

def sameClauses : List Clause → List Clause → Bool
  | [], [] => true
  | c :: cs, d :: ds => c.same d && sameClauses cs ds
  | _, _ => false

end

end SearchQuery
