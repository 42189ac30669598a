import SearchQuery.Spec
import SearchQuery.Toml.Written

/-!
Writing specs. A spec is an object of its fields under the keys of the schema, in the
order of the schema. Fields that are absent are left out, and lists are written as arrays
even if they hold one thing or nothing.
-/
namespace SearchQuery

def fieldEntry {α : Type} (key : String) (write : α → Value) : Option α → Object
  | none => []
  | some a => Keyed.single key (write a)

namespace SortSpec

def toObject (sort : SortSpec) : Object :=
  Keyed.single "field" (.string sort.field) ++ fieldEntry "direction" .string sort.direction

end SortSpec

def rawOptionObject (option : String × Value) : Object :=
  [("key", .string option.1), ("value", option.2)]

namespace Spec

def settingsObject (spec : Spec) : Object :=
  fieldEntry "base" .object spec.base ++
    fieldEntry "size" (fun n => .int n.toNat) spec.size ++
    fieldEntry "from" (fun n => .int n.toNat) spec.offset ++
    fieldEntry "query_minimum_should_match" (fun n => .int n.toInt) spec.queryThreshold ++
    fieldEntry "filter_minimum_should_match" (fun n => .int n.toInt) spec.filterThreshold ++
    [("sort", .array (spec.sort.map fun sort => .object sort.toObject)),
      ("raw", .array (spec.raw.map fun option => .object (rawOptionObject option)))]

end Spec

def ClauseSpec.ownObject (spec : ClauseSpec) : Object :=
  [("family", .string spec.family.name), ("mode", .string spec.mode.name),
    ("type", .string spec.kind)] ++
    fieldEntry "field" .string spec.field ++
    fieldEntry "value" id spec.value ++
    fieldEntry "body" .object spec.body ++
    [("options", .object spec.options)]

mutual

def Spec.toObject : Spec → Object
  | ⟨base, size, offset, queryThreshold, filterThreshold, sort, raw, clauses⟩ =>
    Spec.settingsObject ⟨base, size, offset, queryThreshold, filterThreshold, sort, raw, []⟩ ++
      Keyed.single "clause" (.array (clauseValues clauses))

def clauseValues : List ClauseSpec → List Value
  | [] => []
  | clause :: rest => .object clause.toObject :: clauseValues rest

def ClauseSpec.toObject : ClauseSpec → Object
  | ⟨family, mode, kind, field, value, body, options, nested⟩ =>
    ClauseSpec.ownObject ⟨family, mode, kind, field, value, body, options, none⟩ ++
      carriedEntry nested

def carriedEntry : Option Spec → Object
  | none => []
  | some spec => Keyed.single "nested" (.object spec.toObject)

end

def Spec.text (spec : Spec) : Notation → String
  | .json => spec.toObject.text
  | .toml => Toml.text spec.toObject

end SearchQuery
