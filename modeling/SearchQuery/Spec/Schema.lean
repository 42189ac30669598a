import SearchQuery.Datum.Record
import SearchQuery.Json
import SearchQuery.Spec
import SearchQuery.Toml.Table

/-!
The schema of specs: which fields the records have, and how each field is read. Sort
fields and clauses may be given alone or in a list; a clause in a list may write its
family and mode over empty objects. Each record is read by a function of the reader for
what is inside it; specs and clauses are then tied together along the depth of the datum.
A text in JSON may have faults where no field is read. A text in TOML may have them only
behind the fields of a raw option that is written as an array.
-/
namespace SearchQuery

namespace SortSpec

def schemaKeys : List String := ["field", "direction"]

def read? (datum : Datum) : Option SortSpec := do
  let fields ← datum.record? schemaKeys false
  let field ← Datum.required Datum.text? (fields.lookup "field")
  let direction ← Datum.optional Datum.text? (fields.lookup "direction")
  return ⟨field, direction⟩

end SortSpec

def rawOptionKeys : List String := ["key", "value"]

def readRawOption? (datum : Datum) : Option (String × Value) := do
  let fields ← datum.record? rawOptionKeys false
  let key ← Datum.required Datum.text? (fields.lookup "key")
  let value ← Datum.required Datum.value? (fields.lookup "value")
  return (key, value)

def Family.read? (mayBeEmpty : Bool) : Datum → Option Family :=
  Datum.choice? Family.name Family.all mayBeEmpty

def Mode.read? (mayBeEmpty : Bool) : Datum → Option Mode :=
  Datum.choice? Mode.name Mode.all mayBeEmpty

def Direction.read? (mayBeEmpty : Bool) : Datum → Option Direction :=
  Datum.choice? Direction.name [.asc, .desc] mayBeEmpty

namespace ClauseSpec

def schemaKeys : List String :=
  ["family", "mode", "type", "field", "value", "body", "options", "nested"]

def readWith? (spec? : Datum → Option Spec) (inList : Bool) (datum : Datum) :
    Option ClauseSpec := do
  let fields ← datum.record? schemaKeys false
  let family ← Datum.defaulting Family.default (Family.read? inList) (fields.lookup "family")
  let mode ← Datum.defaulting Mode.default (Mode.read? inList) (fields.lookup "mode")
  let kind ← Datum.required Datum.text? (fields.lookup "type")
  let field ← Datum.optional Datum.text? (fields.lookup "field")
  let value ← Datum.optional Datum.value? (fields.lookup "value")
  let body ← Datum.optional Datum.object? (fields.lookup "body")
  let options ← Datum.defaulting [] Datum.object? (fields.lookup "options")
  let nested ← Datum.optional spec? (fields.lookup "nested")
  return ⟨family, mode, kind, field, value, body, options, nested⟩

end ClauseSpec

namespace Spec

def schemaKeys : List String :=
  ["base", "size", "from", "query_minimum_should_match", "filter_minimum_should_match",
    "sort", "raw", "clause"]

def readWith? (clauses? : Datum → Option (List ClauseSpec)) (datum : Datum) : Option Spec := do
  let fields ← datum.record? schemaKeys true
  let base ← Datum.optional Datum.object? (fields.lookup "base")
  let size ← Datum.optional Datum.unsigned? (fields.lookup "size")
  let offset ← Datum.optional Datum.unsigned? (fields.lookup "from")
  let queryThreshold ←
    Datum.optional Datum.signed? (fields.lookup "query_minimum_should_match")
  let filterThreshold ←
    Datum.optional Datum.signed? (fields.lookup "filter_minimum_should_match")
  let sort ←
    Datum.defaulting [] (Datum.oneOrMany? SortSpec.read? SortSpec.read?) (fields.lookup "sort")
  let raw ← Datum.defaulting [] (Datum.list? readRawOption?) (fields.lookup "raw")
  let clauses ← Datum.defaulting [] clauses? (fields.lookup "clause")
  return ⟨base, size, offset, queryThreshold, filterThreshold, sort, raw, clauses⟩

def readTo? : Nat → Datum → Option Spec
  | 0, _ => none
  | depth + 1, datum =>
    let clause? := ClauseSpec.readWith? (readTo? depth)
    readWith? (Datum.oneOrMany? (clause? false) (clause? true)) datum

/-- The spec of a datum. Every spec inside it is nested deeper in the datum. -/
def ofDatum? (datum : Datum) : Option Spec := readTo? (datum.depth + 1) datum

/-- A raw option that, where it is an array, stops after its fields. -/
def cutRawOption : Datum → Datum
  | .array items => .array (items.take rawOptionKeys.length)
  | datum => datum

def cutRawList : Datum → Datum
  | .array options => .array (options.map cutRawOption)
  | datum => datum

def cutRaw : Datum → Datum
  | .object entries => .object (entries.map fun entry =>
      if entry.1 = "raw" then (entry.1, cutRawList entry.2) else entry)
  | datum => datum

def tomlDatum? (text : String) : Option Datum :=
  ((Toml.datum? text).map cutRaw).filter Datum.isSound

def parse (source : Notation) (text : String) : Except SpecError Spec :=
  let datum := match source with
    | .json => Json.datum? text
    | .toml => tomlDatum? text
  match datum.bind ofDatum? with
  | some spec => .ok spec
  | none => .error (.malformed source)

end Spec

end SearchQuery
