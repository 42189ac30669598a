import SearchQuery.Grouping
import SearchQuery.SortOrder

/-!
A search request while it is being put together: clauses grouped by family and mode,
a base object they are merged into, and settings for the whole request. A clause may
own a draft of its own, so drafts are trees. A draft knows where it sits in the tree:
at the root, below a filter or below a query.
-/
namespace SearchQuery

inductive Placement where
  | root
  | inFilter
  | inQuery
deriving DecidableEq, Repr, Inhabited

namespace Placement

def below : Family → Placement
  | .filter => .inFilter
  | .query => .inQuery

def isNested (placement : Placement) : Bool := placement != .root

end Placement

inductive Payload where
  | empty
  | field (name : String)
  | fieldValue (name : String) (value : Value)
  | body (object : Object)
deriving Repr, Inhabited

def Payload.object : Payload → Object
  | .empty => []
  | .field name => Keyed.single "field" (.string name)
  | .fieldValue name value => Keyed.single name value
  | .body object => object

mutual

/-- One condition: its kind, what its body starts from, options laid over the body, and
the draft it owns, if any. -/
structure Clause where
  kind : String
  payload : Payload := .empty
  options : Object := []
  nested : Option Draft := none

/-- A request in the making. Raw options are written to the root as they are, one after
the other. Thresholds say how many alternatives have to match, for each family. -/
structure Draft where
  base : Object := []
  placement : Placement := .root
  filters : ByMode Clause := {}
  queries : ByMode Clause := {}
  rawOptions : List (String × Value) := []
  sort : SortOrder := []
  size : Option UInt64 := none
  offset : Option UInt64 := none
  filterThreshold : Option Int64 := none
  queryThreshold : Option Int64 := none

end

instance : Inhabited Clause := ⟨{ kind := "" }⟩

instance : Inhabited Draft := ⟨{}⟩

namespace Clause

def withField (clause : Clause) (name : String) : Clause :=
  { clause with payload := .field name }

/-- Sets a field and its value. No value is the same as null. -/
def withFieldValue (clause : Clause) (name : String) : Value → Clause
  | .null => clause.withField name
  | value => { clause with payload := .fieldValue name value }

def withBody (clause : Clause) (object : Object) : Clause :=
  { clause with payload := .body object }

def withOption (clause : Clause) (key : String) (value : Value) : Clause :=
  { clause with options := clause.options.insert key value }

def withOptions (clause : Clause) (options : Object) : Clause :=
  { clause with options := clause.options.extend options }

def owning (clause : Clause) (draft : Draft) : Clause :=
  { clause with nested := some draft }

def isNested (clause : Clause) : Bool := clause.nested.isSome

def ownBody (clause : Clause) : Object := clause.payload.object.extend clause.options

inductive Edit where
  | field (name : String)
  | fieldValue (name : String) (value : Value)
  | body (object : Object)
  | option (key : String) (value : Value)
  | options (object : Object)
deriving Repr

def edit (clause : Clause) : Edit → Clause
  | .field name => clause.withField name
  | .fieldValue name value => clause.withFieldValue name value
  | .body object => clause.withBody object
  | .option key value => clause.withOption key value
  | .options object => clause.withOptions object

def edited (kind : String) (edits : List Edit) : Clause :=
  edits.foldl edit { kind := kind }

end Clause

namespace Draft

def fresh (placement : Placement) : Draft := { placement := placement }

def clauses (draft : Draft) : Family → ByMode Clause
  | .filter => draft.filters
  | .query => draft.queries

def threshold (draft : Draft) : Family → Option Int64
  | .filter => draft.filterThreshold
  | .query => draft.queryThreshold

def has (draft : Draft) (family : Family) (mode : Option Mode) : Bool :=
  (draft.clauses family).any mode

def anyNested (groups : ByMode Clause) : Bool := groups.toList.any Clause.isNested

def firstQuery? (draft : Draft) : Option Clause := draft.queries.toList.head?

def add (draft : Draft) (family : Family) (mode : Mode) (clause : Clause) : Draft :=
  match family with
  | .filter => { draft with filters := draft.filters.push mode clause }
  | .query => { draft with queries := draft.queries.push mode clause }

def withBase (draft : Draft) (base : Object) : Draft := { draft with base := base }

def withRawOption (draft : Draft) (key : String) (value : Value) : Draft :=
  { draft with rawOptions := draft.rawOptions ++ [(key, value)] }

def sortBy (draft : Draft) (field : String) (direction : Direction) : Draft :=
  { draft with sort := draft.sort.set field direction }

def withSize (draft : Draft) (size : UInt64) : Draft := { draft with size := some size }

def withOffset (draft : Draft) (offset : UInt64) : Draft := { draft with offset := some offset }

def withThreshold (draft : Draft) (family : Family) (count : Int64) : Draft :=
  match family with
  | .filter => { draft with filterThreshold := some count }
  | .query => { draft with queryThreshold := some count }

def resetClauses (draft : Draft) : Family → Draft
  | .filter => { draft with filters := {} }
  | .query => { draft with queries := {} }

def resetRawOptions (draft : Draft) : Draft := { draft with rawOptions := [] }

def resetSort (draft : Draft) : Draft := { draft with sort := [] }

/-- Takes everything back but the base and the place. -/
def reset (draft : Draft) : Draft := { base := draft.base, placement := draft.placement }

end Draft

end SearchQuery
