import SearchQuery.Binary64
import SearchQuery.Keyed

/-!
Structured values and objects. The keys of an object are kept in the order in which
they first came. Whole numbers and 64-bit floating-point numbers are different values.
-/
namespace SearchQuery

inductive Value where
  | null
  | bool (b : Bool)
  | int (n : Int)
  | float (x : Binary64)
  | string (s : String)
  | array (items : List Value)
  | object (entries : List (String × Value))
deriving Repr, Inhabited

abbrev Object := Keyed Value

namespace Value

/-- A value as the list of clauses it stands for: an array is its items and anything
else is one clause. -/
def items : Value → List Value
  | .array values => values
  | value => [value]

def isArray : Value → Bool
  | .array _ => true
  | _ => false

mutual

def keySorted : Value → Value
  | .array values => .array (keySortedItems values)
  | .object entries => .object (Keyed.sorted (keySortedEntries entries))
  | value => value

def keySortedItems : List Value → List Value
  | [] => []
  | value :: rest => value.keySorted :: keySortedItems rest

def keySortedEntries : List (String × Value) → List (String × Value)
  | [] => []
  | (key, value) :: rest => (key, value.keySorted) :: keySortedEntries rest

end

end Value

def Object.keySorted (o : Object) : Object := Keyed.sorted (Value.keySortedEntries o)

end SearchQuery
