import SearchQuery.Value

/-!
What a text says before a schema is held against it. A datum differs from a value in
four ways: an object keeps repeated keys, a floating-point number may be infinite or no
number at all, a whole number may be too large for a value, and a part that is written
correctly but stands for nothing that can be held is kept as a fault. A fault does no
harm where nobody looks at it.
-/
namespace SearchQuery

inductive Datum where
  | null
  | bool (b : Bool)
  | int (n : Int)
  | float (x : Binary64)
  | string (s : String)
  | array (items : List Datum)
  | object (entries : List (String × Datum))
  | fault
deriving Repr, Inhabited

namespace Datum

mutual

def isSound : Datum → Bool
  | .fault => false
  | .array items => areSound items
  | .object entries => entriesSound entries
  | _ => true

def areSound : List Datum → Bool
  | [] => true
  | datum :: rest => datum.isSound && areSound rest

def entriesSound : List (String × Datum) → Bool
  | [] => true
  | (_, datum) :: rest => datum.isSound && entriesSound rest

end

mutual

/-- The value of a datum without faults. A whole number has to fit 64 bits, signed or
unsigned. A number that is not finite becomes null, and of a repeated key the last value
counts, at the first place. -/
def value? : Datum → Option Value
  | .null => some .null
  | .bool b => some (.bool b)
  | .int n => if -Int.pow 2 63 ≤ n ∧ n < Int.pow 2 64 then some (.int n) else none
  | .float x => some (if x.isFinite then .float x else .null)
  | .string s => some (.string s)
  | .array items => (values? items).map .array
  | .object entries => (valueEntries? entries).map fun found => .object (Keyed.distinct found)
  | .fault => none

def values? : List Datum → Option (List Value)
  | [] => some []
  | datum :: rest => do
    let value ← datum.value?
    let values ← values? rest
    return value :: values

def valueEntries? : List (String × Datum) → Option (List (String × Value))
  | [] => some []
  | (key, datum) :: rest => do
    let value ← datum.value?
    let values ← valueEntries? rest
    return (key, value) :: values

end

def object? (datum : Datum) : Option Object :=
  match datum.value? with
  | some (.object entries) => some entries
  | _ => none

mutual

def depth : Datum → Nat
  | .array items => depths items + 1
  | .object entries => entryDepths entries + 1
  | _ => 0

def depths : List Datum → Nat
  | [] => 0
  | datum :: rest => max datum.depth (depths rest)

def entryDepths : List (String × Datum) → Nat
  | [] => 0
  | (_, datum) :: rest => max datum.depth (entryDepths rest)

end

end Datum

end SearchQuery
