import SearchQuery.Value

/-!
Equality of values up to the order of object keys, at every depth. Lists are compared
in order and numbers as numbers: the two zeros of the floating-point format are equal,
and a whole number never equals a floating-point one.
-/
namespace SearchQuery.Value

mutual

def same : Value → Value → Bool
  | .null, .null => true
  | .bool a, .bool b => a == b
  | .int m, .int n => m == n
  | .float x, .float y => x.sameNumber y
  | .string s, .string t => s == t
  | .array xs, .array ys => sameItems xs ys
  | .object d, .object e => d.length == e.length && sameEntries d e
  | _, _ => false

def sameItems : List Value → List Value → Bool
  | [], [] => true
  | x :: xs, y :: ys => x.same y && sameItems xs ys
  | _, _ => false

def sameEntries : List (String × Value) → Object → Bool
  | [], _ => true
  | (key, value) :: rest, other =>
    (match Keyed.get? other key with
      | some found => value.same found
      | none => false) && sameEntries rest other

end

end SearchQuery.Value

namespace SearchQuery

def Object.same (d e : Object) : Bool := Value.same (.object d) (.object e)

def sameLists {α : Type} (same : α → α → Bool) : List α → List α → Bool
  | [], [] => true
  | x :: xs, y :: ys => same x y && sameLists same xs ys
  | _, _ => false

end SearchQuery
