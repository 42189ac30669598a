import SearchQuery.Value
import SearchQuery.Binary64.Shortest

/-!
The compact text of a value: no blanks, keys in their order, strings with the fewest
escapes, whole numbers in decimal. Floating-point numbers are written with the fewest
digits that read back, positionally while the power of the first digit lies between
-5 and 15 and always with a fraction, otherwise with a signed power of ten.
-/
namespace SearchQuery

def digitsOf (n : Nat) : List Char := Nat.toDigits 10 n

def wholeText (n : Int) : List Char :=
  if n < 0 then '-' :: digitsOf n.natAbs else digitsOf n.natAbs

namespace Binary64

def pointAfter (count : Nat) (digits : List Char) : List Char :=
  digits.take count ++ '.' :: digits.drop count

def Decimal.text (d : Decimal) : List Char :=
  let digits := digitsOf d.digits
  let first := d.exponent + digits.length - 1
  if first < -5 ∨ 15 < first then
    let point := if digits.length = 1 then digits else pointAfter 1 digits
    let sign := if first < 0 then '-' else '+'
    point ++ 'e' :: sign :: digitsOf first.natAbs
  else if first < 0 then
    '0' :: '.' :: List.replicate (first.natAbs - 1) '0' ++ digits
  else if 0 ≤ d.exponent then
    digits ++ List.replicate d.exponent.toNat '0' ++ ['.', '0']
  else pointAfter (first.toNat + 1) digits

def text (x : Binary64) : List Char :=
  let magnitude := if x.isZero then ['0', '.', '0'] else x.shortest.text
  if x.negative then '-' :: magnitude else magnitude

end Binary64

namespace Value

def hexDigit (n : Nat) : Char := Nat.digitChar n

def escaped (c : Char) : List Char :=
  if c = '\x22' then ['\\', '\x22']
  else if c = '\\' then ['\\', '\\']
  else if c = '\x08' then ['\\', 'b']
  else if c = '\x0c' then ['\\', 'f']
  else if c = '\n' then ['\\', 'n']
  else if c = '\r' then ['\\', 'r']
  else if c = '\t' then ['\\', 't']
  else if c < ' ' then ['\\', 'u', '0', '0', hexDigit (c.toNat / 16), hexDigit (c.toNat % 16)]
  else [c]

def quoted (s : List Char) : List Char :=
  '\x22' :: s.flatMap escaped ++ ['\x22']

mutual

def chars : Value → List Char
  | .null => ['n', 'u', 'l', 'l']
  | .bool true => ['t', 'r', 'u', 'e']
  | .bool false => ['f', 'a', 'l', 's', 'e']
  | .int n => wholeText n
  | .float x => x.text
  | .string s => quoted s.toList
  | .array [] => ['[', ']']
  | .array (value :: rest) => '[' :: value.chars ++ itemsChars rest
  | .object [] => ['\x7b', '\x7d']
  | .object ((key, value) :: rest) =>
    '\x7b' :: quoted key.toList ++ ':' :: value.chars ++ entriesChars rest

def itemsChars : List Value → List Char
  | [] => [']']
  | value :: rest => ',' :: value.chars ++ itemsChars rest

def entriesChars : List (String × Value) → List Char
  | [] => ['\x7d']
  | (key, value) :: rest =>
    ',' :: quoted key.toList ++ ':' :: value.chars ++ entriesChars rest

end

def text (value : Value) : String := String.ofList value.chars

end Value

def Object.text (o : Object) : String := (Value.object o).text

end SearchQuery
