import SearchQuery.Datum
import SearchQuery.Numeral

/-!
Numbers and strings as JSON writes them. A number without point and power that fits
64 bits, signed or unsigned, is a whole number; minus zero and all other numbers are
floating-point. A string is read in two steps: into its parts, which are characters and
escaped 16-bit units, and then into a text, where units that are halves of a pair have
to stand in pairs.
-/
namespace SearchQuery.Json

def digits? (text : List Char) : Option (List Char × List Char) :=
  match text.span Char.isDigit with
  | ([], _) => none
  | (digits, rest) => some (digits, rest)

/-- The digits before the point: a zero alone, or digits that do not start with one. -/
def whole? : List Char → Option (List Char × List Char)
  | '0' :: rest => some (['0'], rest)
  | text => digits? text

def fraction? : List Char → Option (Option (List Char) × List Char)
  | '.' :: rest => do
    let (digits, rest) ← digits? rest
    return (some digits, rest)
  | text => some (none, text)

def signed : List Char → Bool × List Char
  | '-' :: rest => (true, rest)
  | '+' :: rest => (false, rest)
  | text => (false, text)

def power? : List Char → Option (Option Int × List Char)
  | [] => some (none, [])
  | c :: rest =>
    if c = 'e' ∨ c = 'E' then do
      let (negative, rest) := signed rest
      let (digits, rest) ← digits? rest
      let size : Int := valueOfDigits 10 digits
      return (some (if negative then -size else size), rest)
    else some (none, c :: rest)

def numeral? (text : List Char) : Option (Numeral × List Char) := do
  let (negative, rest) := match text with
    | '-' :: rest => (true, rest)
    | text => (false, text)
  let (whole, rest) ← whole? rest
  let (fraction, rest) ← fraction? rest
  let (power, rest) ← power? rest
  return (⟨negative, whole, fraction, power⟩, rest)

/-- The datum of a number. A number beyond the finite ones is a fault. -/
def numberDatum (n : Numeral) : Datum :=
  let float := match n.stepwise? with
    | some x => .float x
    | none => .fault
  if n.isWhole then
    if !n.negative ∧ n.wholeValue < Nat.pow 2 64 then .int n.wholeValue
    else if n.negative ∧ 0 < n.wholeValue ∧ n.wholeValue ≤ Nat.pow 2 63 then .int (-n.wholeValue)
    else float
  else float

/-- A part of a string: a character, or a 16-bit unit given by its number. -/
inductive StringPart where
  | char (c : Char)
  | unit (n : Nat)
deriving DecidableEq, Repr, Inhabited

def fourHexDigits? (a b c d : Char) : Option Nat :=
  if [a, b, c, d].all (isDigitOf 16) then some (valueOfDigits 16 [a, b, c, d]) else none

def escape? (c : Char) : Option Char :=
  if c = '\x22' ∨ c = '\\' ∨ c = '/' then some c
  else if c = 'b' then some '\x08'
  else if c = 'f' then some '\x0c'
  else if c = 'n' then some '\n'
  else if c = 'r' then some '\r'
  else if c = 't' then some '\t'
  else none

def stringParts? : List Char → Option (List StringPart × List Char)
  | [] => none
  | '\\' :: 'u' :: a :: b :: c :: d :: rest => do
    let unit ← fourHexDigits? a b c d
    let (parts, rest) ← stringParts? rest
    return (.unit unit :: parts, rest)
  | '\\' :: letter :: rest => do
    let char ← escape? letter
    let (parts, rest) ← stringParts? rest
    return (.char char :: parts, rest)
  | c :: rest =>
    if c = '\x22' then some ([], rest)
    else if c = '\\' ∨ c < ' ' then none
    else do
      let (parts, rest) ← stringParts? rest
      return (.char c :: parts, rest)

def isLeading (unit : Nat) : Bool := 0xD800 ≤ unit && unit < 0xDC00

def isTrailing (unit : Nat) : Bool := 0xDC00 ≤ unit && unit < 0xE000

def pairChar (leading trailing : Nat) : Char :=
  Char.ofNat (0x10000 + (leading - 0xD800) * 0x400 + (trailing - 0xDC00))

/-- The text of the parts of a string; none if half of a pair stands alone. -/
def textOfParts? : List StringPart → Option (List Char)
  | [] => some []
  | .char c :: rest => (textOfParts? rest).map (c :: ·)
  | .unit n :: .unit m :: rest =>
    if isLeading n then
      if isTrailing m then (textOfParts? rest).map (pairChar n m :: ·) else none
    else if isTrailing n then none
    else (textOfParts? (.unit m :: rest)).map (Char.ofNat n :: ·)
  | .unit n :: rest =>
    if isLeading n ∨ isTrailing n then none else (textOfParts? rest).map (Char.ofNat n :: ·)

def string? (text : List Char) : Option (Option String × List Char) := do
  let (parts, rest) ← stringParts? text
  return ((textOfParts? parts).map String.ofList, rest)

end SearchQuery.Json
