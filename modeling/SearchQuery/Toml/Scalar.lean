import SearchQuery.Datum
import SearchQuery.Numeral
import SearchQuery.Toml.DateTime

/-!
Values that TOML writes without quotes or brackets: truth values, whole numbers in four
bases, floating-point numbers, and dates and times. Single underscores may stand between
the digits of a number. A whole number beyond 128 bits is a fault, and so are a base
without digits, a decimal number with more than digits behind an underscore, and a
floating-point number in digits that is not finite.
-/
namespace SearchQuery.Toml

/-- The digits of a base, from a text with single underscores between them. -/
def ungrouped? (base : Nat) : List Char → Option (List Char)
  | [] => none
  | [c] => if isDigitOf base c then some [c] else none
  | c :: '_' :: rest =>
    if isDigitOf base c then (ungrouped? base rest).map (c :: ·) else none
  | c :: rest => if isDigitOf base c then (ungrouped? base rest).map (c :: ·) else none

/-- Decimal digits that do not start with a zero, but for zero itself. -/
def wholeDigits? (text : List Char) : Option (List Char) :=
  match ungrouped? 10 text with
  | some ('0' :: _ :: _) => none
  | found => found

def signed : List Char → Bool × List Char
  | '-' :: rest => (true, rest)
  | '+' :: rest => (false, rest)
  | text => (false, text)

def fitting (n : Int) : Datum := if -Int.pow 2 127 ≤ n ∧ n < Int.pow 2 128 then .int n else .fault

def based? (base : Nat) (text : List Char) : Option Datum :=
  if text.isEmpty then some .fault
  else (ungrouped? base text).map fun digits => fitting (valueOfDigits base digits)

/-- Whether each underscore stands between hexadecimal digits. The flag says whether there
is one before the text. -/
def underscoresFit : Bool → List Char → Bool
  | _, [] => true
  | _, ['_'] => false
  | before, '_' :: c :: rest => before && isDigitOf 16 c && underscoresFit true rest
  | _, c :: rest => underscoresFit (isDigitOf 16 c) rest

def isFloatMark (c : Char) : Bool := c == '.' || c == 'e' || c == 'E'

/-- Whether a text after a sign has the outline of a decimal number with an underscore.
Behind that underscore may stand anything but a space or the mark of a floating-point
number. -/
def hasOutline (text : List Char) : Bool :=
  text.head? != some '0' && (text.dropWhile Char.isDigit).head? == some '_' &&
    !text.contains ' ' && !text.any isFloatMark && underscoresFit false text

/-- A whole number. Only a decimal one may have a sign. -/
def integer? (text : List Char) : Option Datum :=
  match text with
  | '0' :: 'x' :: rest => based? 16 rest
  | '0' :: 'o' :: rest => based? 8 rest
  | '0' :: 'b' :: rest => based? 2 rest
  | _ =>
    let (negative, rest) := signed text
    match wholeDigits? rest with
    | some digits =>
      let size : Int := valueOfDigits 10 digits
      some (fitting (if negative then -size else size))
    | none => if hasOutline rest then some .fault else none

def isPowerMark (c : Char) : Bool := c == 'e' || c == 'E'

def power? (text : List Char) : Option Int := do
  let (negative, digits) := signed text
  let size : Int := valueOfDigits 10 (← ungrouped? 10 digits)
  return if negative then -size else size

def decimal? (text : List Char) : Option Numeral := do
  let (negative, rest) := signed text
  let (mantissa, power) := rest.span (!isPowerMark ·)
  let (whole, fraction) := mantissa.span (· != '.')
  let whole ← wholeDigits? whole
  let fraction ← match fraction with
    | [] => some none
    | _ :: digits => (ungrouped? 10 digits).map some
  let power ← match power with
    | [] => some none
    | _ :: digits => (power? digits).map some
  if fraction.isNone ∧ power.isNone then none else return ⟨negative, whole, fraction, power⟩

def float? (text : List Char) : Option Datum :=
  let (negative, rest) := signed text
  if rest = ['i', 'n', 'f'] then some (.float (.ofMagnitude negative Binary64.infinity))
  else if rest = ['n', 'a', 'n'] then
    some (.float (.ofMagnitude negative (Binary64.infinity + Nat.pow 2 51)))
  else (decimal? text).map fun n => if n.nearest.isFinite then .float n.nearest else .fault

def dateTimeKey : String := "$__toml_private_datetime"

def DateTime.datum (d : DateTime) : Datum :=
  .object [(dateTimeKey, .string (String.ofList d.text))]

def scalar? (text : List Char) : Option Datum :=
  if text = ['t', 'r', 'u', 'e'] then some (.bool true)
  else if text = ['f', 'a', 'l', 's', 'e'] then some (.bool false)
  else (integer? text).or ((float? text).or ((dateTime? text).map DateTime.datum))

end SearchQuery.Toml
