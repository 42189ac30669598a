import SearchQuery.Numeral
import SearchQuery.Toml.Blank

/-!
Strings between quotes. Double quotes allow escapes and single quotes do not; three
quotes of either kind allow line ends. A string is read in two steps: the raw text up to
the closing quotes, then the text that it stands for. In a raw text over several lines
the first line end does not count, and a backslash at the end of a line takes back the
line end and all blanks and empty lines after it. It also cuts the text in two: no escape
goes on across it.
-/
namespace SearchQuery.Toml

def rawBasic? : List Char → Option (List Char × List Char)
  | [] => none
  | '\\' :: c :: rest => (rawBasic? rest).map fun (raw, rest) => ('\\' :: c :: raw, rest)
  | c :: rest =>
    if c = '\x22' then some ([], rest)
    else (rawBasic? rest).map fun (raw, rest) => (c :: raw, rest)

def rawLiteral? (text : List Char) : Option (List Char × List Char) :=
  match text.span (· != '\x27') with
  | (_, []) => none
  | (raw, _ :: rest) => some (raw, rest)

/-- Up to two quotes right after three closing ones belong to the string. -/
def extraQuotes (quote : Char) : List Char → List Char × List Char
  | c :: d :: rest =>
    if c = quote ∧ d = quote then ([c, d], rest)
    else if c = quote then ([c], d :: rest)
    else ([], c :: d :: rest)
  | [c] => if c = quote then ([c], []) else ([], [c])
  | [] => ([], [])

/-- The raw text up to three closing quotes, and what follows them. Where escapes are
allowed, a character after a backslash closes nothing. -/
def rawLines? (quote : Char) (escapes : Bool) : List Char → Option (List Char × List Char)
  | [] => none
  | [_] => none
  | [_, _] => none
  | a :: b :: c :: rest =>
    if a = quote ∧ b = quote ∧ c = quote then some (extraQuotes quote rest)
    else if escapes ∧ a = '\\' then
      (rawLines? quote escapes (c :: rest)).map fun (raw, rest) => (a :: b :: raw, rest)
    else (rawLines? quote escapes (b :: c :: rest)).map fun (raw, rest) => (a :: raw, rest)

def plainLines : List Char → Bool
  | [] => true
  | '\r' :: '\n' :: rest => plainLines rest
  | c :: rest => (c == '\n' || isPlain c) && plainLines rest

def afterFirstLineEnd : List Char → List Char
  | '\n' :: rest => rest
  | '\r' :: '\n' :: rest => rest
  | text => text

/-- How far a backslash at the end of a line has been followed. -/
inductive Joining where
  | outside
  | beforeLineEnd
  | afterLineEnd
deriving DecidableEq, Repr

def isLineEndPart (c : Char) : Bool := c == '\n' || c == '\r'

/-- Cuts a raw text where a backslash takes back a line end. Only blanks may stand between
the two. The result is the first piece and the pieces after it. -/
def pieces? : Joining → List Char → Option (List Char × List (List Char))
  | .beforeLineEnd, [] => none
  | _, [] => some ([], [])
  | .beforeLineEnd, c :: rest =>
    if c = '\n' then pieces? .afterLineEnd rest
    else if isBlank c ∨ c = '\r' then pieces? .beforeLineEnd rest
    else none
  | joining, c :: rest =>
    if joining = .afterLineEnd ∧ (isBlank c ∨ isLineEndPart c) then
      pieces? .afterLineEnd rest
    else if c = '\\' then
      match rest with
      | [] => none
      | d :: later =>
        if isBlank d ∨ isLineEndPart d then
          (pieces? .beforeLineEnd (d :: later)).map fun (piece, others) => ([], piece :: others)
        else (pieces? .outside later).map fun (piece, others) => (c :: d :: piece, others)
    else (pieces? .outside rest).map fun (piece, others) => (c :: piece, others)

def codedChar? (digits : List Char) : Option Char :=
  let n := valueOfDigits 16 digits
  if digits.all (isDigitOf 16) ∧ n.isValidChar then some (Char.ofNat n) else none

def escape? (c : Char) : Option Char :=
  if c = '\x22' ∨ c = '\\' then some c
  else if c = 'b' then some '\x08'
  else if c = 't' then some '\t'
  else if c = 'n' then some '\n'
  else if c = 'f' then some '\x0c'
  else if c = 'r' then some '\r'
  else if c = 'e' then some '\x1b'
  else none

def unescape? : List Char → Option (List Char)
  | [] => some []
  | '\\' :: 'x' :: a :: b :: rest => do return (← codedChar? [a, b]) :: (← unescape? rest)
  | '\\' :: 'u' :: a :: b :: c :: d :: rest => do
    return (← codedChar? [a, b, c, d]) :: (← unescape? rest)
  | '\\' :: 'U' :: a :: b :: c :: d :: e :: f :: g :: h :: rest => do
    return (← codedChar? [a, b, c, d, e, f, g, h]) :: (← unescape? rest)
  | '\\' :: c :: rest => do return (← escape? c) :: (← unescape? rest)
  | c :: rest => if c = '\\' then none else (unescape? rest).map (c :: ·)

def unescapeLines? (raw : List Char) : Option (List Char) := do
  let (piece, others) ← pieces? .outside raw
  let texts ← (piece :: others).mapM unescape?
  return texts.flatten

def basic? (text : List Char) : Option (List Char × List Char) := do
  let (raw, rest) ← rawBasic? text
  if raw.all isPlain then return (← unescape? raw, rest) else none

def literal? (text : List Char) : Option (List Char × List Char) := do
  let (raw, rest) ← rawLiteral? text
  if raw.all isPlain then return (raw, rest) else none

def basicLines? (text : List Char) : Option (List Char × List Char) := do
  let (raw, rest) ← rawLines? '\x22' true text
  let raw := afterFirstLineEnd raw
  if plainLines raw then return (← unescapeLines? raw, rest) else none

def literalLines? (text : List Char) : Option (List Char × List Char) := do
  let (raw, rest) ← rawLines? '\x27' false text
  let raw := afterFirstLineEnd raw
  if plainLines raw then return (raw, rest) else none

end SearchQuery.Toml
