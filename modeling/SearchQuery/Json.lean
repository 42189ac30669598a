import SearchQuery.Json.Literal

/-!
Reading JSON text. The whole text must be one datum with blanks around it. Objects and
arrays nested deeper than 127 are faults, and so are an object with a key that is no
text and the faults of numbers and strings: the grammar is checked inside them as
everywhere else. The reader recurses on a bound for the length of the text.
-/
namespace SearchQuery.Json

def maxDepth : Nat := 127

def isBlank (c : Char) : Bool := c == ' ' || c == '\t' || c == '\n' || c == '\r'

def skipBlanks (text : List Char) : List Char := text.dropWhile isBlank

def afterWord? (word text : List Char) : Option (List Char) :=
  if word.isPrefixOf text then some (text.drop word.length) else none

def atDepth (depth : Nat) (datum : Datum) : Datum := if depth < maxDepth then datum else .fault

def objectOf (entries : List (Option String × Datum)) : Datum :=
  match entries.mapM fun entry => entry.1.map fun key => (key, entry.2) with
  | some entries => .object entries
  | none => .fault

def scalar? (text : List Char) : Option (Datum × List Char) :=
  match text with
  | '\x22' :: rest => do
    let (s, rest) ← string? rest
    return ((s.map .string).getD .fault, rest)
  | 'n' :: rest => do return (.null, ← afterWord? ['u', 'l', 'l'] rest)
  | 't' :: rest => do return (.bool true, ← afterWord? ['r', 'u', 'e'] rest)
  | 'f' :: rest => do return (.bool false, ← afterWord? ['a', 'l', 's', 'e'] rest)
  | _ => do
    let (n, rest) ← numeral? text
    return (numberDatum n, rest)

mutual

def read? : Nat → Nat → List Char → Option (Datum × List Char)
  | 0, _, _ => none
  | bound + 1, depth, text =>
    match skipBlanks text with
    | '[' :: rest =>
      match skipBlanks rest with
      | ']' :: rest => some (atDepth depth (.array []), rest)
      | _ => do
        let (items, rest) ← readItems? bound (depth + 1) rest
        return (atDepth depth (.array items), rest)
    | '\x7b' :: rest =>
      match skipBlanks rest with
      | '\x7d' :: rest => some (atDepth depth (.object []), rest)
      | _ => do
        let (entries, rest) ← readEntries? bound (depth + 1) rest
        return (atDepth depth (objectOf entries), rest)
    | rest => scalar? rest

def readItems? : Nat → Nat → List Char → Option (List Datum × List Char)
  | 0, _, _ => none
  | bound + 1, depth, text => do
    let (datum, rest) ← read? bound depth text
    match skipBlanks rest with
    | ',' :: rest =>
      let (items, rest) ← readItems? bound depth rest
      return (datum :: items, rest)
    | ']' :: rest => return ([datum], rest)
    | _ => none

def readEntries? : Nat → Nat → List Char → Option (List (Option String × Datum) × List Char)
  | 0, _, _ => none
  | bound + 1, depth, text =>
    match skipBlanks text with
    | '\x22' :: rest => do
      let (key, rest) ← string? rest
      match skipBlanks rest with
      | ':' :: rest =>
        let (datum, rest) ← read? bound depth rest
        match skipBlanks rest with
        | ',' :: rest =>
          let (entries, rest) ← readEntries? bound depth rest
          return ((key, datum) :: entries, rest)
        | '\x7d' :: rest => return ([(key, datum)], rest)
        | _ => none
      | _ => none
    | _ => none

end

def datum? (text : String) : Option Datum :=
  let chars := text.toList
  match read? (chars.length + 1) 0 chars with
  | some (datum, rest) => if (skipBlanks rest).isEmpty then some datum else none
  | none => none

def value? (text : String) : Option Value := (datum? text).bind Datum.value?

end SearchQuery.Json
