import SearchQuery.Value.Compact

/-!
The text of a value in TOML, on one line: arrays and inline tables without blanks, keys
and strings between double quotes, numbers in decimal. There is no null in TOML; a number
that is none is written for it, which is read as null again.
-/
namespace SearchQuery.Toml

/-- A character between double quotes. Besides what a compact text escapes, the last
control character of ASCII needs it. -/
def escaped (c : Char) : List Char :=
  if c = '\x7f' then ['\\', 'u', '0', '0', '7', 'f'] else Value.escaped c

def quoted (s : List Char) : List Char :=
  '\x22' :: s.flatMap escaped ++ ['\x22']

mutual

def chars : Value → List Char
  | .null => ['n', 'a', 'n']
  | .bool true => ['t', 'r', 'u', 'e']
  | .bool false => ['f', 'a', 'l', 's', 'e']
  | .int n => wholeText n
  | .float x => x.text
  | .string s => quoted s.toList
  | .array [] => ['[', ']']
  | .array (value :: rest) => '[' :: chars value ++ itemsChars rest
  | .object [] => ['\x7b', '\x7d']
  | .object ((key, value) :: rest) =>
    '\x7b' :: quoted key.toList ++ '=' :: chars value ++ entriesChars rest

def itemsChars : List Value → List Char
  | [] => [']']
  | value :: rest => ',' :: chars value ++ itemsChars rest

def entriesChars : List (String × Value) → List Char
  | [] => ['\x7d']
  | (key, value) :: rest =>
    ',' :: quoted key.toList ++ '=' :: chars value ++ entriesChars rest

end

def line (entry : String × Value) : List Char :=
  entry.1.toList ++ ' ' :: '=' :: ' ' :: chars entry.2 ++ ['\n']

def text (entries : Object) : String := String.ofList (entries.flatMap line)

end SearchQuery.Toml
