import SearchQuery.Toml.Quoted
import SearchQuery.Toml.Scalar

/-!
The statements of a TOML text: headers that name a table or add an element to an array
of tables, and assignments of a value to a path of keys. Values may nest arrays and
inline tables 80 deep, and a path has at most 80 keys. The readers recurse on a bound
for the length of the text.
-/
namespace SearchQuery.Toml

/-- How deep arrays and inline tables may be nested, and how long a path may be. -/
def maxDepth : Nat := 80

/-- A value as written: an inline table keeps its paths. -/
inductive Item where
  | scalar (datum : Datum)
  | array (items : List Item)
  | table (entries : List (List String × Item))
deriving Repr, Inhabited

inductive Statement where
  | table (path : List String)
  | element (path : List String)
  | assign (path : List String) (item : Item)
deriving Repr, Inhabited

def isKeyChar (c : Char) : Bool := c.isAlphanum || c == '_' || c == '-'

def key? (text : List Char) : Option (String × List Char) :=
  match text with
  | '\x22' :: rest => (basic? rest).map fun (key, rest) => (String.ofList key, rest)
  | '\x27' :: rest => (literal? rest).map fun (key, rest) => (String.ofList key, rest)
  | _ =>
    match text.span isKeyChar with
    | ([], _) => none
    | (key, rest) => some (String.ofList key, rest)

def path? : Nat → List Char → Option (List String × List Char)
  | 0, _ => none
  | bound + 1, text => do
    let (key, rest) ← key? text
    match skipBlanks rest with
    | '.' :: rest => do
      let (path, rest) ← path? bound (skipBlanks rest)
      return (key :: path, rest)
    | _ => return ([key], rest)

def isBareChar (c : Char) : Bool :=
  !([' ', '\t', '\r', '\n', '#', ',', '=', '[', ']', '\x7b', '\x7d'].contains c)

def startsWord : List Char → Bool
  | [] => false
  | c :: _ => isBareChar c && c != '\x22' && c != '\x27'

/-- The text of a value without quotes or brackets. Blanks belong to it where a word
follows them. -/
def bare : List Char → List Char × List Char
  | [] => ([], [])
  | c :: rest =>
    if isBareChar c || (isBlank c && startsWord (skipBlanks rest)) then
      let (word, after) := bare rest
      (c :: word, after)
    else ([], c :: rest)

def string? : List Char → Option (List Char × List Char)
  | '\x22' :: '\x22' :: '\x22' :: rest => basicLines? rest
  | '\x22' :: rest => basic? rest
  | '\x27' :: '\x27' :: '\x27' :: rest => literalLines? rest
  | '\x27' :: rest => literal? rest
  | _ => none

def plainItem? (text : List Char) : Option (Item × List Char) :=
  match text with
  | c :: _ =>
    if c = '\x22' ∨ c = '\x27' then
      (string? text).map fun (s, rest) => (.scalar (.string (String.ofList s)), rest)
    else
      let (word, rest) := bare text
      (scalar? word).map fun datum => (.scalar datum, rest)
  | [] => none

mutual

def item? : Nat → Nat → List Char → Option (Item × List Char)
  | 0, _, _ => none
  | bound + 1, depth, text =>
    match text with
    | '[' :: rest =>
      if maxDepth ≤ depth then none
      else match skipLines false rest with
        | ']' :: rest => some (.array [], rest)
        | rest => (items? bound (depth + 1) rest).map fun (items, rest) => (.array items, rest)
    | '\x7b' :: rest =>
      if maxDepth ≤ depth then none
      else match skipLines false rest with
        | '\x7d' :: rest => some (.table [], rest)
        | rest =>
          (entries? bound (depth + 1) rest).map fun (entries, rest) => (.table entries, rest)
    | _ => plainItem? text

def items? : Nat → Nat → List Char → Option (List Item × List Char)
  | 0, _, _ => none
  | bound + 1, depth, text => do
    let (item, rest) ← item? bound depth text
    match skipLines false rest with
    | ']' :: rest => return ([item], rest)
    | ',' :: rest =>
      match skipLines false rest with
      | ']' :: rest => return ([item], rest)
      | rest =>
        let (items, rest) ← items? bound depth rest
        return (item :: items, rest)
    | _ => none

/-- The entries of an inline table up to the closing brace, of which there must be one.
A comma may stand before the brace, and lines may end between any two parts. -/
def entries? : Nat → Nat → List Char → Option (List (List String × Item) × List Char)
  | 0, _, _ => none
  | bound + 1, depth, text => do
    let (path, rest) ← path? maxDepth text
    match skipLines false rest with
    | '=' :: rest =>
      let (item, rest) ← item? bound depth (skipLines false rest)
      match skipLines false rest with
      | '\x7d' :: rest => return ([(path, item)], rest)
      | ',' :: rest =>
        match skipLines false rest with
        | '\x7d' :: rest => return ([(path, item)], rest)
        | rest =>
          let (entries, rest) ← entries? bound depth rest
          return ((path, item) :: entries, rest)
      | _ => none
    | _ => none

end

def header? (closing text : List Char) : Option (List String × List Char) := do
  let (path, rest) ← path? maxDepth (skipBlanks text)
  let rest := skipBlanks rest
  if closing.isPrefixOf rest then return (path, rest.drop closing.length) else none

def assignment? (text : List Char) : Option (Statement × List Char) := do
  let (path, rest) ← path? maxDepth text
  match skipBlanks rest with
  | '=' :: rest =>
    let (item, rest) ← item? (rest.length + 1) 0 (skipBlanks rest)
    return (.assign path item, rest)
  | _ => none

def startsStatement : List Char → Bool
  | [] => false
  | c :: _ => !(c == '#' || c == '\n' || c == '\r')

def statement? (text : List Char) : Option (Statement × List Char) :=
  match text with
  | '[' :: '[' :: rest => (header? [']', ']'] rest).map fun (path, rest) => (.element path, rest)
  | '[' :: rest => (header? [']'] rest).map fun (path, rest) => (.table path, rest)
  | _ => assignment? text

def statements? : Nat → List Char → Option (List Statement)
  | 0, _ => none
  | _ + 1, [] => some []
  | bound + 1, text =>
    let line := skipBlanks text
    if startsStatement line then do
      let (statement, rest) ← statement? line
      let statements ← statements? bound (← lineEnd? rest)
      return statement :: statements
    else do statements? bound (← lineEnd? line)

end SearchQuery.Toml
