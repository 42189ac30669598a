import SearchQuery.Json

/-!
JSON texts taken apart. A layout keeps all that is written in a text: the blanks, the words of
keys and scalars as they are spelled, and the items and entries in their order. It has a text,
and it has the datum that the text says at a depth. Texts can be changed in one place by
changing their layouts there.
-/
namespace SearchQuery.Json

/-- A key or a datum without parts, as it is spelled, with the blanks around it. -/
structure Token where
  before : List Char := []
  word : List Char
  after : List Char := []
deriving Repr, Inhabited

structure Blanks where
  before : List Char := []
  inside : List Char := []
  after : List Char := []
deriving Repr, Inhabited

inductive Layout where
  | scalar (token : Token)
  | array (blanks : Blanks) (items : List Layout)
  | object (blanks : Blanks) (entries : List (Token × Layout))
deriving Repr

instance : Inhabited Layout := ⟨.array {} []⟩

namespace Token

def bare (word : String) : Token := { word := word.toList }

def chars (token : Token) : List Char := token.before ++ token.word ++ token.after

def hasBlanks (token : Token) : Bool := token.before.all isBlank && token.after.all isBlank

/-- The string that a word spells, which may be no text: none if it spells no string. -/
def string? (token : Token) : Option (Option String) :=
  match token.word with
  | '\x22' :: rest =>
    match Json.string? rest with
    | some (s, []) => some s
    | _ => none
  | _ => none

def key? (token : Token) : Option String := token.string?.join

def isKey (token : Token) : Bool := token.hasBlanks && token.string?.isSome

def scalar? (token : Token) : Option Datum :=
  match Json.scalar? token.word with
  | some (datum, []) => some datum
  | _ => none

def isScalar (token : Token) : Bool := token.hasBlanks && token.scalar?.isSome

end Token

def Blanks.areBlank (blanks : Blanks) : Bool :=
  blanks.before.all isBlank && blanks.inside.all isBlank && blanks.after.all isBlank

namespace Layout

def after : Layout → List Char
  | .scalar token => token.after
  | .array blanks _ => blanks.after
  | .object blanks _ => blanks.after

mutual

def chars : Layout → List Char
  | .scalar token => token.chars
  | .array blanks items =>
    blanks.before ++ '[' :: (itemsChars items ++ blanks.inside ++ ']' :: blanks.after)
  | .object blanks entries =>
    blanks.before ++ '\x7b' :: (entriesChars entries ++ blanks.inside ++ '\x7d' :: blanks.after)

def itemsChars : List Layout → List Char
  | [] => []
  | item :: rest => item.chars ++ laterItemsChars rest

def laterItemsChars : List Layout → List Char
  | [] => []
  | item :: rest => ',' :: (item.chars ++ laterItemsChars rest)

def entriesChars : List (Token × Layout) → List Char
  | [] => []
  | (key, value) :: rest => key.chars ++ ':' :: (value.chars ++ laterEntriesChars rest)

def laterEntriesChars : List (Token × Layout) → List Char
  | [] => []
  | (key, value) :: rest =>
    ',' :: (key.chars ++ ':' :: (value.chars ++ laterEntriesChars rest))

end

def text (layout : Layout) : String := String.ofList layout.chars

mutual

def isWellFormed : Layout → Bool
  | .scalar token => token.isScalar
  | .array blanks items => blanks.areBlank && areWellFormed items
  | .object blanks entries => blanks.areBlank && entriesWellFormed entries

def areWellFormed : List Layout → Bool
  | [] => true
  | item :: rest => item.isWellFormed && areWellFormed rest

def entriesWellFormed : List (Token × Layout) → Bool
  | [] => true
  | (key, value) :: rest => key.isKey && value.isWellFormed && entriesWellFormed rest

end

mutual

def datum (depth : Nat) : Layout → Datum
  | .scalar token => token.scalar?.getD .fault
  | .array _ items => atDepth depth (.array (itemsData (depth + 1) items))
  | .object _ entries => atDepth depth (objectOf (entriesData (depth + 1) entries))

def itemsData (depth : Nat) : List Layout → List Datum
  | [] => []
  | item :: rest => item.datum depth :: itemsData depth rest

def entriesData (depth : Nat) : List (Token × Layout) → List (Option String × Datum)
  | [] => []
  | (key, value) :: rest => (key.key?, value.datum depth) :: entriesData depth rest

end

end Layout

end SearchQuery.Json
