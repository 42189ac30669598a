import SearchQuery.Spec.Schema

/-!
Specs in files. The name of a file says in which notation it is written, and its bytes
have to be UTF-8 text.
-/
namespace SearchQuery

def reversedParts (path : List Char) : List (List Char) :=
  path.foldl
    (fun parts c => if c = '/' then [] :: parts else
      match parts with
      | [] => [[c]]
      | part :: rest => (part ++ [c]) :: rest) [[]]

def fileName (path : List Char) : List Char :=
  ((reversedParts path).find? fun part => part != [] && part != ['.']).getD []

/-- What follows the last point of a file name, unless that point is all it starts with. -/
def extension? (path : String) : Option String :=
  let name := fileName path.toList
  let (reversed, stem) := name.reverse.span (· != '.')
  if name = ['.', '.'] then none
  else match stem with
    | [] => none
    | [_] => none
    | _ => some (String.ofList reversed.reverse)

/-- A file is in JSON exactly if its extension says so; any other file is in TOML. -/
def Notation.ofPath (path : String) : Notation :=
  if extension? path = some "json" then .json else .toml

def Spec.ofFile (path : String) (contents : Option ByteArray) : Except SpecError Spec :=
  match contents.bind String.fromUTF8? with
  | none => .error .unreadable
  | some text => Spec.parse (Notation.ofPath path) text

end SearchQuery
