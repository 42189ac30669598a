/-!
Blanks, line ends and comments of TOML. A line ends with a line feed, alone or after a
carriage return. A comment runs to the end of its line and holds no control character
but the tab.
-/
namespace SearchQuery.Toml

def isBlank (c : Char) : Bool := c == ' ' || c == '\t'

/-- A character that may stand in a comment or between quotes: no control character
but the tab. -/
def isPlain (c : Char) : Bool := c == '\t' || (' ' ≤ c && c != '\x7f')

def skipBlanks (text : List Char) : List Char := text.dropWhile isBlank

/-- Skips blanks, line ends and comments. The flag says whether the text starts inside
a comment. A control character ends the skipping, and no part of a text starts with one. -/
def skipLines : Bool → List Char → List Char
  | _, [] => []
  | _, '\n' :: rest => skipLines false rest
  | _, '\r' :: '\n' :: rest => skipLines false rest
  | true, c :: rest => if isPlain c then skipLines true rest else c :: rest
  | false, c :: rest =>
    if isBlank c then skipLines false rest
    else if c = '#' then skipLines true rest
    else c :: rest

def lineEnd? (text : List Char) : Option (List Char) :=
  let afterComment := match skipBlanks text with
    | '#' :: rest => rest.dropWhile isPlain
    | rest => rest
  match afterComment with
  | [] => some []
  | '\n' :: rest => some rest
  | '\r' :: '\n' :: rest => some rest
  | _ => none

end SearchQuery.Toml
