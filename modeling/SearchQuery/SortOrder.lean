import SearchQuery.DraftError
import SearchQuery.Value

/-!
The order in which results are sorted: fields with a direction each, the most
important first. Setting a field again changes its direction and keeps its place.
-/
namespace SearchQuery

inductive Direction where
  | asc
  | desc
deriving DecidableEq, Repr, Inhabited

namespace Direction

def default : Direction := .asc

def name : Direction → String
  | .asc => "asc"
  | .desc => "desc"

/-- Reads a direction in any letter case. No letter beyond ASCII becomes one of these
words in lower case. -/
def parse (text : String) : Except DraftError Direction :=
  let word := text.toLower
  if word = "asc" then .ok .asc
  else if word = "desc" then .ok .desc
  else .error (.invalidArgument ("direction must be 'asc' or 'desc', got '" ++ text ++ "'"))

end Direction

abbrev SortOrder := Keyed Direction

namespace SortOrder

/-- Gives a field a direction: in place if the field is there, last if it is new. -/
def set (order : SortOrder) (field : String) (direction : Direction) : SortOrder :=
  Keyed.insert order field direction

def fieldObject (field : String × Direction) : Object :=
  Keyed.single field.1 (.string field.2.name)

def toValue (order : SortOrder) : Value :=
  .array (order.map fun field => .object (fieldObject field))

end SortOrder

end SearchQuery
