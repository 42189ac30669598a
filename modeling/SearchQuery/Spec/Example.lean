/-!
An example spec to start from, handed out with every line commented out.
-/
namespace SearchQuery

/-- The lines of a text without their line ends. A line feed ends a line, and a carriage
return before it belongs to the line end. -/
def lines : List Char → List (List Char)
  | [] => []
  | '\r' :: '\n' :: rest => [] :: lines rest
  | c :: rest =>
    if c = '\n' then [] :: lines rest
    else match lines rest with
      | [] => [[c]]
      | line :: later => (c :: line) :: later

/-- A line as a comment. Empty lines and comments stay as they are. -/
def commentLine : List Char → List Char
  | [] => []
  | c :: rest => if c = '#' then c :: rest else '#' :: ' ' :: c :: rest

def commented (text : String) : String :=
  String.ofList ((lines text.toList).flatMap fun line => commentLine line ++ ['\n'])

namespace Spec

def exampleText : String :=
  String.intercalate "\n" [
    "# Query spec",
    "#",
    "# Describes a search request as clauses plus root options. Clauses are added",
    "# in order; each lands in a (family, mode) bucket.",
    "",
    "# Pagination",
    "size = 20",
    "from = 0",
    "",
    "# Thresholds applied when the matching `should` array holds several clauses.",
    "query_minimum_should_match = 1",
    "",
    "# Sort fields, in order. Direction is \"asc\" (default) or \"desc\".",
    "[[sort]]",
    "field = \"created_at\"",
    "direction = \"desc\"",
    "",
    "# Raw keys copied onto the document root.",
    "[[raw]]",
    "key = \"track_total_hits\"",
    "value = true",
    "",
    "# family: \"query\" (default) or \"filter\"",
    "# mode:   \"and\" (default), \"or\" or \"not\"",
    "[[clause]]",
    "type = \"match_all\"",
    "",
    "[[clause]]",
    "family = \"filter\"",
    "type = \"term\"",
    "field = \"status\"",
    "value = \"published\"",
    "",
    "[[clause]]",
    "family = \"filter\"",
    "mode = \"not\"",
    "type = \"exists\"",
    "field = \"deleted_at\"",
    "",
    "# A clause with a nested block merges the child's bool body into its own.",
    "[[clause]]",
    "type = \"nested\"",
    "field = \"path\"",
    "value = \"comments\"",
    "",
    "[[clause.nested.clause]]",
    "mode = \"or\"",
    "type = \"match\"",
    "field = \"comments.author\"",
    "value = \"alice\"",
    "",
    "[[clause.nested.clause]]",
    "mode = \"or\"",
    "type = \"match\"",
    "field = \"comments.author\"",
    "value = \"bob\"",
    ""]

def exampleComment : String := commented exampleText

end Spec

end SearchQuery
