/-!
What can go wrong while a search request is drafted or rendered, the text of each
error, and the advice that goes with some of them.
-/
namespace SearchQuery

inductive DraftError where
  | invalidArgument (reason : String)
  /-- The value at a path of the base object cannot take clauses. -/
  | structuralConflict (path : String)
  /-- A scoring clause of this kind stands below a filter. -/
  | contextViolation (kind : String)
deriving DecidableEq, Repr, Inhabited

def occursIn (word : List Char) : List Char → Bool
  | [] => word.isEmpty
  | c :: rest => word.isPrefixOf (c :: rest) || occursIn word rest

namespace DraftError

def message : DraftError → String
  | .invalidArgument reason => "invalid argument: " ++ reason
  | .structuralConflict path =>
    "cannot merge clauses into `" ++ path ++ "`: existing value is not a bool clause object"
  | .contextViolation kind =>
    "queries are not valid inside a filter context (found `" ++ kind ++ "`)"

def suggestion : DraftError → Option String
  | .invalidArgument reason =>
    if occursIn "direction".toList reason.toList then
      some "Sort direction must be 'asc' or 'desc'"
    else none
  | .structuralConflict path =>
    if path = "query" then
      some ("Start the base document from `\x7b\"query\": \x7b\"bool\": \x7b\x7d\x7d\x7d` " ++
        "or leave `query` unset")
    else none
  | .contextViolation _ =>
    some "Use filter clauses inside a filter, or nest the query under a query clause"

end DraftError

end SearchQuery
