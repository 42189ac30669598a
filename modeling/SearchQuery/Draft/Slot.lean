import SearchQuery.DraftError
import SearchQuery.Grouping
import SearchQuery.Value

/-!
The three places of a request object where clauses are written, and how they are merged
there. A place is reached through objects, which are created where they are missing; any
other value on the way is a conflict at its path. Clauses that meet others under a key
are put behind them in one array.
-/
namespace SearchQuery

inductive Slot where
  | query
  | queryBool
  /-- The bool clause under the filter of the query's bool clause. -/
  | filterBool
deriving DecidableEq, Repr, Inhabited

/-- The keys that mark an object as the body of a bool clause. -/
def boolKeys : List String := ["must", "must_not", "filter", "should"]

def hasBoolKeys (o : Object) : Bool := o.keys.any fun key => boolKeys.contains key

/-- Changes the object under a key, starting from the empty one if the key is missing. -/
def within (path key : String) (change : Object → Except DraftError Object)
    (parent : Object) : Except DraftError Object :=
  match parent.get? key with
  | none => do return parent.insert key (.object (← change []))
  | some (.object inner) => do return parent.insert key (.object (← change inner))
  | some _ => .error (.structuralConflict path)

namespace Slot

/-- Changes the bool clause under the filter of a bool clause. A filter that is an array
gets a new bool clause at its end. -/
def changeFilter (change : Object → Object) (boolBody : Object) : Except DraftError Object :=
  match boolBody.get? "filter" with
  | some (.array values) =>
    let added := Keyed.single "bool" (.object (change []))
    .ok (boolBody.insert "filter" (.array (values ++ [.object added])))
  | _ =>
    within "query.bool.filter" "filter"
      (within "query.bool.filter.bool" "bool" fun inner => .ok (change inner)) boolBody

def change (slot : Slot) (f : Object → Object) (request : Object) : Except DraftError Object :=
  within "query" "query" (fun query =>
    match slot with
    | .query => .ok (f query)
    | .queryBool => within "query.bool" "bool" (fun inner => .ok (f inner)) query
    | .filterBool => within "query.bool" "bool" (changeFilter f) query) request

end Slot

/-- Merges clauses into an object under a key. A missing key takes them as they are;
otherwise they are put behind what is there. -/
def mergeClauses (key : String) (clauses : Value) (target : Object) : Object :=
  match target.get? key with
  | none => target.insert key clauses
  | some present => target.insert key (.array (present.items ++ clauses.items))

/-- Writes how many alternatives have to match, where a list of them was just merged. -/
def raiseThreshold (key : String) (threshold : Option Int64) (target : Object) : Object :=
  match threshold with
  | none => target
  | some count =>
    if key = "should" ∧ (target.get? "should").any Value.isArray then
      target.insert "minimum_should_match" (.int count.toInt)
    else target

end SearchQuery
