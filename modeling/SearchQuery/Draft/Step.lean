import SearchQuery.Draft

/-!
The steps by which a draft is put together, as data. A step that adds a clause with a
draft of its own carries the steps of that inner draft, which starts fresh at the place
given by the family. The one step that can fail is a sort field whose direction is given
as text; a failing inner step makes the whole outer step fail.
-/
namespace SearchQuery

inductive Step where
  | add (family : Family) (mode : Mode) (clause : Clause)
  | addNested (family : Family) (mode : Mode) (clause : Clause) (inner : List Step)
  | base (object : Object)
  | rawOption (key : String) (value : Value)
  | sortText (field : String) (direction : String)
  | sortBy (field : String) (direction : Direction)
  | size (count : UInt64)
  | offset (count : UInt64)
  | threshold (family : Family) (count : Int64)
  | reset
  | resetClauses (family : Family)
  | resetRawOptions
  | resetSort

namespace Step

mutual

def apply (draft : Draft) : Step → Except DraftError Draft
  | .add family mode clause => .ok (draft.add family mode clause)
  | .addNested family mode clause inner => do
    let child ← run (Draft.fresh (.below family)) inner
    .ok (draft.add family mode (clause.owning child))
  | .base object => .ok (draft.withBase object)
  | .rawOption key value => .ok (draft.withRawOption key value)
  | .sortText field direction => do
    let direction ← Direction.parse direction
    .ok (draft.sortBy field direction)
  | .sortBy field direction => .ok (draft.sortBy field direction)
  | .size count => .ok (draft.withSize count)
  | .offset count => .ok (draft.withOffset count)
  | .threshold family count => .ok (draft.withThreshold family count)
  | .reset => .ok draft.reset
  | .resetClauses family => .ok (draft.resetClauses family)
  | .resetRawOptions => .ok draft.resetRawOptions
  | .resetSort => .ok draft.resetSort

def run (draft : Draft) : List Step → Except DraftError Draft
  | [] => .ok draft
  | step :: rest => do
    let draft ← apply draft step
    run draft rest

end

/-- The draft after a step, where a step that fails changes nothing. -/
def perform (draft : Draft) (step : Step) : Draft :=
  match apply draft step with
  | .ok changed => changed
  | .error _ => draft

def performAll (draft : Draft) (steps : List Step) : Draft := steps.foldl perform draft

end Step

end SearchQuery
