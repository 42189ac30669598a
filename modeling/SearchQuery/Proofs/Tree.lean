import SearchQuery.Draft.Render

/-!
Drafts as trees. A draft holds the drafts that its clauses own, and the ones these hold.
What is shown of a draft from the same fact about the drafts its clauses own is true of
every draft, since the tree below it is finite.
-/
namespace SearchQuery

namespace Draft

inductive Holds : Draft → Draft → Prop
  | self (draft : Draft) : Holds draft draft
  | owned {draft child node : Draft} {family : Family} {mode : Mode} {clause : Clause}
      (hclause : clause ∈ (draft.clauses family).get mode)
      (hchild : clause.nested = some child) (hnode : Holds child node) : Holds draft node

theorem Holds.trans {draft node inner : Draft} (h : draft.Holds node)
    (hinner : node.Holds inner) : draft.Holds inner := by
  induction h with
  | self => exact hinner
  | owned hclause hchild _ ih => exact .owned hclause hchild (ih hinner)

theorem Holds.child {draft child : Draft} {family : Family} {mode : Mode} {clause : Clause}
    (hclause : clause ∈ (draft.clauses family).get mode)
    (hchild : clause.nested = some child) : draft.Holds child :=
  .owned hclause hchild (.self child)

theorem sizeOf_group_lt (draft : Draft) (family : Family) (mode : Mode) :
    sizeOf ((draft.clauses family).get mode) < sizeOf draft := by
  obtain ⟨base, placement, ⟨_, _, _⟩, ⟨_, _, _⟩, _, _, _, _, _, _⟩ := draft
  cases family <;> cases mode <;> simp [clauses, ByMode.get] <;> omega

/-- A draft that a clause of another one owns is smaller than that one. -/
theorem sizeOf_child_lt {draft child : Draft} {family : Family} {mode : Mode}
    {clause : Clause} (hclause : clause ∈ (draft.clauses family).get mode)
    (hchild : clause.nested = some child) : sizeOf child < sizeOf draft := by
  have hgroup := sizeOf_group_lt draft family mode
  have hmem := List.sizeOf_lt_of_mem hclause
  obtain ⟨kind, payload, options, nested⟩ := clause
  obtain rfl : nested = some child := hchild
  simp only [Clause.mk.sizeOf_spec, Option.some.sizeOf_spec] at hmem
  omega

/-- Induction over the tree of a draft, from the drafts that the clauses own upwards. -/
theorem tree_induction {P : Draft → Prop}
    (step : ∀ draft : Draft,
      (∀ family mode clause child, clause ∈ (draft.clauses family).get mode →
        clause.nested = some child → P child) → P draft)
    (draft : Draft) : P draft :=
  step draft fun _ _ _ child hclause hchild =>
    have := sizeOf_child_lt hclause hchild
    tree_induction step child
termination_by sizeOf draft

end Draft

end SearchQuery
