import SearchQuery.Draft

/-!
Clauses that are added to a draft one after the other. Every group gets the clauses that
are added to it, in order and behind those it has, whatever comes between them. Nothing
else in the draft changes.
-/
namespace SearchQuery

structure Addition where
  family : Family
  mode : Mode
  clause : Clause

namespace ByMode

variable {α : Type}

def append (groups more : ByMode α) : ByMode α :=
  ⟨groups.and ++ more.and, groups.or ++ more.or, groups.not ++ more.not⟩

theorem append_empty (groups : ByMode α) : groups.append {} = groups := by
  simp [append]

theorem empty_append (groups : ByMode α) : ByMode.append {} groups = groups := rfl

theorem append_assoc (first second third : ByMode α) :
    (first.append second).append third = first.append (second.append third) := by
  simp [append, List.append_assoc]

theorem get_append (groups more : ByMode α) (mode : Mode) :
    (groups.append more).get mode = groups.get mode ++ more.get mode := by
  cases mode <;> rfl

end ByMode

namespace Addition

def group (additions : List Addition) (family : Family) (mode : Mode) : List Clause :=
  (additions.filter fun addition => addition.family = family ∧ addition.mode = mode).map
    (·.clause)

def groups (additions : List Addition) (family : Family) : ByMode Clause :=
  ⟨group additions family .and, group additions family .or, group additions family .not⟩

theorem group_append (first second : List Addition) (family : Family) (mode : Mode) :
    group (first ++ second) family mode = group first family mode ++ group second family mode := by
  simp [group]

theorem groups_append (first second : List Addition) (family : Family) :
    groups (first ++ second) family = (groups first family).append (groups second family) := by
  simp [groups, group_append, ByMode.append]

/-- The groups hold the clauses that were added to them. -/
theorem mem_groups_iff {additions : List Addition} {family : Family} {mode : Mode}
    {clause : Clause} :
    clause ∈ (groups additions family).get mode ↔ ⟨family, mode, clause⟩ ∈ additions := by
  have hgroup : (groups additions family).get mode = group additions family mode := by
    cases mode <;> rfl
  simp only [hgroup, group, List.mem_map, List.mem_filter, decide_eq_true_eq]
  constructor
  · rintro ⟨⟨_, _, _⟩, ⟨hmem, rfl, rfl⟩, rfl⟩
    exact hmem
  · intro hmem
    exact ⟨⟨family, mode, clause⟩, ⟨hmem, rfl, rfl⟩, rfl⟩

/-- A single clause goes to the end of its own group. -/
theorem append_groups_single (addition : Addition) (clauses : ByMode Clause) :
    clauses.append (groups [addition] addition.family) =
      clauses.push addition.mode addition.clause := by
  obtain ⟨family, mode, clause⟩ := addition
  cases mode <;> simp [groups, group, ByMode.append, ByMode.push]

theorem groups_single_of_ne {addition : Addition} {family : Family}
    (h : addition.family ≠ family) : groups [addition] family = {} := by
  simp [groups, group, h]

end Addition

namespace Draft

def addAll (draft : Draft) (additions : List Addition) : Draft :=
  additions.foldl (fun draft addition => draft.add addition.family addition.mode addition.clause)
    draft

theorem addAll_eq (draft : Draft) (additions : List Addition) :
    draft.addAll additions =
      { draft with
        filters := draft.filters.append (Addition.groups additions .filter)
        queries := draft.queries.append (Addition.groups additions .query) } := by
  induction additions generalizing draft with
  | nil =>
    have hnone : ∀ family, Addition.groups [] family = {} := fun _ => rfl
    rw [hnone, hnone, ByMode.append_empty, ByMode.append_empty]
    cases draft
    rfl
  | cons addition rest ih =>
    have hstep : draft.addAll (addition :: rest) =
        (draft.add addition.family addition.mode addition.clause).addAll rest := rfl
    have hgroups : ∀ family, Addition.groups (addition :: rest) family =
        (Addition.groups [addition] family).append (Addition.groups rest family) :=
      fun family => Addition.groups_append [addition] rest family
    rw [hstep, ih, hgroups, hgroups, ← ByMode.append_assoc, ← ByMode.append_assoc]
    cases hfamily : addition.family with
    | filter =>
      have hother : Addition.groups [addition] .query = {} :=
        Addition.groups_single_of_ne (by simp [hfamily])
      rw [hother, ByMode.append_empty, ← hfamily, Addition.append_groups_single, hfamily]
      rfl
    | query =>
      have hother : Addition.groups [addition] .filter = {} :=
        Addition.groups_single_of_ne (by simp [hfamily])
      rw [hother, ByMode.append_empty, ← hfamily, Addition.append_groups_single, hfamily]
      rfl

theorem addAll_addAll (draft : Draft) (first second : List Addition) :
    (draft.addAll first).addAll second = draft.addAll (first ++ second) :=
  List.foldl_append.symm

@[simp] theorem base_addAll (draft : Draft) (additions : List Addition) :
    (draft.addAll additions).base = draft.base := by
  rw [addAll_eq]

@[simp] theorem placement_addAll (draft : Draft) (additions : List Addition) :
    (draft.addAll additions).placement = draft.placement := by
  rw [addAll_eq]

@[simp] theorem rawOptions_addAll (draft : Draft) (additions : List Addition) :
    (draft.addAll additions).rawOptions = draft.rawOptions := by
  rw [addAll_eq]

theorem clauses_addAll (draft : Draft) (additions : List Addition) (family : Family) :
    (draft.addAll additions).clauses family =
      (draft.clauses family).append (Addition.groups additions family) := by
  rw [addAll_eq]
  cases family <;> rfl

end Draft

end SearchQuery
