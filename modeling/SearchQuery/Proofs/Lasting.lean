import SearchQuery.Proofs.Additions
import SearchQuery.Proofs.Failure
import SearchQuery.Proofs.Parts

/-!
Faults that last. Clauses that are added to a draft leave its base, its raw options and the
drafts below it as they are, and filters that get a bool clause of their own still get one
with more clauses. So each fault in the tree of a draft stays there in some form, and a draft
that fails to be rendered fails after any additions as well.
-/
namespace SearchQuery

namespace ByMode

variable {α : Type}

theorem mem_toList_append {groups : ByMode α} {a : α} (h : a ∈ groups.toList)
    (more : ByMode α) : a ∈ (groups.append more).toList := by
  obtain ⟨mode, hmode⟩ := mem_toList_iff.1 h
  refine mem_toList_iff.2 ⟨mode, ?_⟩
  rw [get_append]
  exact List.mem_append_left _ hmode

theorem toList_append_ne_nil {groups : ByMode α} (h : groups.toList ≠ []) (more : ByMode α) :
    (groups.append more).toList ≠ [] := by
  obtain ⟨a, ha⟩ := List.exists_mem_of_ne_nil _ h
  exact List.ne_nil_of_mem (mem_toList_append ha more)

/-- A single required thing, where there was something before the last additions, was all
there was before. -/
theorem onlyOneAnd_of_append {groups more : ByMode α} (hsome : groups.toList ≠ [])
    (h : (groups.append more).onlyOneAnd = true) : groups.onlyOneAnd = true := by
  obtain ⟨and, or, not⟩ := groups
  simp only [onlyOneAnd, append, Bool.and_eq_true, beq_iff_eq, List.isEmpty_iff,
    List.append_eq_nil_iff, List.length_append] at h ⊢
  obtain ⟨⟨hone, hor, -⟩, hnot, -⟩ := h
  have hand : and.length ≠ 0 := by
    intro hnil
    rw [List.length_eq_zero_iff] at hnil
    exact hsome (by simp [toList, hnil, hor, hnot])
  exact ⟨⟨by omega, hor⟩, hnot⟩

end ByMode

namespace Draft

variable {draft : Draft} (additions : List Addition)

theorem has_addAll {family : Family} (h : draft.has family none = true) :
    (draft.addAll additions).has family none = true := by
  rw [← Bool.not_eq_false, has_none_eq_false] at h ⊢
  rw [clauses_addAll]
  exact ByMode.toList_append_ne_nil h _

/-- Filters that are not written the simple way are not so with more clauses either. -/
theorem simpleFilter_addAll (hfilters : draft.has .filter none = true)
    (h : draft.simpleFilter = false) : (draft.addAll additions).simpleFilter = false := by
  have hgroups : (draft.addAll additions).filters =
      draft.filters.append (Addition.groups additions .filter) :=
    clauses_addAll draft additions .filter
  have hsome : draft.filters.toList ≠ [] := by
    rw [← Bool.not_eq_false, has_none_eq_false] at hfilters
    exact hfilters
  rw [← Bool.not_eq_true] at h ⊢
  refine mt (fun hsimple => ?_) h
  simp only [simpleFilter, Bool.or_eq_true, Bool.and_eq_true, List.isEmpty_iff,
    Bool.not_eq_true'] at hsimple ⊢
  rcases hsimple with hone | ⟨⟨hor, hqueries⟩, hnested⟩
  · rw [hgroups] at hone
    exact .inl (ByMode.onlyOneAnd_of_append hsome hone)
  · rw [hgroups] at hor hnested
    refine .inr ⟨⟨(List.append_eq_nil_iff.1 hor).1, ?_⟩, ?_⟩
    · rw [Bool.eq_false_iff] at hqueries ⊢
      exact mt (has_addAll additions) hqueries
    · rw [anyNested, List.any_eq_false] at hnested ⊢
      exact fun clause hclause => hnested clause (ByMode.mem_toList_append hclause _)

theorem exists_firstQuery?_addAll {clause : Clause} (h : draft.firstQuery? = some clause) :
    ∃ first, (draft.addAll additions).firstQuery? = some first := by
  have hsome : draft.queries.toList ≠ [] := List.ne_nil_of_mem (List.mem_of_head? h)
  have hgroups := clauses_addAll draft additions .query
  refine exists_firstQuery? ?_
  change ((draft.addAll additions).clauses .query).toList ≠ []
  rw [hgroups]
  exact ByMode.toList_append_ne_nil hsome _

/-- A fault of a draft stays. Only the query that stands first below a filter may be another
one. -/
theorem FailsWith.addAll {e : DraftError} (h : draft.FailsWith e) :
    ∃ later, (draft.addAll additions).FailsWith later := by
  cases h with
  | queryBelowFilter clause hplace hfirst =>
    obtain ⟨first, hlater⟩ := exists_firstQuery?_addAll additions hfirst
    exact ⟨_, .queryBelowFilter first (by simpa using hplace) hlater⟩
  | baseQuery value hquery hvalue =>
    exact ⟨_, .baseQuery value (by simpa using hquery) hvalue⟩
  | baseBool query value hplace hclauses hquery hbool hvalue =>
    obtain ⟨family, hfamily⟩ := hclauses
    exact ⟨_, .baseBool query value (by simpa using hplace) ⟨family, has_addAll additions hfamily⟩
      (by simpa using hquery) hbool hvalue⟩
  | baseFilter query body value hplace hfilters hsimple hquery hbool hfilter hobject harray =>
    exact ⟨_, .baseFilter query body value (by simpa using hplace)
      (has_addAll additions hfilters) (simpleFilter_addAll additions hfilters hsimple)
      (by simpa using hquery) hbool hfilter hobject harray⟩
  | baseFilterBool query body outer value hplace hfilters hsimple hquery hbool hfilter hinner
      hvalue =>
    exact ⟨_, .baseFilterBool query body outer value (by simpa using hplace)
      (has_addAll additions hfilters) (simpleFilter_addAll additions hfilters hsimple)
      (by simpa using hquery) hbool hfilter hinner hvalue⟩
  | rawQuery value hplace hraw hvalue =>
    exact ⟨_, .rawQuery value (by simpa using hplace) (by simpa using hraw) hvalue⟩

/-- A draft that fails to be rendered still fails with more clauses. -/
theorem fails_addAll {e : DraftError} (h : draft.render = .error e) :
    ∃ later, (draft.addAll additions).render = .error later := by
  obtain ⟨node, hnode, hfault⟩ := exists_fault h
  cases hnode with
  | self =>
    obtain ⟨later, hlater⟩ := hfault.addAll additions
    exact fails_of_fault (.self _) hlater
  | @owned _ child _ family mode clause hclause hchild hnode =>
    have hkept : clause ∈ ((draft.addAll additions).clauses family).get mode := by
      rw [clauses_addAll, ByMode.get_append]
      exact List.mem_append_left _ hclause
    exact fails_of_fault (.owned hkept hchild hnode) hfault

end Draft

namespace Step

def isAddition : Step → Bool
  | .add _ _ _ => true
  | .addNested _ _ _ _ => true
  | _ => false

/-- An addition leaves a draft with one clause more, or as it is if the steps inside fail. -/
theorem perform_addition {step : Step} (h : step.isAddition = true) (draft : Draft) :
    ∃ additions, perform draft step = draft.addAll additions := by
  cases step with
  | add family mode clause => exact ⟨[⟨family, mode, clause⟩], rfl⟩
  | addNested family mode clause inner =>
    cases hinner : run (Draft.fresh (.below family)) inner with
    | error e => exact ⟨[], perform_of_rejected (rejected_addNested hinner) draft⟩
    | ok child => exact ⟨[⟨family, mode, clause.owning child⟩], perform_addNested hinner draft⟩
  | _ => simp [isAddition] at h

theorem performAll_additions {steps : List Step} (h : ∀ step ∈ steps, step.isAddition = true)
    (draft : Draft) : ∃ additions, performAll draft steps = draft.addAll additions := by
  induction steps generalizing draft with
  | nil => exact ⟨[], rfl⟩
  | cons step rest ih =>
    obtain ⟨first, hfirst⟩ := perform_addition (h step List.mem_cons_self) draft
    obtain ⟨more, hmore⟩ := ih (fun other hother => h other (List.mem_cons_of_mem _ hother))
      (draft.addAll first)
    exact ⟨first ++ more, by rw [performAll_cons, hfirst, hmore, Draft.addAll_addAll]⟩

/-- A draft that fails to be rendered fails after every sequence of additions as well,
whatever is added and whatever the clauses own. -/
theorem fails_of_additions {draft : Draft} {e : DraftError} (hfails : draft.render = .error e)
    {steps : List Step} (hsteps : ∀ step ∈ steps, step.isAddition = true) :
    ∃ later, (performAll draft steps).render = .error later := by
  obtain ⟨additions, hadditions⟩ := performAll_additions hsteps draft
  rw [hadditions]
  exact Draft.fails_addAll additions hfails

def onNumber : Draft :=
  { base := Keyed.single "query" (.object (Keyed.single "bool" (.object
      (Keyed.single "filter" (.int 1)))))
    filters := ⟨[], [{ kind := "exists" }], []⟩ }

def morePieces : List Step :=
  [.add .query .and { kind := "match_all" },
    .addNested .filter .and { kind := "nested" } [.add .filter .or { kind := "exists" }],
    .addNested .filter .not { kind := "nested" } [.sortText "day" "sideways"]]

theorem fails_of_additions_onNumber :
    onNumber.render = .error (.structuralConflict "query.bool.filter") ∧
      (∀ step ∈ morePieces, step.isAddition = true) ∧
      ∃ later, (performAll onNumber morePieces).render = .error later := by
  have hfails : onNumber.render = .error (.structuralConflict "query.bool.filter") := rfl
  have hsteps : ∀ step ∈ morePieces, step.isAddition = true := by
    simp [morePieces, isAddition]
  exact ⟨hfails, hsteps, fails_of_additions hfails hsteps⟩

end Step

end SearchQuery
