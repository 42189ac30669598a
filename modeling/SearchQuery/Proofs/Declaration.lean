import SearchQuery.Proofs.Contexts
import SearchQuery.Proofs.Drafting
import SearchQuery.Spec.OfDraft

/-!
Drafts as specs. The spec of a draft declares that draft again, at every depth, if the
draft says nothing that a spec cannot say: sort fields are distinct, no clause has a field
with the value null, options have distinct keys, and owned drafts sit where their family
places them. Steps keep all of this where they add clauses that are made by changes.
-/
namespace SearchQuery

namespace Addition

def ofGroups (family : Family) (clauses : ByMode Clause) : List Addition :=
  clauses.and.map (⟨family, .and, ·⟩) ++ clauses.or.map (⟨family, .or, ·⟩) ++
    clauses.not.map (⟨family, .not, ·⟩)

theorem group_map (family other : Family) (mode place : Mode) (clauses : List Clause) :
    group (clauses.map (⟨family, mode, ·⟩)) other place =
      if other = family ∧ place = mode then clauses else [] := by
  unfold group
  split
  · next h =>
    obtain ⟨rfl, rfl⟩ := h
    rw [List.filter_eq_self.2 (by simp), List.map_map]
    exact List.map_id clauses
  · next h =>
    rw [List.filter_eq_nil_iff.2, List.map_nil]
    intro addition hmem
    obtain ⟨clause, -, rfl⟩ := List.mem_map.1 hmem
    simpa only [decide_eq_true_eq] using fun hboth => h ⟨hboth.1.symm, hboth.2.symm⟩

theorem groups_ofGroups (family other : Family) (clauses : ByMode Clause) :
    groups (ofGroups family clauses) other = if other = family then clauses else {} := by
  have hgroup : ∀ mode, group (ofGroups family clauses) other mode =
      if other = family then clauses.get mode else [] := by
    intro mode
    simp only [ofGroups, group_append, group_map]
    by_cases h : other = family <;> cases mode <;> simp [h, ByMode.get]
  simp only [groups, hgroup]
  by_cases h : other = family <;> simp [h, ByMode.get]

end Addition

namespace Clause

/-- Whether a clause is one that changes to a bare clause can make, apart from what it
owns: there is no field with the value null, and options have distinct keys. -/
def isMade (clause : Clause) : Bool :=
  (match clause.payload with
    | .fieldValue _ .null => false
    | _ => true) && decide clause.options.keys.Nodup

theorem isMade_edit {clause : Clause} (h : clause.isMade = true) (change : Edit) :
    (clause.edit change).isMade = true := by
  obtain ⟨hpayload, hoptions⟩ := (Bool.and_eq_true ..).mp h
  have hkeys := of_decide_eq_true hoptions
  cases change with
  | field name => exact hoptions
  | fieldValue name value => cases value <;> exact hoptions
  | body object => exact hoptions
  | option key value =>
    exact (Bool.and_eq_true ..).mpr
      ⟨hpayload, decide_eq_true (Keyed.nodup_keys_insert hkeys key value)⟩
  | options object =>
    exact (Bool.and_eq_true ..).mpr
      ⟨hpayload, decide_eq_true (Keyed.nodup_keys_extend hkeys object)⟩

theorem isMade_edited (kind : String) (edits : List Edit) : (edited kind edits).isMade = true := by
  have hfold : ∀ start : Clause, start.isMade = true →
      (edits.foldl edit start).isMade = true := by
    induction edits with
    | nil => exact fun _ h => h
    | cons change rest ih => exact fun start h => ih _ (isMade_edit h change)
  exact hfold _ rfl

theorem nested_edited (kind : String) (edits : List Edit) : (edited kind edits).nested = none := by
  have hfold : ∀ start : Clause, (edits.foldl edit start).nested = start.nested := by
    induction edits with
    | nil => exact fun _ => rfl
    | cons change rest ih =>
      intro start
      have hedit : (start.edit change).nested = start.nested := by
        cases change with
        | fieldValue name value => cases value <;> rfl
        | _ => rfl
      rw [List.foldl_cons, ih, hedit]
  exact hfold _

theorem settled_options {clause : Clause} (h : clause.isMade = true) :
    Keyed.settled clause.options = clause.options :=
  Keyed.settled_of_nodup (of_decide_eq_true ((Bool.and_eq_true ..).mp h).2)

end Clause

theorem declared_eq_map (family : Family) (mode : Mode) (clauses : List Clause) :
    declared family mode clauses = clauses.map (declaration family mode) := by
  induction clauses with
  | nil => rfl
  | cons clause rest ih => simp [declared, ih]

namespace ClauseSpec

theorem addition_declaration {family : Family} {mode : Mode} {clause : Clause}
    (hmade : clause.isMade = true)
    (hchild : ∀ child, clause.nested = some child →
      (Spec.ofDraft child).declared (.below family) = child) :
    (declaration family mode clause).addition = ⟨family, mode, clause⟩ := by
  have hoptions := Clause.settled_options hmade
  obtain ⟨kind, payload, options, nested⟩ := clause
  have hnested : declaredChild family (owned nested) = nested := by
    cases nested with
    | none => rfl
    | some child => exact congrArg some (hchild child rfl)
  have hpayload := (Bool.and_eq_true ..).mp hmade |>.1
  cases payload with
  | fieldValue name value =>
    cases value with
    | null => simp at hpayload
    | _ => simp [declaration, ofClause, addition, ClauseSpec.payload, hoptions, hnested]
  | _ => simp [declaration, ofClause, addition, ClauseSpec.payload, hoptions, hnested]

theorem faults_declaration (family : Family) (mode : Mode) (clause : Clause) :
    (declaration family mode clause).faults =
      clause.nested.elim [] fun child => (Spec.ofDraft child).faults := by
  obtain ⟨kind, payload, options, nested⟩ := clause
  cases payload <;> cases nested <;> rfl

end ClauseSpec

namespace SortSpec

theorem declared_ofField (field : String × Direction) : (ofField field).declared = field := by
  simp [declared, directionText, ofField, Direction.named?_name]

theorem faults_ofField (field : String × Direction) : (ofField field).faults = [] := by
  simp [faults, directionText, ofField, Direction.named?_name]

end SortSpec

namespace Draft

/-- A draft that says by itself nothing that a spec cannot say. -/
structure Declarable (draft : Draft) : Prop where
  owns : draft.OwnsPlaced
  sort : (Keyed.keys draft.sort).Nodup
  made : ∀ family mode, ∀ clause ∈ (draft.clauses family).get mode, clause.isMade = true

theorem declarable_fresh (placement : Placement) : (Draft.fresh placement).Declarable where
  owns := ownsPlaced_fresh placement
  sort := List.nodup_nil
  made := by
    intro family mode clause hclause
    simp [get_clauses_empty] at hclause

end Draft

/-- The declarations of a family are faultless and declare the clauses of the family, if this
is true of what the clauses own. -/
theorem additions_declarations {family : Family} {clauses : ByMode Clause}
    (hmade : ∀ mode, ∀ clause ∈ clauses.get mode, clause.isMade = true)
    (hchild : ∀ mode, ∀ clause ∈ clauses.get mode, ∀ child, clause.nested = some child →
      (Spec.ofDraft child).declared (.below family) = child) :
    additions (declarations family clauses) = Addition.ofGroups family clauses := by
  have hgroup : ∀ mode, additions (declared family mode (clauses.get mode)) =
      (clauses.get mode).map (⟨family, mode, ·⟩) := by
    intro mode
    rw [additions_eq_map, declared_eq_map, List.map_map]
    apply List.map_congr_left
    intro clause hclause
    exact ClauseSpec.addition_declaration (hmade mode clause hclause) (hchild mode clause hclause)
  have hand := hgroup .and
  have hor := hgroup .or
  have hnot := hgroup .not
  obtain ⟨and, or, not⟩ := clauses
  simp only [additions_eq_map, ByMode.get] at hand hor hnot
  simp only [declarations, additions_eq_map, List.map_append, hand, hor, hnot,
    Addition.ofGroups]

theorem clausesFaults_declarations {family : Family} {clauses : ByMode Clause}
    (hchild : ∀ mode, ∀ clause ∈ clauses.get mode, ∀ child, clause.nested = some child →
      (Spec.ofDraft child).faults = []) :
    clausesFaults (declarations family clauses) = [] := by
  have hgroup : ∀ mode, clausesFaults (declared family mode (clauses.get mode)) = [] := by
    intro mode
    rw [clausesFaults_eq_flatMap, declared_eq_map, List.flatMap_map, List.flatMap_eq_nil_iff]
    intro clause hclause
    rw [ClauseSpec.faults_declaration]
    cases hnested : clause.nested with
    | none => rfl
    | some child => exact hchild mode clause hclause child hnested
  have hand := hgroup .and
  have hor := hgroup .or
  have hnot := hgroup .not
  obtain ⟨and, or, not⟩ := clauses
  simp only [clausesFaults_eq_flatMap, ByMode.get] at hand hor hnot
  simp only [declarations, clausesFaults_eq_flatMap, List.flatMap_append, hand, hor, hnot,
    List.append_nil]

namespace Draft

/-- The spec of a draft has no fault and declares the draft, if no node of its tree says
anything that a spec cannot say. -/
theorem declared_ofDraft {draft : Draft}
    (h : ∀ node, draft.Holds node → node.Declarable) :
    (Spec.ofDraft draft).faults = [] ∧
      (Spec.ofDraft draft).declared draft.placement = draft := by
  induction draft using tree_induction with
  | step draft ih =>
    have hself := h draft (.self draft)
    have hchild : ∀ family mode, ∀ clause ∈ (draft.clauses family).get mode, ∀ child,
        clause.nested = some child → (Spec.ofDraft child).faults = [] ∧
          (Spec.ofDraft child).declared (.below family) = child := by
      intro family mode clause hclause child hnested
      have hplace := hself.owns family mode clause hclause child hnested
      rw [← hplace]
      exact ih family mode clause child hclause hnested fun node hnode =>
        h node (.owned hclause hnested hnode)
    have hadditions : ∀ family, additions (declarations family (draft.clauses family)) =
        Addition.ofGroups family (draft.clauses family) := by
      intro family
      exact additions_declarations (hself.made family) fun mode clause hclause child hnested =>
        (hchild family mode clause hclause child hnested).2
    have hfaults : ∀ family, clausesFaults (declarations family (draft.clauses family)) = [] := by
      intro family
      exact clausesFaults_declarations fun mode clause hclause child hnested =>
        (hchild family mode clause hclause child hnested).1
    have hsort : Keyed.settled (draft.sort.map (SortSpec.declared ∘ SortSpec.ofField)) =
        draft.sort := by
      have hfields : SortSpec.declared ∘ SortSpec.ofField = id :=
        funext SortSpec.declared_ofField
      rw [hfields, List.map_id, Keyed.settled_of_nodup hself.sort]
    have hfilters := hadditions .filter
    have hqueries := hadditions .query
    have hfilterFaults := hfaults .filter
    have hqueryFaults := hfaults .query
    obtain ⟨base, placement, filters, queries, rawOptions, sort, size, offset, filterThreshold,
      queryThreshold⟩ := draft
    simp only [clauses, additions_eq_map] at hfilters hqueries
    simp only [clauses, clausesFaults_eq_flatMap] at hfilterFaults hqueryFaults
    constructor
    · simp [Spec.ofDraft, Spec.faults, clausesFaults_eq_flatMap, hfilterFaults, hqueryFaults,
        List.flatMap_map, SortSpec.faults_ofField]
    · simp [Spec.ofDraft, Spec.declared, additions_eq_map, hfilters, hqueries,
        Addition.groups_append, Addition.groups_ofGroups, ByMode.append_empty,
        ByMode.empty_append, hsort]

theorem sort_nodup_of_apply {draft result : Draft} {step : Step}
    (hdraft : (Keyed.keys draft.sort).Nodup) (h : Step.apply draft step = .ok result) :
    (Keyed.keys result.sort).Nodup := by
  cases step with
  | add family mode clause =>
    obtain rfl := Except.ok.inj h
    cases family <;> exact hdraft
  | addNested family mode clause inner =>
    obtain ⟨child, -, rfl⟩ := Step.apply_addNested_ok h
    cases family <;> exact hdraft
  | sortText field text =>
    obtain ⟨direction, -, rfl⟩ := Step.apply_sortText_ok h
    exact Keyed.nodup_keys_insert hdraft field direction
  | sortBy field direction =>
    obtain rfl := Except.ok.inj h
    exact Keyed.nodup_keys_insert hdraft field direction
  | threshold family count =>
    obtain rfl := Except.ok.inj h
    cases family <;> exact hdraft
  | resetClauses family =>
    obtain rfl := Except.ok.inj h
    cases family <;> exact hdraft
  | reset =>
    obtain rfl := Except.ok.inj h
    exact List.nodup_nil
  | resetSort =>
    obtain rfl := Except.ok.inj h
    exact List.nodup_nil
  | _ =>
    obtain rfl := Except.ok.inj h
    exact hdraft

end Draft

namespace Step

def clause? : Step → Option Clause
  | .add _ _ clause => some clause
  | .addNested _ _ clause _ => some clause
  | _ => none

def addsMade (step : Step) : Bool := step.clause?.all Clause.isMade

end Step

namespace Draft

theorem declarable_of_apply {draft result : Draft} {step : Step}
    (hbrings : step.BringsPlaced) (hmade : step.addsMade = true)
    (hdraft : draft.Declarable) (h : Step.apply draft step = .ok result) :
    result.Declarable where
  owns := ownsPlaced_of_apply hbrings hdraft.owns h
  sort := sort_nodup_of_apply hdraft.sort h
  made := by
    intro family mode clause hclause
    rcases (Step.apply_ok h).clauses family mode clause hclause with
      hold | rfl | ⟨owner, inner, child, rfl, -, rfl⟩
    · exact hdraft.made family mode clause hold
    · exact hmade
    · exact hmade

end Draft

namespace Step

theorem bringsPlaced_of_edited {step : Step}
    (h : ∀ clause, step.clause? = some clause → ∃ kind edits, clause = Clause.edited kind edits) :
    step.BringsPlaced := by
  cases step with
  | add family mode clause =>
    obtain ⟨kind, edits, rfl⟩ := h clause rfl
    intro child hchild
    simp [Clause.nested_edited] at hchild
  | _ => trivial

theorem addsMade_of_edited {step : Step}
    (h : ∀ clause, step.clause? = some clause → ∃ kind edits, clause = Clause.edited kind edits) :
    step.addsMade = true := by
  unfold addsMade
  cases hclause : step.clause? with
  | none => rfl
  | some clause =>
    obtain ⟨kind, edits, rfl⟩ := h clause hclause
    exact Clause.isMade_edited kind edits

/-- The draft that a run leaves is drafted again from its own spec, if the clauses that are
added at any depth are made by changes to bare ones. -/
theorem draft_ofDraft_of_run {steps : List Step} {draft : Draft}
    (hrun : run (Draft.fresh .root) steps = .ok draft)
    (hmade : ∀ step : Step, step.Inside steps → ∀ clause, step.clause? = some clause →
      ∃ kind edits, clause = Clause.edited kind edits) :
    (Spec.ofDraft draft).draft = .ok draft := by
  have hnodes : ∀ node, draft.Holds node → node.Declarable := by
    refine holds_of_run_fresh Draft.declarable_fresh ?_ ?_ hmade hrun
    · intro family mode clause child hadd hchild
      obtain ⟨kind, edits, rfl⟩ := hadd clause rfl
      simp [Clause.nested_edited] at hchild
    · intro before step after hedited hbefore happly
      exact Draft.declarable_of_apply (bringsPlaced_of_edited hedited)
        (addsMade_of_edited hedited) hbefore happly
  have hroot : draft.placement = .root := run_placement hrun
  obtain ⟨hfaults, hdeclared⟩ := Draft.declared_ofDraft hnodes
  have hdraft : (Spec.ofDraft draft).draft =
      unlessFaulty (Spec.ofDraft draft).faults ((Spec.ofDraft draft).declared .root) :=
    Spec.addTo_fresh .root _
  rw [hdraft, hfaults, ← hroot, hdeclared]
  rfl

def sortedAlternative : List Step :=
  [.sortBy "a" .desc,
    .addNested .query .or (Clause.edited "nested" [.option "path" (.string "b")])
      [.add .filter .not (Clause.edited "exists" [.fieldValue "c" .null])],
    .sortBy "a" .asc]

theorem draft_ofDraft_of_run_sortedAlternative :
    ∃ draft, run (Draft.fresh .root) sortedAlternative = .ok draft ∧
      (Spec.ofDraft draft).draft = .ok draft := by
  obtain ⟨draft, hrun⟩ : ∃ draft, run (Draft.fresh .root) sortedAlternative = .ok draft :=
    ⟨_, rfl⟩
  refine ⟨draft, hrun, draft_ofDraft_of_run hrun ?_⟩
  intro step hstep clause hclause
  cases hstep with
  | here hmem =>
    simp only [sortedAlternative, List.mem_cons, List.not_mem_nil, or_false] at hmem
    rcases hmem with rfl | rfl | rfl
    · simp [clause?] at hclause
    · exact ⟨_, _, (Option.some.inj hclause).symm⟩
    · simp [clause?] at hclause
  | inner hmem hinner =>
    simp only [sortedAlternative, List.mem_cons, List.not_mem_nil, or_false, false_or, reduceCtorEq,
      addNested.injEq] at hmem
    obtain ⟨rfl, rfl, rfl, rfl⟩ := hmem
    cases hinner with
    | here hmem =>
      obtain rfl := List.mem_singleton.1 hmem
      exact ⟨_, _, (Option.some.inj hclause).symm⟩
    | inner hmem => simp at hmem

end Step

end SearchQuery
