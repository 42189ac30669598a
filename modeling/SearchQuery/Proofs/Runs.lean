import SearchQuery.Draft.Step
import SearchQuery.Proofs.Tree

/-!
What a whole run of steps leaves. A step keeps the place of a draft and adds at most one
clause. The draft that the clause owns starts fresh at the place of its family, or the clause
brings it along. So a property of single drafts that every step keeps, and that the drafts
have which are brought along, is true of every node in the tree that a run leaves.
-/
namespace SearchQuery

namespace Draft

/-- A clause that is added comes last in its own group, and the others stay as they are. -/
theorem get_clauses_add (draft : Draft) (family other : Family) (mode place : Mode)
    (added : Clause) :
    ((draft.add family mode added).clauses other).get place =
      if other = family ∧ place = mode then (draft.clauses other).get place ++ [added]
      else (draft.clauses other).get place := by
  by_cases hfamily : other = family
  · subst hfamily
    have hpush : (draft.add other mode added).clauses other =
        (draft.clauses other).push mode added := by
      cases other <;> rfl
    simp [hpush, ByMode.get_push]
  · have hkept : (draft.add family mode added).clauses other = draft.clauses other := by
      cases family <;> cases other <;> first | rfl | exact absurd rfl hfamily
    simp [hkept, hfamily]

theorem get_clauses_resetClauses (draft : Draft) (family other : Family) (mode : Mode) :
    ((draft.resetClauses family).clauses other).get mode =
      if other = family then [] else (draft.clauses other).get mode := by
  cases family <;> cases other <;> cases mode <;> rfl

theorem mem_clauses_add {draft : Draft} {family other : Family} {mode place : Mode}
    {clause added : Clause}
    (h : clause ∈ ((draft.add family mode added).clauses other).get place) :
    clause ∈ (draft.clauses other).get place ∨
      other = family ∧ place = mode ∧ clause = added := by
  rw [get_clauses_add] at h
  split at h
  · next hgroup =>
    rcases List.mem_append.1 h with hold | hnew
    · exact .inl hold
    · exact .inr ⟨hgroup.1, hgroup.2, List.mem_singleton.1 hnew⟩
  · exact .inl h

theorem get_clauses_empty (placement : Placement) (family : Family) (mode : Mode) :
    ((Draft.fresh placement).clauses family).get mode = [] := by
  cases family <;> cases mode <;> rfl

theorem mem_clauses_resetClauses {draft : Draft} {family other : Family} {mode : Mode}
    {clause : Clause} (h : clause ∈ ((draft.resetClauses family).clauses other).get mode) :
    clause ∈ (draft.clauses other).get mode := by
  rw [get_clauses_resetClauses] at h
  split at h
  · simp at h
  · exact h

/-- A node of a tree is the draft on top, or a clause of another node owns it. -/
theorem Holds.owner {draft node : Draft} (h : draft.Holds node) :
    node = draft ∨ ∃ parent, draft.Holds parent ∧ ∃ family mode,
      ∃ clause ∈ (parent.clauses family).get mode, clause.nested = some node := by
  induction h with
  | self => exact .inl rfl
  | @owned draft child node family mode clause hclause hchild hnode ih =>
    rcases ih with rfl | ⟨parent, hparent, hrest⟩
    · exact .inr ⟨draft, .self draft, family, mode, clause, hclause, hchild⟩
    · exact .inr ⟨parent, .owned hclause hchild hparent, hrest⟩

theorem Holds.eq_fresh {placement : Placement} {node : Draft}
    (h : (Draft.fresh placement).Holds node) : node = Draft.fresh placement := by
  cases h with
  | self => rfl
  | owned hclause => simp [get_clauses_empty] at hclause

theorem forall_holds_fresh {P : Draft → Prop} {placement : Placement}
    (h : P (Draft.fresh placement)) : ∀ node, (Draft.fresh placement).Holds node → P node := by
  intro node hnode
  rw [hnode.eq_fresh]
  exact h

end Draft

namespace Step

/-- What a step that succeeds leaves of a draft. A clause of the result was there before,
or the step adds it, with the draft that the inner steps leave if there are any. -/
structure Leaves (draft : Draft) (step : Step) (result : Draft) : Prop where
  placement : result.placement = draft.placement
  base : result.base = draft.base ∨ step = .base result.base
  rawOptions : result.rawOptions = draft.rawOptions ∨ result.rawOptions = [] ∨
    ∃ key value, step = .rawOption key value
  clauses : ∀ family mode, ∀ clause ∈ (result.clauses family).get mode,
    clause ∈ (draft.clauses family).get mode ∨ step = .add family mode clause ∨
      ∃ owner inner child, step = .addNested family mode owner inner ∧
        run (Draft.fresh (.below family)) inner = .ok child ∧ clause = owner.owning child

theorem leaves_of_add {draft : Draft} {step : Step} {family : Family} {mode : Mode}
    {added : Clause}
    (hadded : step = .add family mode added ∨
      ∃ owner inner child, step = .addNested family mode owner inner ∧
        run (Draft.fresh (.below family)) inner = .ok child ∧ added = owner.owning child) :
    Leaves draft step (draft.add family mode added) where
  placement := by cases family <;> rfl
  base := by
    apply Or.inl
    cases family <;> rfl
  rawOptions := by
    apply Or.inl
    cases family <;> rfl
  clauses := by
    intro other place clause hclause
    rcases Draft.mem_clauses_add hclause with hold | ⟨rfl, rfl, rfl⟩
    · exact .inl hold
    · exact .inr hadded

theorem apply_addNested_ok {draft result : Draft} {family : Family} {mode : Mode}
    {owner : Clause} {inner : List Step}
    (h : apply draft (.addNested family mode owner inner) = .ok result) :
    ∃ child, run (Draft.fresh (.below family)) inner = .ok child ∧
      result = draft.add family mode (owner.owning child) := by
  cases hchild : run (Draft.fresh (.below family)) inner with
  | error e => simp [apply, hchild, bind, Except.bind] at h
  | ok child =>
    simp only [apply, hchild, bind, Except.bind, Except.ok.injEq] at h
    exact ⟨child, rfl, h.symm⟩

theorem apply_sortText_ok {draft result : Draft} {field text : String}
    (h : apply draft (.sortText field text) = .ok result) :
    ∃ direction, Direction.parse text = .ok direction ∧
      result = draft.sortBy field direction := by
  cases htext : Direction.parse text with
  | error e => simp [apply, htext, bind, Except.bind] at h
  | ok direction =>
    simp only [apply, htext, bind, Except.bind, Except.ok.injEq] at h
    exact ⟨direction, rfl, h.symm⟩

theorem apply_ok {draft result : Draft} {step : Step} (h : apply draft step = .ok result) :
    Leaves draft step result := by
  -- A step that changes neither clauses nor what is written at the root.
  have hsame : ∀ {changed : Draft}, changed.placement = draft.placement →
      changed.base = draft.base → changed.rawOptions = draft.rawOptions →
      changed.filters = draft.filters → changed.queries = draft.queries →
      Leaves draft step changed := by
    intro changed hplace hbase hraw hfilters hqueries
    refine ⟨hplace, .inl hbase, .inl hraw, fun family mode clause hclause => .inl ?_⟩
    cases family
    · rwa [Draft.clauses, hfilters] at hclause
    · rwa [Draft.clauses, hqueries] at hclause
  cases step with
  | add family mode clause =>
    obtain rfl := Except.ok.inj h
    exact leaves_of_add (.inl rfl)
  | addNested family mode clause inner =>
    obtain ⟨child, hchild, rfl⟩ := apply_addNested_ok h
    exact leaves_of_add (.inr ⟨clause, inner, child, rfl, hchild, rfl⟩)
  | base object =>
    obtain rfl := Except.ok.inj h
    exact ⟨rfl, .inr rfl, .inl rfl, fun _ _ _ => .inl⟩
  | rawOption key value =>
    obtain rfl := Except.ok.inj h
    exact ⟨rfl, .inl rfl, .inr (.inr ⟨key, value, rfl⟩), fun _ _ _ => .inl⟩
  | sortText field text =>
    obtain ⟨direction, -, rfl⟩ := apply_sortText_ok h
    exact hsame rfl rfl rfl rfl rfl
  | threshold family count =>
    obtain rfl := Except.ok.inj h
    cases family <;> exact hsame rfl rfl rfl rfl rfl
  | reset =>
    obtain rfl := Except.ok.inj h
    refine ⟨rfl, .inl rfl, .inr (.inl rfl), fun family mode clause hclause => ?_⟩
    have hnone := Draft.get_clauses_empty draft.placement family mode
    have hreset : (draft.reset.clauses family).get mode = [] := by
      cases family <;> exact hnone
    simp [hreset] at hclause
  | resetClauses family =>
    obtain rfl := Except.ok.inj h
    refine ⟨?_, .inl ?_, .inl ?_, fun _ _ _ hclause =>
      .inl (Draft.mem_clauses_resetClauses hclause)⟩
    all_goals cases family <;> rfl
  | resetRawOptions =>
    obtain rfl := Except.ok.inj h
    exact ⟨rfl, .inl rfl, .inr (.inl rfl), fun _ _ _ => .inl⟩
  | _ =>
    obtain rfl := Except.ok.inj h
    exact hsame rfl rfl rfl rfl rfl

theorem run_cons_ok {draft result : Draft} {step : Step} {rest : List Step}
    (h : run draft (step :: rest) = .ok result) :
    ∃ changed, apply draft step = .ok changed ∧ run changed rest = .ok result := by
  cases hstep : apply draft step with
  | error e => simp [run, hstep, bind, Except.bind] at h
  | ok changed =>
    simp only [run, hstep, bind, Except.bind] at h
    exact ⟨changed, rfl, h⟩

/-- Steps leave a draft at its place. -/
theorem run_placement {draft result : Draft} {steps : List Step}
    (h : run draft steps = .ok result) : result.placement = draft.placement := by
  induction steps generalizing draft with
  | nil =>
    obtain rfl := Except.ok.inj h
    rfl
  | cons step rest ih =>
    obtain ⟨changed, hstep, hrest⟩ := run_cons_ok h
    rw [ih hrest, (apply_ok hstep).placement]

/-- Whether a step is one of a run, or one of the steps inside its steps at any depth. -/
inductive Inside (step : Step) : List Step → Prop
  | here {steps : List Step} (hmem : step ∈ steps) : Inside step steps
  | inner {steps inner : List Step} {family : Family} {mode : Mode} {clause : Clause}
      (hmem : .addNested family mode clause inner ∈ steps) (hinner : Inside step inner) :
      Inside step steps

def innerSteps : Step → List Step
  | .addNested _ _ _ inner => inner
  | _ => []

theorem not_inside_nil {step : Step} : ¬ step.Inside [] := by
  intro h
  cases h with
  | here hmem => simp at hmem
  | inner hmem => simp at hmem

theorem inside_cons_iff {step first : Step} {rest : List Step} :
    step.Inside (first :: rest) ↔
      step = first ∨ step.Inside first.innerSteps ∨ step.Inside rest := by
  constructor
  · intro h
    cases h with
    | here hmem =>
      rcases List.mem_cons.1 hmem with hfirst | hrest
      · exact .inl hfirst
      · exact .inr (.inr (.here hrest))
    | inner hmem hinner =>
      rcases List.mem_cons.1 hmem with hfirst | hrest
      · rw [← hfirst]
        exact .inr (.inl hinner)
      · exact .inr (.inr (.inner hrest hinner))
  · rintro (rfl | hinner | hrest)
    · exact .here List.mem_cons_self
    · cases first with
      | addNested => exact .inner List.mem_cons_self hinner
      | _ => exact absurd hinner not_inside_nil
    · cases hrest with
      | here hmem => exact .here (List.mem_cons_of_mem _ hmem)
      | inner hmem hinner => exact .inner (List.mem_cons_of_mem _ hmem) hinner

section Invariant

variable {P : Draft → Prop} {Q : Step → Prop}

/-- A property of single drafts that a step keeps stays true of every node of a tree, if it
is true of the nodes that come with an added clause and of those that inner steps leave. -/
theorem holds_of_apply {draft result : Draft} {step : Step}
    (hresult : P result) (hdraft : ∀ node, draft.Holds node → P node)
    (hbrought : ∀ family mode clause child, step = .add family mode clause →
      clause.nested = some child → ∀ node, child.Holds node → P node)
    (hinner : ∀ family mode owner inner, step = .addNested family mode owner inner →
      ∀ child, run (Draft.fresh (.below family)) inner = .ok child →
        ∀ node, child.Holds node → P node)
    (h : apply draft step = .ok result) (node : Draft) (hnode : result.Holds node) :
    P node := by
  cases hnode with
  | self => exact hresult
  | @owned _ child _ family mode clause hclause hchild hnode =>
    rcases (apply_ok h).clauses family mode clause hclause with
      hold | hadd | ⟨owner, inner, left, hstep, hrun, rfl⟩
    · exact hdraft node (.owned hold hchild hnode)
    · exact hbrought family mode clause child hadd hchild node hnode
    · obtain rfl : left = child := Option.some.inj hchild
      exact hinner family mode owner inner hstep left hrun node hnode

/-- A property of single drafts that fresh ones have, that the drafts have which come with
added clauses, and that all steps of a run keep is true of every node of the tree that the run
leaves. -/
theorem holds_of_run (hfresh : ∀ placement, P (Draft.fresh placement))
    (hbrought : ∀ family mode clause child, Q (.add family mode clause) →
      clause.nested = some child → ∀ node, child.Holds node → P node)
    (hstep : ∀ draft step result, Q step → P draft → apply draft step = .ok result → P result)
    {draft result : Draft} {steps : List Step} (hdraft : ∀ node, draft.Holds node → P node)
    (hsteps : ∀ step : Step, step.Inside steps → Q step)
    (h : run draft steps = .ok result) (node : Draft) (hnode : result.Holds node) :
    P node := by
  match steps with
  | [] =>
    obtain rfl := Except.ok.inj h
    exact hdraft node hnode
  | step :: rest =>
    obtain ⟨changed, happly, hrest⟩ := run_cons_ok h
    have hfirst : Q step := hsteps step (inside_cons_iff.2 (.inl rfl))
    have hchanged : P changed := hstep draft step changed hfirst (hdraft draft (.self draft)) happly
    refine holds_of_run hfresh hbrought hstep ?_
      (fun other hother => hsteps other (inside_cons_iff.2 (.inr (.inr hother)))) hrest node hnode
    refine holds_of_apply hchanged hdraft ?_ ?_ happly
    · rintro family mode clause child rfl
      exact hbrought family mode clause child hfirst
    · intro family mode owner inner hnested child hchild
      have hsize : sizeOf inner < sizeOf step := by
        rw [hnested]
        simp only [addNested.sizeOf_spec]
        omega
      have hinner : ∀ other : Step, other.Inside inner → Q other := by
        intro other hother
        apply hsteps
        rw [hnested, inside_cons_iff]
        exact .inr (.inl hother)
      -- The inner steps are a run of their own, which starts from a fresh draft.
      exact holds_of_run hfresh hbrought hstep
        (Draft.forall_holds_fresh (hfresh (.below family))) hinner hchild
termination_by sizeOf steps

/-- The same for a run that starts from a fresh draft. -/
theorem holds_of_run_fresh (hfresh : ∀ placement, P (Draft.fresh placement))
    (hbrought : ∀ family mode clause child, Q (.add family mode clause) →
      clause.nested = some child → ∀ node, child.Holds node → P node)
    (hstep : ∀ draft step result, Q step → P draft → apply draft step = .ok result → P result)
    {placement : Placement} {result : Draft} {steps : List Step}
    (hsteps : ∀ step : Step, step.Inside steps → Q step)
    (h : run (Draft.fresh placement) steps = .ok result) :
    ∀ node, result.Holds node → P node :=
  holds_of_run hfresh hbrought hstep (Draft.forall_holds_fresh (hfresh placement)) hsteps h

end Invariant

section Kept

def takesBack : Step → Bool
  | .reset => true
  | .resetClauses _ => true
  | _ => false

/-- A step that takes nothing back keeps all clauses. -/
theorem mem_clauses_of_apply {draft result : Draft} {step : Step} {family : Family}
    {mode : Mode} {clause : Clause} (hkept : step.takesBack = false)
    (h : apply draft step = .ok result) (hclause : clause ∈ (draft.clauses family).get mode) :
    clause ∈ (result.clauses family).get mode := by
  have hadd : ∀ other place added,
      clause ∈ ((draft.add other place added).clauses family).get mode := by
    intro other place added
    rw [Draft.get_clauses_add]
    split
    · exact List.mem_append_left _ hclause
    · exact hclause
  cases step with
  | add other place added =>
    obtain rfl := Except.ok.inj h
    exact hadd other place added
  | addNested other place owner inner =>
    obtain ⟨child, -, rfl⟩ := apply_addNested_ok h
    exact hadd other place (owner.owning child)
  | sortText field text =>
    obtain ⟨direction, -, rfl⟩ := apply_sortText_ok h
    exact hclause
  | threshold other count =>
    obtain rfl := Except.ok.inj h
    cases other <;> exact hclause
  | reset => simp [takesBack] at hkept
  | resetClauses => simp [takesBack] at hkept
  | _ =>
    obtain rfl := Except.ok.inj h
    exact hclause

theorem mem_clauses_of_run {draft result : Draft} {steps : List Step} {family : Family}
    {mode : Mode} {clause : Clause} (hkept : ∀ step ∈ steps, step.takesBack = false)
    (h : run draft steps = .ok result) (hclause : clause ∈ (draft.clauses family).get mode) :
    clause ∈ (result.clauses family).get mode := by
  induction steps generalizing draft with
  | nil =>
    obtain rfl := Except.ok.inj h
    exact hclause
  | cons step rest ih =>
    obtain ⟨changed, happly, hrest⟩ := run_cons_ok h
    have hchanged := mem_clauses_of_apply (hkept step List.mem_cons_self) happly hclause
    exact ih (fun other hother => hkept other (List.mem_cons_of_mem _ hother)) hrest hchanged

/-- Each step of a run is applied to some draft. If no step takes anything back, the clauses that
are there behind the step are all in the result. -/
theorem exists_apply_of_mem {draft result : Draft} {steps : List Step} {step : Step}
    (hmem : step ∈ steps) (hkept : ∀ step ∈ steps, step.takesBack = false)
    (h : run draft steps = .ok result) :
    ∃ before after, apply before step = .ok after ∧
      ∀ family mode, ∀ clause ∈ (after.clauses family).get mode,
        clause ∈ (result.clauses family).get mode := by
  induction steps generalizing draft with
  | nil => simp at hmem
  | cons first rest ih =>
    obtain ⟨changed, happly, hrest⟩ := run_cons_ok h
    have hkeptRest : ∀ other ∈ rest, other.takesBack = false :=
      fun other hother => hkept other (List.mem_cons_of_mem _ hother)
    rcases List.mem_cons.1 hmem with rfl | hmem
    · exact ⟨draft, changed, happly, fun _ _ _ => mem_clauses_of_run hkeptRest hrest⟩
    · exact ih hmem hkeptRest hrest

/-- Where no step of a run takes clauses back, at any depth, each clause that is added stands
in some node of the tree that the run leaves. -/
theorem exists_node_of_inside {draft result : Draft} {steps : List Step} {family : Family}
    {mode : Mode} {clause : Clause} (hadd : (Step.add family mode clause).Inside steps)
    (hkept : ∀ step : Step, step.Inside steps → step.takesBack = false)
    (h : run draft steps = .ok result) :
    ∃ node, result.Holds node ∧ clause ∈ (node.clauses family).get mode := by
  -- By induction on how deep the step stands: the draft of an inner run is owned by a clause
  -- that the outer run keeps.
  induction hadd generalizing draft result with
  | here hmem =>
    obtain ⟨before, after, happly, hafter⟩ :=
      exists_apply_of_mem hmem (fun step hstep => hkept step (.here hstep)) h
    obtain rfl := Except.ok.inj happly
    refine ⟨result, .self result, hafter family mode clause ?_⟩
    simp [Draft.get_clauses_add]
  | @inner steps inner other place owner hmem hinner ih =>
    obtain ⟨before, after, happly, hafter⟩ :=
      exists_apply_of_mem hmem (fun step hstep => hkept step (.here hstep)) h
    obtain ⟨child, hchild, rfl⟩ := apply_addNested_ok happly
    obtain ⟨node, hnode, hclause⟩ :=
      ih (fun step hstep => hkept step (.inner hmem hstep)) hchild
    refine ⟨node, .owned (hafter other place (owner.owning child) ?_) rfl hnode, hclause⟩
    simp [Draft.get_clauses_add]

end Kept

end Step

end SearchQuery
