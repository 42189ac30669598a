import SearchQuery.Proofs.Failure
import SearchQuery.Proofs.Runs

/-!
The places of the drafts in a tree that a run of steps leaves. A draft that inner steps leave
sits below the family of the clause that owns it; a clause that is added with a draft of its
own keeps that draft where it was. So the owned drafts all sit below the family of their owner
if those that are brought along do, and then a query anywhere below a filter leads to a draft
that a filter owns and that holds a query itself. Without bases and raw options this is all
that can keep the run from being rendered.
-/
namespace SearchQuery

namespace Draft

/-- Whether the drafts that the clauses of a draft own sit below the family of their owner. -/
def OwnsPlaced (draft : Draft) : Prop :=
  ∀ family mode, ∀ clause ∈ (draft.clauses family).get mode, ∀ child,
    clause.nested = some child → child.placement = .below family

def QueryBelowFilter (draft : Draft) : Prop :=
  ∃ node, draft.Holds node ∧ ∃ filter ∈ node.filters.toList,
    ∃ child, filter.nested = some child ∧ ∃ below, child.Holds below ∧ below.queries.toList ≠ []

theorem ownsPlaced_fresh (placement : Placement) : (Draft.fresh placement).OwnsPlaced := by
  intro family mode clause hclause
  simp [get_clauses_empty] at hclause

/-- Whether all drafts in a tree, below its top, sit below the family of their owner. -/
def Placed (draft : Draft) : Prop := ∀ node, draft.Holds node → node.OwnsPlaced

theorem placed_fresh (placement : Placement) : (Draft.fresh placement).Placed :=
  forall_holds_fresh (ownsPlaced_fresh placement)

end Draft

namespace Step

/-- Whether a step adds no clause with a draft of its own, or one whose draft sits below the
family under which the clause is added, as do the drafts below it. -/
def BringsPlaced : Step → Prop
  | .add family _ clause =>
    ∀ child, clause.nested = some child → child.placement = .below family ∧ child.Placed
  | _ => True

/-- Whether a step sets neither a base nor a raw option, and adds no clause with a draft that
has one at any depth. -/
def IsPlain : Step → Prop
  | .base _ => False
  | .rawOption _ _ => False
  | .add _ _ clause => ∀ child, clause.nested = some child →
    ∀ node, child.Holds node → node.base = [] ∧ node.rawOptions = []
  | _ => True

end Step

namespace Draft

theorem ownsPlaced_of_apply {draft result : Draft} {step : Step} (hbrings : step.BringsPlaced)
    (hdraft : draft.OwnsPlaced) (h : Step.apply draft step = .ok result) :
    result.OwnsPlaced := by
  intro family mode clause hclause child hchild
  rcases (Step.apply_ok h).clauses family mode clause hclause with
    hold | rfl | ⟨owner, inner, left, rfl, hrun, rfl⟩
  · exact hdraft family mode clause hold child hchild
  · exact (hbrings child hchild).1
  · obtain rfl : left = child := Option.some.inj hchild
    exact Step.run_placement hrun

theorem plain_of_apply {draft result : Draft} {step : Step} (hplain : step.IsPlain)
    (hdraft : draft.base = [] ∧ draft.rawOptions = [])
    (h : Step.apply draft step = .ok result) : result.base = [] ∧ result.rawOptions = [] := by
  have hleaves := Step.apply_ok h
  constructor
  · rcases hleaves.base with hsame | hstep
    · rw [hsame, hdraft.1]
    · rw [hstep] at hplain
      exact hplain.elim
  · rcases hleaves.rawOptions with hsame | hnone | ⟨key, value, rfl⟩
    · rw [hsame, hdraft.2]
    · exact hnone
    · exact hplain.elim

/-- On the way down from a draft below a filter to a query, the first draft with a query of
its own still sits below a filter. -/
theorem Holds.exists_query_inFilter {child below : Draft} (hbelow : child.Holds below)
    (hplaced : child.Placed)
    (hplace : child.placement = .inFilter) (hquery : below.queries.toList ≠ []) :
    ∃ node, child.Holds node ∧ node.placement = .inFilter ∧ node.queries.toList ≠ [] := by
  induction hbelow with
  | self child => exact ⟨child, .self child, hplace, hquery⟩
  | @owned child inner below family mode clause hclause hinner hbelow ih =>
    have hfamily := hplaced child (.self child) family mode clause hclause inner hinner
    cases family with
    | filter =>
      have hinnerPlaced : inner.Placed :=
        fun node hnode => hplaced node (.owned hclause hinner hnode)
      obtain ⟨node, hnode, hnodePlace, hnodeQuery⟩ := ih hinnerPlaced hfamily hquery
      exact ⟨node, .owned hclause hinner hnode, hnodePlace, hnodeQuery⟩
    | query =>
      have hmem : clause ∈ child.queries.toList := ByMode.mem_toList_iff.2 ⟨mode, hclause⟩
      exact ⟨child, .self child, hplace, List.ne_nil_of_mem hmem⟩

/-- In the tree of a root draft only a filter owns a draft that sits below a filter. -/
theorem exists_filter_owner {draft node : Draft} (hroot : draft.placement = .root)
    (hplaced : draft.Placed) (hnode : draft.Holds node)
    (hplace : node.placement = .inFilter) :
    ∃ parent, draft.Holds parent ∧ ∃ filter ∈ parent.filters.toList,
      filter.nested = some node := by
  rcases hnode.owner with rfl | ⟨parent, hparent, family, mode, clause, hclause, howns⟩
  · simp [hroot] at hplace
  · have hbelow := hplaced parent hparent family mode clause hclause node howns
    cases family with
    | filter =>
      have hmem : clause ∈ parent.filters.toList := ByMode.mem_toList_iff.2 ⟨mode, hclause⟩
      exact ⟨parent, hparent, clause, hmem, howns⟩
    | query => simp [hbelow, Placement.below] at hplace

/-- A query that stands anywhere below a filter shows in a draft below a filter that has a
query of its own. -/
theorem queryBelowFilter_iff {draft : Draft} (hroot : draft.placement = .root)
    (hplaced : draft.Placed) :
    draft.QueryBelowFilter ↔
      ∃ node, draft.Holds node ∧ node.placement = .inFilter ∧ node.queries.toList ≠ [] := by
  constructor
  · rintro ⟨node, hnode, filter, hfilter, child, hchild, below, hbelow, hquery⟩
    obtain ⟨mode, hmode⟩ := ByMode.mem_toList_iff.1 hfilter
    have howned : filter ∈ (node.clauses .filter).get mode := hmode
    have hdown : ∀ inner, child.Holds inner → draft.Holds inner := by
      intro inner hinner
      exact hnode.trans (.owned howned hchild hinner)
    have hplace : child.placement = .inFilter :=
      hplaced node hnode .filter mode filter hmode child hchild
    obtain ⟨inner, hinner, hinnerPlace, hinnerQuery⟩ :=
      hbelow.exists_query_inFilter (fun inner hinner => hplaced inner (hdown inner hinner))
        hplace hquery
    exact ⟨inner, hdown inner hinner, hinnerPlace, hinnerQuery⟩
  · rintro ⟨node, hnode, hplace, hquery⟩
    obtain ⟨parent, hparent, filter, hfilter, howns⟩ :=
      exists_filter_owner hroot hplaced hnode hplace
    exact ⟨parent, hparent, filter, hfilter, node, howns, node, .self node, hquery⟩

end Draft

namespace Step

theorem placed_of_run {steps : List Step} {draft : Draft}
    (hbrings : ∀ step : Step, step.Inside steps → step.BringsPlaced)
    (hrun : run (Draft.fresh .root) steps = .ok draft) : draft.Placed := by
  refine holds_of_run_fresh Draft.ownsPlaced_fresh ?_ ?_ hbrings hrun
  · intro family mode clause child hadd hchild
    exact (hadd child hchild).2
  · intro before step after hstep hbefore happly
    exact Draft.ownsPlaced_of_apply hstep hbefore happly

/-- Where no step takes clauses back, a misplaced draft that a step brings along stays. -/
theorem bringsPlaced_of_placed {steps : List Step} {draft : Draft}
    (hkept : ∀ step : Step, step.Inside steps → step.takesBack = false)
    (hrun : run (Draft.fresh .root) steps = .ok draft) (hplaced : draft.Placed) :
    ∀ step : Step, step.Inside steps → step.BringsPlaced := by
  intro step hstep
  cases step with
  | add family mode clause =>
    obtain ⟨node, hnode, hclause⟩ := exists_node_of_inside hstep hkept hrun
    intro child hchild
    refine ⟨hplaced node hnode family mode clause hclause child hchild, fun inner hinner => ?_⟩
    exact hplaced inner (hnode.trans (.owned hclause hchild hinner))
  | _ => trivial

theorem plain_of_run {steps : List Step} {draft : Draft}
    (hplain : ∀ step : Step, step.Inside steps → step.IsPlain)
    (hrun : run (Draft.fresh .root) steps = .ok draft) :
    ∀ node, draft.Holds node → node.base = [] ∧ node.rawOptions = [] := by
  refine holds_of_run_fresh (fun _ => ⟨rfl, rfl⟩) ?_ ?_ hplain hrun
  · intro family mode clause child hadd hchild
    exact hadd child hchild
  · intro before step after hstep hbefore happly
    exact Draft.plain_of_apply hstep hbefore happly

/-- The one fault that a node of a plain run can have is a query below a filter. -/
theorem failsWith_of_plain_run {steps : List Step} {draft node : Draft} {e : DraftError}
    (hplain : ∀ step : Step, step.Inside steps → step.IsPlain)
    (hrun : run (Draft.fresh .root) steps = .ok draft) (hnode : draft.Holds node)
    (hfails : node.FailsWith e) :
    node.placement = .inFilter ∧
      ∃ query ∈ node.queries.toList, e = .contextViolation query.kind := by
  obtain ⟨hbase, hraw⟩ := plain_of_run hplain hrun node hnode
  obtain ⟨hplace, query, hfirst, he⟩ := (Draft.failsWith_iff_of_plain hbase hraw).1 hfails
  exact ⟨hplace, query, List.mem_of_head? hfirst, he⟩

/-- Every owned draft in the tree of a run sits below the family of its owner if the drafts do
that added clauses bring along, and only if they do where no step takes clauses back. Without
bases and raw options the run fails to be rendered exactly if a draft that sits below a filter
holds a query. Where all owned drafts sit below the family of their owner, this is exactly if a
query stands anywhere below a filter, and then the error names a query of a draft that a filter
owns. -/
theorem run_fails_iff_query_below_filter {steps : List Step} {draft : Draft}
    (hrun : run (Draft.fresh .root) steps = .ok draft) :
    ((∀ step : Step, step.Inside steps → step.BringsPlaced) → draft.Placed) ∧
    ((∀ step : Step, step.Inside steps → step.takesBack = false) → draft.Placed →
      ∀ step : Step, step.Inside steps → step.BringsPlaced) ∧
    ((∀ step : Step, step.Inside steps → step.IsPlain) →
      ((∃ e, draft.render = .error e) ↔
        ∃ node, draft.Holds node ∧ node.placement = .inFilter ∧ node.queries.toList ≠ []) ∧
      (draft.Placed →
        ((∃ e, draft.render = .error e) ↔ draft.QueryBelowFilter) ∧
        ∀ e, draft.render = .error e →
          ∃ node, draft.Holds node ∧ ∃ filter ∈ node.filters.toList,
            ∃ child, filter.nested = some child ∧
              ∃ query ∈ child.queries.toList, e = .contextViolation query.kind)) := by
  have hroot : draft.placement = .root := run_placement hrun
  refine ⟨fun hbrings => placed_of_run hbrings hrun,
    fun hkept hplaced => bringsPlaced_of_placed hkept hrun hplaced, fun hplain => ?_⟩
  have hfails : (∃ e, draft.render = .error e) ↔
      ∃ node, draft.Holds node ∧ node.placement = .inFilter ∧ node.queries.toList ≠ [] := by
    constructor
    · rintro ⟨e, he⟩
      obtain ⟨node, hnode, hfails⟩ := Draft.exists_fault he
      obtain ⟨hplace, query, hquery, -⟩ := failsWith_of_plain_run hplain hrun hnode hfails
      exact ⟨node, hnode, hplace, List.ne_nil_of_mem hquery⟩
    · rintro ⟨node, hnode, hplace, hquery⟩
      obtain ⟨first, hfirst⟩ := Draft.exists_firstQuery? hquery
      exact Draft.fails_of_fault hnode (.queryBelowFilter first hplace hfirst)
  refine ⟨hfails, fun hplaced => ⟨?_, ?_⟩⟩
  · rw [Draft.queryBelowFilter_iff hroot hplaced, hfails]
  · intro e he
    obtain ⟨node, hnode, hfault⟩ := Draft.exists_fault he
    obtain ⟨hplace, query, hquery, rfl⟩ := failsWith_of_plain_run hplain hrun hnode hfault
    obtain ⟨parent, hparent, filter, hfilter, howns⟩ :=
      Draft.exists_filter_owner hroot hplaced hnode hplace
    exact ⟨parent, hparent, filter, hfilter, node, howns, query, hquery, rfl⟩

/-- A filter that owns a filter that owns an excluded query, beside a filter and a query that
each bring along a draft from below its own family. -/
def queryDeepInFilter : List Step :=
  [.add .query .and { kind := "nested", nested := some (Draft.fresh .inQuery) },
    .add .filter .not { kind := "bool", nested := some (Draft.fresh .inFilter) },
    .addNested .filter .and { kind := "bool" } [.addNested .filter .or { kind := "bool" }
      [.add .query .not { kind := "exists", payload := .field "a" }]]]

def queryDeepInFilterDraft : Draft :=
  let lowest : Draft :=
    { placement := .inFilter
      queries := ⟨[], [], [{ kind := "exists", payload := .field "a" }]⟩ }
  let middle : Draft :=
    { placement := .inFilter
      filters := ⟨[], [{ kind := "bool", nested := some lowest }], []⟩ }
  { filters := ⟨[{ kind := "bool", nested := some middle }], [],
      [{ kind := "bool", nested := some (Draft.fresh .inFilter) }]⟩
    queries := ⟨[{ kind := "nested", nested := some (Draft.fresh .inQuery) }], [], []⟩ }

theorem run_fails_iff_query_below_filter_deep :
    run (Draft.fresh .root) queryDeepInFilter = .ok queryDeepInFilterDraft ∧
      queryDeepInFilterDraft.Placed ∧ queryDeepInFilterDraft.QueryBelowFilter ∧
      ∃ node, queryDeepInFilterDraft.Holds node ∧ ∃ filter ∈ node.filters.toList,
        ∃ child, filter.nested = some child ∧ ∃ query ∈ child.queries.toList,
          DraftError.contextViolation "exists" = .contextViolation query.kind := by
  have hrun : run (Draft.fresh .root) queryDeepInFilter = .ok queryDeepInFilterDraft := rfl
  have hrender : queryDeepInFilterDraft.render = .error (.contextViolation "exists") := rfl
  have hsteps : ∀ step : Step, step.Inside queryDeepInFilter →
      step.BringsPlaced ∧ step.IsPlain := by
    have hadd : ∀ family mode kind,
        let step := Step.add family mode
          { kind := kind, nested := some (Draft.fresh (.below family)) }
        step.BringsPlaced ∧ step.IsPlain := by
      intro family mode kind
      constructor
      · rintro child ⟨⟩
        exact ⟨rfl, Draft.placed_fresh (.below family)⟩
      · rintro child ⟨⟩
        exact Draft.forall_holds_fresh ⟨rfl, rfl⟩
    intro step hstep
    simp only [queryDeepInFilter, inside_cons_iff, innerSteps, not_inside_nil, or_false,
      false_or] at hstep
    rcases hstep with rfl | rfl | rfl | rfl | rfl
    · exact hadd .query .and "nested"
    · exact hadd .filter .not "bool"
    · exact ⟨trivial, trivial⟩
    · exact ⟨trivial, trivial⟩
    · simp [BringsPlaced, IsPlain]
  obtain ⟨hplaced, -, hplain⟩ := run_fails_iff_query_below_filter hrun
  have hdraft : queryDeepInFilterDraft.Placed := hplaced fun step hstep => (hsteps step hstep).1
  obtain ⟨-, hfails⟩ := hplain fun step hstep => (hsteps step hstep).2
  obtain ⟨hquery, herror⟩ := hfails hdraft
  exact ⟨hrun, hdraft, hquery.1 ⟨_, hrender⟩, herror _ hrender⟩

def lending : List Step :=
  [.addNested .query .and { kind := "bool" } [.add .query .and { kind := "match_all" }]]

def lentClause : Clause :=
  { kind := "bool"
    nested := some
      { placement := .inQuery, queries := ⟨[{ kind := "match_all" }], [], []⟩ } }

/-- A clause that is taken from the queries of one draft keeps a draft from below a query when
it is added to the filters of another. Then a query stands below a filter and is not refused. -/
theorem query_below_filter_not_always_refused :
    (∃ lender, run (Draft.fresh .root) lending = .ok lender ∧
      lender.queries.and = [lentClause]) ∧
    (¬ ∀ steps draft, run (Draft.fresh .root) steps = .ok draft → draft.Placed) ∧
    ¬ ∀ steps draft, run (Draft.fresh .root) steps = .ok draft →
      (∀ step : Step, step.Inside steps → step.IsPlain) → draft.QueryBelowFilter →
      ∃ e, draft.render = .error e := by
  let borrower : Draft := { filters := ⟨[lentClause], [], []⟩ }
  have hrun : run (Draft.fresh .root) [.add .filter .and lentClause] = .ok borrower := rfl
  have hfilter : lentClause ∈ (borrower.clauses .filter).get .and := List.mem_singleton_self _
  refine ⟨⟨_, rfl, rfl⟩, fun h => ?_, fun h => ?_⟩
  · have hplace := h _ _ hrun borrower (.self borrower) .filter .and lentClause hfilter _ rfl
    simp [Placement.below] at hplace
  · have hplain : ∀ step : Step, step.Inside [.add .filter .and lentClause] → step.IsPlain := by
      intro step hstep
      simp only [inside_cons_iff, innerSteps, not_inside_nil, or_false] at hstep
      rw [hstep]
      rintro child ⟨⟩ node hnode
      cases hnode with
      | self => exact ⟨rfl, rfl⟩
      | @owned _ _ _ family mode clause hclause howned =>
        cases family <;> cases mode <;> simp [Draft.clauses, ByMode.get] at hclause
        rw [hclause] at howned
        simp at howned
    have hbelow : borrower.QueryBelowFilter :=
      ⟨borrower, .self borrower, lentClause, List.mem_singleton_self _, _, rfl, _, .self _,
        by simp [ByMode.toList]⟩
    obtain ⟨e, he⟩ := h _ _ hrun hplain hbelow
    obtain ⟨object, hobject⟩ : ∃ object, borrower.render = .ok object := ⟨_, rfl⟩
    simp [he] at hobject

end Step

end SearchQuery
