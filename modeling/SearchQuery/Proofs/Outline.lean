import SearchQuery.Proofs.Assembly

/-!
What a draft reads off its clauses apart from the objects that they are rendered to: their
kinds, and which of them own a draft. Drafts at one place whose clauses have the same outline
choose the same slots and keys, and the same clause for a query below a filter. So with one
base and the same objects of their clauses they write one request object.
-/
namespace SearchQuery

def Clause.outline (clause : Clause) : String × Bool := (clause.kind, clause.isNested)

theorem ByMode.any_map {α β : Type} (f : α → β) (groups : ByMode α) (mode : Option Mode) :
    (groups.map f).any mode = groups.any mode := by
  cases mode with
  | none => simp [any, toList_map]
  | some mode => simp [any, get_map]

theorem ByMode.map_map {α β γ : Type} (g : β → γ) (f : α → β) (groups : ByMode α) :
    (groups.map f).map g = groups.map fun a => g (f a) := by
  simp [map]

theorem ByMode.map_congr {α β : Type} {f g : α → β} {groups : ByMode α}
    (h : ∀ mode, ∀ a ∈ groups.get mode, f a = g a) : groups.map f = groups.map g := by
  refine eq_of_get fun mode => ?_
  rw [get_map, get_map]
  exact List.map_congr_left (h mode)

namespace Draft

structure Outlined (d e : Draft) : Prop where
  placement : d.placement = e.placement
  threshold : ∀ family, d.threshold family = e.threshold family
  outline : ∀ family, (d.clauses family).map Clause.outline = (e.clauses family).map Clause.outline

namespace Outlined

variable {d e : Draft} (h : d.Outlined e)

include h

theorem has_eq (family : Family) (mode : Option Mode) : d.has family mode = e.has family mode := by
  rw [has, has, ← ByMode.any_map Clause.outline, h.outline, ByMode.any_map]

theorem onlyOneAnd_eq (family : Family) :
    (d.clauses family).onlyOneAnd = (e.clauses family).onlyOneAnd := by
  rw [← ByMode.onlyOneAnd_map Clause.outline, h.outline, ByMode.onlyOneAnd_map]

theorem anyNested_eq (family : Family) :
    anyNested (d.clauses family) = anyNested (e.clauses family) := by
  have houtline : ∀ groups : ByMode Clause,
      anyNested groups = (groups.map Clause.outline).toList.any Prod.snd := by
    intro groups
    rw [anyNested, ByMode.toList_map, List.any_map]
    rfl
  rw [houtline, h.outline, ← houtline]

theorem firstQuery?_eq :
    d.firstQuery?.map Clause.kind = e.firstQuery?.map Clause.kind := by
  have houtline : ∀ draft : Draft, draft.firstQuery?.map Clause.kind =
      (((draft.clauses .query).map Clause.outline).toList.head?).map Prod.fst := by
    intro draft
    rw [ByMode.toList_map, List.head?_map, Option.map_map]
    rfl
  rw [houtline, h.outline, ← houtline]

/-- Both drafts hold a query below a filter, and the first ones have one kind, or neither
does. -/
theorem firstQuery?_cases :
    (∃ clause other, d.placement = .inFilter ∧ e.placement = .inFilter ∧
      d.firstQuery? = some clause ∧ e.firstQuery? = some other ∧ clause.kind = other.kind) ∨
      (d.placement = .inFilter → d.firstQuery? = none) ∧
        (e.placement = .inFilter → e.firstQuery? = none) := by
  have hfirst := h.firstQuery?_eq
  by_cases hplace : d.placement = .inFilter
  · have hother : e.placement = .inFilter := h.placement ▸ hplace
    cases hd : d.firstQuery? with
    | none =>
      rw [hd, Option.map_none, eq_comm, Option.map_eq_none_iff] at hfirst
      exact .inr ⟨fun _ => rfl, fun _ => hfirst⟩
    | some clause =>
      rw [hd, Option.map_some, eq_comm, Option.map_eq_some_iff] at hfirst
      obtain ⟨other, he, hkind⟩ := hfirst
      exact .inl ⟨clause, other, hplace, hother, rfl, he, hkind.symm⟩
  · exact .inr ⟨fun hd => absurd hd hplace, fun he => absurd (h.placement.trans he) hplace⟩

theorem simpleFilter_eq : d.simpleFilter = e.simpleFilter := by
  have hor : d.filters.or.isEmpty = e.filters.or.isEmpty := by
    have hmap := congrArg (fun groups => groups.or.isEmpty) (h.outline .filter)
    simpa [ByMode.map, clauses] using hmap
  have hone : d.filters.onlyOneAnd = e.filters.onlyOneAnd := h.onlyOneAnd_eq .filter
  have hnested : anyNested d.filters = anyNested e.filters := h.anyNested_eq .filter
  rw [simpleFilter, simpleFilter, hor, hone, hnested, h.has_eq]

theorem slot_eq (family : Family) : d.slot family = e.slot family := by
  rw [slot, slot, h.placement, h.simpleFilter_eq]

theorem key_eq (family : Family) (mode : Mode) : d.key family mode = e.key family mode := by
  rw [key, key, h.simpleFilter_eq]

theorem isLoneQuery_eq (hasBool : Bool) : d.isLoneQuery hasBool = e.isLoneQuery hasBool := by
  have hone : d.queries.onlyOneAnd = e.queries.onlyOneAnd := h.onlyOneAnd_eq .query
  rw [isLoneQuery, isLoneQuery, h.placement, h.has_eq, hone]

theorem writeGroup_eq (family : Family) (mode : Mode) (group : List Rendered)
    (request : Object) :
    d.writeGroup family mode group request = e.writeGroup family mode group request := by
  unfold writeGroup
  rw [h.slot_eq, h.key_eq, h.threshold]

theorem withClauses_eq (hbase : d.base = e.base) (hasBool : Bool) (clauses : RenderedClauses) :
    d.withClauses hasBool clauses = e.withClauses hasBool clauses := by
  have hwrite : d.writeClauses clauses = e.writeClauses clauses := by
    unfold writeClauses
    rw [hbase]
    congr 1
    funext request group
    exact h.writeGroup_eq ..
  unfold withClauses
  rw [h.isLoneQuery_eq, hwrite, hbase]

/-- Drafts with one base and the same objects of their clauses are rendered to the same
object, or fail with the same error, if the same is made of every request object that their
clauses can leave. -/
theorem render_eq (hbase : d.base = e.base) (hclauses : d.renderedClauses = e.renderedClauses)
    (hfinish : ∀ filters queries request, d.Built filters queries →
      d.Written filters queries request → d.finish request = e.finish request) :
    d.render = e.render := by
  rw [render_eq_assemble, render_eq_assemble]
  rcases h.firstQuery?_cases with
    ⟨clause, other, hplace, hbelow, hclause, hother, hkind⟩ | ⟨hnone, hother⟩
  · rw [assemble_of_query hplace hclause, assemble_of_query hbelow hother, hkind]
  rw [assemble_of_no_query hnone, assemble_of_no_query hother, ← hbase, ← hclauses]
  refine bind_congr_ok fun hasBool hhas => ?_
  rw [← h.withClauses_eq hbase]
  refine bind_congr_ok fun request hrequest => ?_
  obtain ⟨filters, queries, hbuilt, hwritten⟩ := exists_written hnone hhas hrequest
  exact hfinish filters queries request hbuilt hwritten

end Outlined

end Draft

end SearchQuery
