import SearchQuery.Proofs.Outline

/-!
Settings of an owned draft that never show. An owner takes only what is under the query of a
draft below the root, or all of it where there is no query. So the sort fields, size and offset
of such a draft have no effect, and where a clause or the base makes a query, the raw options
under other keys have none either. Two trees that differ in nothing else are rendered alike, to
the same object or the same error. A draft that was made for the root shows all of its settings
also where a clause owns it.
-/
namespace SearchQuery

namespace Draft

def makesQuery (draft : Draft) : Bool :=
  draft.has .filter none || draft.has .query none || Keyed.contains draft.base "query"

/-- The raw options of an owned draft that can show: those for the query, or all of them where
nothing makes a query. -/
def shownRawOptions (draft : Draft) : List (String × Value) :=
  if draft.makesQuery then draft.rawOptions.filter (·.1 = "query") else draft.rawOptions

def stripped (draft : Draft) : Draft :=
  { draft with rawOptions := draft.shownRawOptions, sort := [], size := none, offset := none }

/-- A draft below the root without the settings that its owner never sees. -/
def withoutInert (draft : Draft) : Draft :=
  if draft.placement.isNested then draft.stripped else draft

end Draft

mutual

def Clause.onOwned (change : Draft → Draft) : Clause → Clause
  | ⟨kind, payload, options, nested⟩ => ⟨kind, payload, options, onOwnedNested change nested⟩

def onOwnedNested (change : Draft → Draft) : Option Draft → Option Draft
  | none => none
  | some draft => some (change (draft.onOwned change))

/-- The draft with a change made to all drafts in its tree below the top, from below. -/
def Draft.onOwned (change : Draft → Draft) : Draft → Draft
  | ⟨base, placement, filters, queries, rawOptions, sort, size, offset, filterThreshold,
      queryThreshold⟩ =>
    ⟨base, placement, onOwnedGroups change filters, onOwnedGroups change queries, rawOptions, sort,
      size, offset, filterThreshold, queryThreshold⟩

def onOwnedGroups (change : Draft → Draft) : ByMode Clause → ByMode Clause
  | ⟨and, or, not⟩ => ⟨onOwnedList change and, onOwnedList change or, onOwnedList change not⟩

def onOwnedList (change : Draft → Draft) : List Clause → List Clause
  | [] => []
  | clause :: rest => clause.onOwned change :: onOwnedList change rest

end

namespace Draft

def pared (draft : Draft) : Draft := draft.onOwned withoutInert

def rootInQuery (size : Option UInt64) : Draft :=
  { queries := ⟨[{ kind := "bool", nested := some { size := size } }], [], []⟩ }

/-- The size of a draft that was made for the root shows in the clause that owns it. -/
theorem settings_not_always_inert :
    ¬ ∀ d e : Draft, d.onOwned stripped = e.onOwned stripped → d.render = e.render := by
  intro h
  have hsame : (rootInQuery none).render = (rootInQuery (some 5)).render := h _ _ rfl
  have hnone : (rootInQuery none).render =
      .ok (Keyed.single "query" (.object (Keyed.single "bool" (.object [])))) := rfl
  have hfive : (rootInQuery (some 5)).render =
      .ok (Keyed.single "query" (.object (Keyed.single "bool"
        (.object (Keyed.single "size" (.int 5)))))) := rfl
  simp [hnone, hfive, Keyed.single] at hsame

end Draft

section Change

variable {change : Draft → Draft}

theorem onOwnedList_eq_map (clauses : List Clause) :
    onOwnedList change clauses = clauses.map (Clause.onOwned change) := by
  induction clauses with
  | nil => rfl
  | cons clause rest ih => simp [onOwnedList, ih]

theorem onOwnedGroups_eq_map (groups : ByMode Clause) :
    onOwnedGroups change groups = groups.map (Clause.onOwned change) := by
  cases groups
  simp [onOwnedGroups, ByMode.map, onOwnedList_eq_map]

theorem Clause.onOwned_eq (clause : Clause) :
    clause.onOwned change =
      { clause with nested := clause.nested.map fun draft => change (draft.onOwned change) } := by
  obtain ⟨kind, payload, options, _ | draft⟩ := clause <;> rfl

theorem Clause.outline_onOwned (clause : Clause) :
    (clause.onOwned change).outline = clause.outline := by
  rw [onOwned_eq, outline, outline, isNested, isNested, Option.isSome_map]

namespace Draft

theorem onOwned_eq (draft : Draft) :
    draft.onOwned change =
      { draft with
        filters := draft.filters.map (Clause.onOwned change)
        queries := draft.queries.map (Clause.onOwned change) } := by
  cases draft
  rw [onOwned, onOwnedGroups_eq_map, onOwnedGroups_eq_map]

theorem clauses_onOwned (draft : Draft) (family : Family) :
    (draft.onOwned change).clauses family =
      (draft.clauses family).map (Clause.onOwned change) := by
  rw [onOwned_eq]
  cases family <;> rfl

theorem outlined_onOwned (draft : Draft) : (draft.onOwned change).Outlined draft where
  placement := by rw [onOwned_eq]
  threshold := by
    intro family
    rw [onOwned_eq]
    cases family <;> rfl
  outline := by
    intro family
    rw [clauses_onOwned, ByMode.map_map]
    exact ByMode.map_congr fun _ clause _ => clause.outline_onOwned

/-- A change that does not show in any draft by itself does not show where it is made to all
drafts of a tree below the top. By induction over the tree: the draft that a clause owns is
rendered like the one with the change made below it, and so after the change to itself. -/
theorem render_onOwned (hchange : ∀ draft, (change draft).render = draft.render)
    (draft : Draft) : (draft.onOwned change).render = draft.render := by
  induction draft using tree_induction with
  | step draft ih =>
    have hclause : ∀ family mode, ∀ clause ∈ (draft.clauses family).get mode,
        (clause.onOwned change).render = clause.render := by
      intro family mode clause hclause
      rw [Clause.onOwned_eq, Clause.render_eq, Clause.render_eq]
      cases hnested : clause.nested with
      | none => rfl
      | some child =>
        have hchild : (change (child.onOwned change)).render = child.render :=
          (hchange _).trans (ih family mode clause child hclause hnested)
        simp only [Option.map_some, hchild]
        rfl
    have hrendered : ∀ family, ((draft.onOwned change).clauses family).map Clause.render =
        (draft.clauses family).map Clause.render := by
      intro family
      rw [clauses_onOwned, ByMode.map_map]
      exact ByMode.map_congr (hclause family)
    refine draft.outlined_onOwned.render_eq ?_ ?_ ?_
    · rw [onOwned_eq]
    · exact RenderedClauses.mk.injEq .. ▸ ⟨hrendered .filter, hrendered .query⟩
    · intro filters queries request _ _
      rw [onOwned_eq]
      rfl

end Draft

end Change

/-- What an owned draft yields depends on its request object only through the query, where
there is one. -/
theorem nestedResult_congr {request other : Object}
    (h : request.get? "query" = other.get? "query") (hsome : request.get? "query" ≠ none) :
    Draft.nestedResult request = Draft.nestedResult other := by
  unfold Draft.nestedResult
  rw [← h]
  cases hquery : request.get? "query" with
  | none => exact absurd hquery hsome
  | some value => cases value <;> rfl

namespace Draft

/-- Once its clauses are written, a draft that makes a query has one. -/
theorem Written.get?_query_ne_none {draft : Draft} {filters queries : ByMode Object}
    {request : Object} (h : draft.Written filters queries request)
    (hbuilt : draft.Built filters queries) (hmakes : draft.makesQuery = true) :
    request.get? "query" ≠ none := by
  cases h with
  | nothing hfilters hqueries =>
    subst hfilters hqueries
    have hnoFilter : draft.has .filter none = false := by
      rw [has_none_eq_false]
      exact hbuilt.filters_empty_iff.2 rfl
    have hnoQuery : draft.has .query none = false := by
      rw [has_none_eq_false]
      exact hbuilt.queries_empty_iff.2 rfl
    rw [makesQuery, hnoFilter, hnoQuery, Bool.false_or, Bool.false_or, Keyed.contains] at hmakes
    exact Option.isSome_iff_ne_none.1 hmakes
  | _ => simp [Keyed.get?_insert_self]

theorem finish_withoutInert {draft : Draft} {filters queries : ByMode Object}
    {request : Object} (hbuilt : draft.Built filters queries)
    (hwritten : draft.Written filters queries request) :
    draft.withoutInert.finish request = draft.finish request := by
  unfold withoutInert
  by_cases hnested : draft.placement.isNested = true
  · simp only [hnested, if_true, stripped, finish, writeRawOptions, shownRawOptions]
    by_cases hmakes : draft.makesQuery = true
    · rw [if_pos hmakes]
      refine nestedResult_congr ?_ ?_
      · rw [Keyed.get?_extend, Keyed.get?_extend, Keyed.last?_filter]
      · rw [Keyed.get?_extend, Option.ne_none_iff_isSome, Option.isSome_or,
          Option.ne_none_iff_isSome.1 (hwritten.get?_query_ne_none hbuilt hmakes), Bool.or_true]
    · rw [if_neg hmakes]
  · rw [if_neg hnested]

theorem outlined_withoutInert (draft : Draft) : draft.Outlined draft.withoutInert := by
  unfold withoutInert
  split
  · exact ⟨rfl, fun family => by cases family <;> rfl, fun family => by cases family <;> rfl⟩
  · exact ⟨rfl, fun _ => rfl, fun _ => rfl⟩

/-- A draft shows nothing of its inert settings. -/
theorem render_withoutInert (draft : Draft) : draft.withoutInert.render = draft.render := by
  refine (draft.outlined_withoutInert.render_eq ?_ ?_ ?_).symm
  · unfold withoutInert
    split <;> rfl
  · unfold withoutInert
    split <;> rfl
  · intro filters queries request hbuilt hwritten
    exact (finish_withoutInert hbuilt hwritten).symm

/-- A tree without the inert settings below its top is rendered like the tree itself. -/
theorem render_pared (draft : Draft) : draft.pared.render = draft.render :=
  draft.render_onOwned render_withoutInert

/-- Two trees that differ only in the inert settings of drafts below the top are rendered
alike: to the same object, or with the same error. -/
theorem render_eq_of_pared {d e : Draft} (h : d.pared = e.pared) : d.render = e.render := by
  calc
    d.render = d.pared.render := d.render_pared.symm
    _ = e.pared.render := by rw [h]
    _ = e.render := e.render_pared

/-- A filter below a query, two levels down, with some settings for each of the two drafts
that are owned. The base of the upper one has a query, and the lower one has a clause and a
raw query of its own. -/
def twoLevels (sort : SortOrder) (size : Option UInt64) (raw : List (String × Value)) : Draft :=
  let lower : Draft :=
    { placement := .inFilter
      filters := ⟨[{ kind := "exists", payload := .field "a" }], [], []⟩
      rawOptions := ("query", .object (Keyed.single "exists" (.object []))) :: raw
      offset := size }
  let upper : Draft :=
    { placement := .inQuery
      base := Keyed.single "query" (.object (Keyed.single "bool" (.object [])))
      filters := ⟨[], [{ kind := "nested", nested := some lower }], []⟩
      rawOptions := raw
      sort := sort
      size := size }
  { queries := ⟨[{ kind := "bool", nested := some upper }], [], []⟩, size := some 3 }

theorem render_eq_of_pared_twoLevels :
    ∃ object, (twoLevels [] none []).render = .ok object ∧
      (twoLevels [("a", .desc)] (some 5) [("boost", .int 2)]).render = .ok object := by
  obtain ⟨object, hobject⟩ : ∃ object, (twoLevels [] none []).render = .ok object := ⟨_, rfl⟩
  have hpared : (twoLevels [("a", .desc)] (some 5) [("boost", .int 2)]).pared =
      (twoLevels [] none []).pared := rfl
  exact ⟨object, hobject, (render_eq_of_pared hpared).trans hobject⟩

end Draft

end SearchQuery
