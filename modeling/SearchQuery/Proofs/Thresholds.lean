import SearchQuery.Proofs.Accumulation

/-!
Where thresholds are written. Each family has one scope that takes its clauses, and its
threshold is written there and nowhere else. It is written if alternatives were added and
at least two are there then, those of the base included. One case is left over: a base
whose alternatives are an empty array gets the threshold with the first of them.
-/
namespace SearchQuery

/-- Whether the alternatives in a scope count as several: at least two are there after
writing, or an empty array was there before. -/
def SeveralAlternatives (before after : Object) : Prop :=
  2 ≤ (after.itemsAt "should").length ∨ before.get? "should" = some (.array [])

structure ThresholdLaw (threshold : Option Int64) (alternatives : List Clause)
    (before after : Object) : Prop where
  written : ∀ count, threshold = some count → alternatives ≠ [] →
    SeveralAlternatives before after →
      after.get? "minimum_should_match" = some (.int count.toInt)
  kept : threshold = none ∨ alternatives = [] ∨ ¬ SeveralAlternatives before after →
    after.get? "minimum_should_match" = before.get? "minimum_should_match"

theorem ThresholdLaw.of_same {threshold : Option Int64} {alternatives : List Clause}
    {before after : Object} (hnone : alternatives = [])
    (hsame : after.get? "minimum_should_match" = before.get? "minimum_should_match") :
    ThresholdLaw threshold alternatives before after where
  written := fun _ _ hsome => absurd hnone hsome
  kept := fun _ => hsame

theorem ThresholdLaw.congr_before {threshold : Option Int64} {alternatives : List Clause}
    {before other after : Object} (h : ThresholdLaw threshold alternatives before after)
    (hthreshold : before.get? "minimum_should_match" = other.get? "minimum_should_match")
    (hshould : before.get? "should" = other.get? "should") :
    ThresholdLaw threshold alternatives other after := by
  have hseveral : SeveralAlternatives before after = SeveralAlternatives other after := by
    rw [SeveralAlternatives, SeveralAlternatives, hshould]
  constructor
  · intro count hcount hsome hmany
    exact h.written count hcount hsome (hseveral ▸ hmany)
  · intro hfew
    rw [← hthreshold]
    exact h.kept (hseveral ▸ hfew)

/-- Once clauses have been merged into a slot, the slot holds an array exactly if there are
two clauses in it, or if it was an empty array. -/
theorem isArray_mergeSlot_iff (present : Option Value) {objects : List Object}
    (h : objects ≠ []) :
    (mergeSlot present objects).any Value.isArray = true ↔
      2 ≤ ((mergeSlot present objects).elim [] Value.items).length ∨
        present = some (.array []) := by
  have hsome : objects.isEmpty = false := by simpa using h
  have hpositive : 0 < objects.length := List.length_pos_iff.2 h
  rw [items_mergeSlot, List.length_append, List.length_map]
  unfold mergeSlot
  rw [if_neg (by simp [hsome])]
  cases present with
  | none =>
    match objects with
    | [] => exact absurd rfl h
    | [object] => simp [Draft.collapse, Value.isArray]
    | _ :: _ :: _ => simp [Draft.collapse, Value.isArray]
  | some value =>
    cases value with
    | array values =>
      cases values with
      | nil => simp [Value.isArray]
      | cons first rest =>
        simp only [Value.isArray, Option.any_some, Option.elim_some, Value.items,
          List.length_cons, true_iff]
        exact .inl (by omega)
    | _ =>
      simp only [Value.isArray, Option.any_some, Option.elim_some, Value.items,
        List.length_singleton, true_iff]
      exact .inl (by omega)

theorem thresholdLaw_addGroups (simpleFilter : Bool) (threshold : Option Int64)
    {groups : ByMode Object} {alternatives : List Clause}
    (h : alternatives = [] ↔ groups.or = []) (target : Object) :
    ThresholdLaw threshold alternatives target
      (addGroups simpleFilter threshold groups target) := by
  have hwritten := get?_threshold_addGroups simpleFilter threshold groups target
  have hslot : (addGroups simpleFilter threshold groups target).get? "should" =
      mergeSlot (target.get? "should") groups.or :=
    get?_addGroups simpleFilter threshold groups target .or
  by_cases hnone : groups.or = []
  · apply ThresholdLaw.of_same (h.2 hnone)
    rw [hwritten, if_neg (by simp [hnone])]
  have hsome : alternatives ≠ [] := mt h.1 hnone
  have hseveral : ((addGroups simpleFilter threshold groups target).get? "should").any
      Value.isArray = true ↔
        SeveralAlternatives target (addGroups simpleFilter threshold groups target) := by
    unfold SeveralAlternatives Object.itemsAt
    rw [hslot]
    exact isArray_mergeSlot_iff _ hnone
  constructor
  · intro count hcount _ hmany
    rw [hwritten, if_pos ⟨hnone, hseveral.2 hmany⟩, hcount]
    rfl
  · rintro (rfl | habsurd | hfew)
    · rw [hwritten]
      split
      · rfl
      · rfl
    · exact absurd habsurd hsome
    · rw [hwritten, if_neg fun hmany => hfew (hseveral.1 hmany.2)]

/-- A group that is written into nothing leaves a threshold with its alternatives only. -/
theorem thresholdLaw_addGroup_nil {threshold : Option Int64} {alternatives : List Clause}
    {mode : Mode} {objects : List Object}
    (h : mode = .or → (alternatives = [] ↔ objects = [])) :
    ThresholdLaw threshold alternatives []
      (addGroup (mode.boolKey false) threshold objects []) := by
  by_cases hor : mode = .or
  · subst hor
    have hgroup : alternatives = [] ↔ (⟨[], objects, []⟩ : ByMode Object).or = [] := h rfl
    exact thresholdLaw_addGroups false threshold hgroup []
  · have hkey : mode.boolKey false ≠ "should" := by
      cases mode
      · decide
      · exact absurd rfl hor
      · decide
    have hfew : ¬ SeveralAlternatives [] (addGroup (mode.boolKey false) threshold objects []) := by
      unfold SeveralAlternatives
      rw [itemsAt_addGroup_of_ne hkey.symm (by decide)]
      simp [Object.itemsAt]
    constructor
    · intro _ _ _ hmany
      exact absurd hmany hfew
    · intro _
      exact get?_threshold_addGroup_of_ne hkey (mode.boolKey_ne_threshold false) ..

namespace Draft

/-- The request object of a draft before an owned draft is cut down to its query. -/
def uncut (draft : Draft) : Rendered := do
  let hasBool ← baseHasBool draft.base
  let request ← draft.withClauses hasBool draft.renderedClauses
  let request := draft.writeRawOptions request
  return if draft.placement.isNested then request else draft.writeSettings request

def cut (draft : Draft) (request : Object) : Rendered :=
  if draft.placement.isNested then nestedResult request else .ok request

/-- Rendering a draft is cutting its request object. Without a raw query the query in it is
what the clauses have left. -/
theorem exists_uncut {draft : Draft} (hraw : "query" ∉ Keyed.keys draft.rawOptions)
    {object : Object} (h : draft.render = .ok object) :
    ∃ filters queries written request, draft.Built filters queries ∧
      draft.Written filters queries written ∧ draft.uncut = .ok request ∧
      draft.cut request = .ok object ∧ request.get? "query" = written.get? "query" := by
  obtain ⟨hasBool, written, hfirst, hbase, hwritten, hfinish⟩ := withClauses_of_render h
  obtain ⟨filters, queries, hbuilt, hclauses⟩ := exists_written hfirst hbase hwritten
  have hrequest : draft.uncut = .ok (if draft.placement.isNested then
      draft.writeRawOptions written else draft.writeSettings (draft.writeRawOptions written)) := by
    simp [uncut, hbase, hwritten, bind, Except.bind, pure, Except.pure]
  refine ⟨filters, queries, written, _, hbuilt, hclauses, hrequest, ?_, ?_⟩
  · unfold finish at hfinish
    unfold cut
    cases hnested : draft.placement.isNested with
    | true => simpa only [hnested, if_true] using hfinish
    | false => simpa only [hnested, Bool.false_eq_true, if_false] using hfinish
  · split
    · exact get?_writeRawOptions hraw written
    · rw [get?_writeSettings (by decide), get?_writeRawOptions hraw]

/-- The laws for both thresholds, from the base of a draft to its uncut request object. A
draft below a filter has the query itself as its only scope. Elsewhere the queries go to the
bool clause of the query, and filters that are not written the simple way to a bool clause of
their own, which is a new one for each group where the base has an array of filters. -/
structure Thresholds (draft : Draft) (request : Object) : Prop where
  below : draft.placement = .inFilter →
    ThresholdLaw draft.filterThreshold draft.filters.or
      (draft.base.scope ["query"]) (request.scope ["query"])
  queries : draft.placement ≠ .inFilter →
    ThresholdLaw draft.queryThreshold draft.queries.or
      (draft.base.scope ["query", "bool"]) (request.scope ["query", "bool"])
  simple : draft.simpleFilter = true → draft.filters.or = []
  object : draft.placement ≠ .inFilter → draft.simpleFilter = false →
    (∀ values, (draft.base.scope ["query", "bool"]).get? "filter" ≠ some (.array values)) →
      ThresholdLaw draft.filterThreshold draft.filters.or
        (draft.base.scope ["query", "bool", "filter", "bool"])
        (request.scope ["query", "bool", "filter", "bool"])
  array : draft.placement ≠ .inFilter → draft.simpleFilter = false → ∀ values,
    (draft.base.scope ["query", "bool"]).get? "filter" = some (.array values) →
      ∃ added, (request.scope ["query", "bool"]).get? "filter" =
          some (.array (values ++ added)) ∧
        (∀ element ∈ added, ∃ body, element = .object (Keyed.single "bool" (.object body)) ∧
          ThresholdLaw draft.filterThreshold draft.filters.or [] body) ∧
        (draft.filters.or ≠ [] → ∃ (body : Object) (objects : List Object),
          Value.object (Keyed.single "bool" (.object body)) ∈ added ∧
          draft.filters.or.map Clause.render = objects.map .ok ∧
          body.itemsAt "should" = objects.map .object)

theorem or_eq_nil_of_simple {draft : Draft} (hsimple : draft.simpleFilter = true) :
    draft.filters.or = [] := by
  simp only [simpleFilter, Bool.or_eq_true, Bool.and_eq_true, List.isEmpty_iff] at hsimple
  rcases hsimple with hone | ⟨⟨hor, -⟩, -⟩
  · obtain ⟨clause, hfilters⟩ := ByMode.onlyOneAnd_iff.1 hone
    rw [hfilters]
  · exact hor

theorem Thresholds.of_same_query {draft : Draft} {request : Object}
    (hfilters : draft.filters.toList = []) (hqueries : draft.queries.toList = [])
    (hquery : request.get? "query" = draft.base.get? "query") : draft.Thresholds request := by
  have hscope := Object.scope_congr hquery
  have hfilterOr : draft.filters.or = [] := ByMode.toList_eq_nil_iff.1 hfilters .or
  have hqueryOr : draft.queries.or = [] := ByMode.toList_eq_nil_iff.1 hqueries .or
  refine ⟨?_, ?_, or_eq_nil_of_simple, ?_, ?_⟩
  · intro _
    exact .of_same hfilterOr (by rw [hscope])
  · intro _
    exact .of_same hqueryOr (by rw [hscope])
  · intro _ _ _
    exact .of_same hfilterOr (by rw [hscope])
  · intro _ _ values hvalues
    refine ⟨[], ?_, ?_, ?_⟩
    · rw [hscope, hvalues, List.append_nil]
    · intro element helement
      simp at helement
    · intro hsome
      exact absurd hfilterOr hsome

/-- The elements that filters leave at the end of an array keep the law one by one, and one
of them holds the alternatives. -/
theorem Built.filterElements_thresholds {draft : Draft} {filters queries : ByMode Object}
    (hbuilt : draft.Built filters queries) :
    (∀ element ∈ filterElements draft.filterThreshold filters, ∃ body,
      element = .object (Keyed.single "bool" (.object body)) ∧
        ThresholdLaw draft.filterThreshold draft.filters.or [] body) ∧
    (draft.filters.or ≠ [] → ∃ (body : Object) (objects : List Object),
      Value.object (Keyed.single "bool" (.object body)) ∈
        filterElements draft.filterThreshold filters ∧
      draft.filters.or.map Clause.render = objects.map .ok ∧
      body.itemsAt "should" = objects.map .object) := by
  constructor
  · intro element helement
    obtain ⟨mode, -, rfl⟩ := mem_filterElements_iff.1 helement
    refine ⟨_, rfl, thresholdLaw_addGroup_nil ?_⟩
    rintro rfl
    exact hbuilt.get_eq_nil_iff .filter .or
  · intro hsome
    have hfilters : filters.or ≠ [] := mt (hbuilt.get_eq_nil_iff .filter .or).2 hsome
    refine ⟨_, filters.or, mem_filterElements_iff.2 ⟨.or, hfilters, rfl⟩,
      hbuilt.get_eq .filter .or, ?_⟩
    exact itemsAt_addGroup (by decide) ..

/-- The laws for a draft that writes its clauses into the bool clause of its query. -/
theorem Thresholds.of_fillBool {draft : Draft} {filters queries : ByMode Object}
    (hbuilt : draft.Built filters queries) (hplace : draft.placement ≠ .inFilter)
    {body filled request : Object} (hfilled : draft.fillBool filters queries body = .ok filled)
    (hbefore : ∀ rest, draft.base.scope ("query" :: "bool" :: rest) = Object.scope body rest)
    (hafter : ∀ rest, request.scope ("query" :: "bool" :: rest) = Object.scope filled rest) :
    draft.Thresholds request := by
  obtain ⟨filtered, hfiltered, rfl⟩ := fillBool_ok hfilled
  have hfilterOr : draft.filters.or = [] ↔ filters.or = [] :=
    hbuilt.get_eq_nil_iff .filter .or
  have hkept : ∀ key, key ≠ "filter" → key ≠ "must_not" →
      filtered.get? key = body.get? key :=
    fun key => hfiltered.get?_of_ne hbuilt.or_of_simple
  have hfilter : (addGroups false draft.queryThreshold queries filtered).get? "filter" =
      filtered.get? "filter" :=
    (appends_addGroups draft.queryThreshold queries filtered).other "filter" (by decide)
  refine ⟨fun hbelow => absurd hbelow hplace, ?_, or_eq_nil_of_simple, ?_, ?_⟩
  · intro _
    rw [hbefore, hafter]
    have hlaw := thresholdLaw_addGroups false draft.queryThreshold
      (hbuilt.get_eq_nil_iff .query .or) filtered
    exact hlaw.congr_before (hkept _ (by decide) (by decide)) (hkept _ (by decide) (by decide))
  · intro _ hsimple harray
    rw [hbefore] at harray
    rw [hbefore, hafter, Object.scope_congr hfilter]
    cases hfiltered with
    | simple htrue => simp [hsimple] at htrue
    | nothing _ hnone =>
      exact .of_same (hfilterOr.2 (ByMode.toList_eq_nil_iff.1 hnone .or)) rfl
    | array values _ _ hvalues => exact absurd hvalues (harray values)
    | object outer inner _ _ _ houter hinner =>
      have hscope : Object.scope body ["filter", "bool"] = inner := by
        rw [Object.scope_cons houter, Object.scope_cons hinner]
        rfl
      rw [hscope, Object.scope_cons (Object.objectAt?_insert ..),
        Object.scope_cons (Object.objectAt?_insert ..)]
      exact thresholdLaw_addGroups false draft.filterThreshold hfilterOr inner
  · intro _ hsimple values hvalues
    rw [hbefore] at hvalues
    change body.get? "filter" = some (.array values) at hvalues
    rw [hafter]
    change ∃ added, (addGroups false draft.queryThreshold queries filtered).get? "filter" = _ ∧ _
    rw [hfilter]
    cases hfiltered with
    | simple htrue => simp [hsimple] at htrue
    | nothing _ hnone =>
      refine ⟨[], by rw [hvalues, List.append_nil], ?_, ?_⟩
      · intro element helement
        simp at helement
      · intro hsome
        exact absurd (hfilterOr.2 (ByMode.toList_eq_nil_iff.1 hnone .or)) hsome
    | array found _ _ hfound =>
      obtain rfl : values = found := by simpa [hvalues] using hfound
      exact ⟨_, Keyed.get?_insert_self .., hbuilt.filterElements_thresholds⟩
    | object _ _ _ _ harray => exact absurd hvalues (harray values)

/-- A draft that is rendered, if not as a lone query, has each threshold in the scope of its
family if it is set, the family has alternatives, and there are several in that scope. Else
the scope has what the base has there. -/
theorem thresholds_of_render {draft : Draft} (hraw : "query" ∉ Keyed.keys draft.rawOptions)
    (hlone : ¬ ∃ clause, draft.HoldsLoneQuery clause) {object : Object}
    (h : draft.render = .ok object) :
    ∃ request, draft.uncut = .ok request ∧ draft.cut request = .ok object ∧
      draft.Thresholds request := by
  obtain ⟨filters, queries, written, request, hbuilt, hwritten, huncut, hcut, hquery⟩ :=
    exists_uncut hraw h
  refine ⟨request, huncut, hcut, ?_⟩
  cases hwritten with
  | lone built hroot hbase hfilters hqueries =>
    subst hfilters hqueries
    exact absurd (hbuilt.exists_loneQuery hroot hbase) hlone
  | nothing hfilters hqueries =>
    subst hfilters hqueries
    exact .of_same_query (hbuilt.filters_empty_iff.2 rfl) (hbuilt.queries_empty_iff.2 rfl) hquery
  | inQuery query hplace _ _ hbase =>
    have hbefore : draft.base.scope ["query"] = query := by
      rw [Object.scope_cons hbase]
      rfl
    have hafter : request.scope ["query"] =
        addGroups draft.simpleFilter draft.filterThreshold filters query := by
      rw [Object.scope_congr hquery, Object.scope_cons (Object.objectAt?_insert ..)]
      rfl
    refine ⟨?_, fun habove => absurd hplace habove, or_eq_nil_of_simple,
      fun habove => absurd hplace habove, fun habove => absurd hplace habove⟩
    intro _
    rw [hbefore, hafter]
    exact thresholdLaw_addGroups _ _ (hbuilt.get_eq_nil_iff .filter .or) query
  | inBool query body filled hplace _ _ hbase hbody hfilled =>
    refine .of_fillBool hbuilt hplace hfilled ?_ ?_
    · intro rest
      rw [Object.scope_cons hbase, Object.scope_cons hbody]
    · intro rest
      rw [Object.scope_congr hquery, Object.scope_cons (Object.objectAt?_insert ..),
        Object.scope_cons (Object.objectAt?_insert ..)]

def bothThresholds : Draft :=
  let test (name : String) : Clause := { kind := "exists", payload := .field name }
  let present (name : String) : Value :=
    .object (Keyed.single "exists" (.object (Keyed.single "field" (.string name))))
  { base := Keyed.single "query" (.object (Keyed.single "bool" (.object
      [("should", present "a"), ("filter", .array [present "b"])])))
    filters := ⟨[], [test "c", test "d"], []⟩
    queries := ⟨[], [test "e"], []⟩
    filterThreshold := some 1
    queryThreshold := some 2 }

theorem thresholds_of_render_both :
    ∃ request, bothThresholds.uncut = .ok request ∧ bothThresholds.Thresholds request ∧
      (request.scope ["query", "bool"]).get? "minimum_should_match" = some (.int 2) := by
  obtain ⟨object, hobject⟩ : ∃ object, bothThresholds.render = .ok object := ⟨_, rfl⟩
  have hlone : ¬ ∃ clause, bothThresholds.HoldsLoneQuery clause := by
    rintro ⟨clause, -, hbase, -⟩
    cases hbase
  obtain ⟨request, hrequest, -, hlaw⟩ := thresholds_of_render (by decide) hlone hobject
  refine ⟨request, hrequest, hlaw, ?_⟩
  apply (hlaw.queries (by decide)).written 2 rfl
  · intro hnone
    cases hnone
  · obtain rfl := Except.ok.inj hrequest
    left
    decide

def aloneInArray : Draft :=
  { base := Keyed.single "query" (.object (Keyed.single "bool" (.object
      (Keyed.single "should" (.array [])))))
    queries := ⟨[], [{ kind := "exists", payload := .field "a" }], []⟩
    queryThreshold := some 2 }

/-- An alternative that is alone does not always leave the threshold as it was. -/
theorem thresholds_not_only_for_several :
    ¬ ∀ (draft : Draft) (request object : Object), draft.placement ≠ .inFilter →
      "query" ∉ Keyed.keys draft.rawOptions → (¬ ∃ clause, draft.HoldsLoneQuery clause) →
      draft.uncut = .ok request → draft.render = .ok object →
      ¬ (draft.queryThreshold ≠ none ∧ draft.queries.or ≠ [] ∧
        2 ≤ ((request.scope ["query", "bool"]).itemsAt "should").length) →
        (request.scope ["query", "bool"]).get? "minimum_should_match" =
          (draft.base.scope ["query", "bool"]).get? "minimum_should_match" := by
  intro h
  have hlone : ¬ ∃ clause, aloneInArray.HoldsLoneQuery clause := by
    rintro ⟨clause, -, hbase, -⟩
    cases hbase
  have hkept := h aloneInArray _ _ (by decide) (by decide) hlone rfl rfl ?_
  · cases hkept
  · rintro ⟨-, -, hmany⟩
    revert hmany
    decide

end Draft

end SearchQuery
