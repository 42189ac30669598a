import SearchQuery.Proofs.Accumulation

/-!
What a draft does to a well-formed base. A clause is an object with one key, and the slots
of a bool clause hold clauses only. Groups of clauses keep that wherever they are written,
and a bool clause of their own for filters is made new or is one already, but for one case:
a filter of the base that stands alone, is no array and is of another kind gets the key of
a bool clause beside its own one.
-/
namespace SearchQuery

/-- Whether a value is a clause, which has its kind for its only key. -/
def Value.isClause : Value → Bool
  | .object [_] => true
  | _ => false

def Object.isTest : Object → Bool
  | [(kind, _)] => kind != "bool"
  | _ => false

def Object.HoldsClauses (body : Object) : Prop :=
  ∀ key ∈ boolKeys, ∀ item ∈ body.itemsAt key, item.isClause = true

/-- A clause that can stand under a filter: if it is a bool clause, it holds clauses. -/
structure Value.IsFilter (item : Value) : Prop where
  clause : item.isClause = true
  below : ∀ inner, item = .object (Keyed.single "bool" inner) →
    ∃ body : Object, inner = .object body ∧ body.HoldsClauses

/-- The well-formed body of a bool clause, down to the bool clauses directly under its
filter. -/
structure Object.WellFormed (body : Object) : Prop where
  holds : body.HoldsClauses
  filters : ∀ item ∈ body.itemsAt "filter", item.IsFilter

def Value.IsQuery (query : Value) : Prop :=
  ∃ kind inner, query = .object (Keyed.single kind inner) ∧
    (kind = "bool" → ∃ body, inner = .object body ∧ Object.WellFormed body)

theorem ne_threshold_of_mem_boolKeys {key : String} (h : key ∈ boolKeys) :
    key ≠ "minimum_should_match" := by
  rintro rfl
  revert h
  decide

theorem Value.isClause_object_iff {o : Object} :
    (Value.object o).isClause = true ↔ ∃ kind inner, o = Keyed.single kind inner := by
  match o with
  | [] => simp [isClause, Keyed.single]
  | [(kind, inner)] => simp [isClause, Keyed.single]
  | _ :: _ :: _ => simp [isClause, Keyed.single]

namespace Object

theorem isTest_single_iff {kind : String} {inner : Value} :
    isTest (Keyed.single kind inner) = true ↔ kind ≠ "bool" := by
  simp [isTest, Keyed.single]

theorem isClause_of_isTest {o : Object} (h : o.isTest = true) :
    (Value.object o).isClause = true := by
  unfold isTest at h
  split at h
  · rfl
  · simp at h

theorem exists_kind_of_isTest {o : Object} (h : o.isTest = true) :
    ∃ kind inner, o = Keyed.single kind inner ∧ kind ≠ "bool" := by
  obtain ⟨kind, inner, rfl⟩ := Value.isClause_object_iff.1 (isClause_of_isTest h)
  exact ⟨kind, inner, rfl, isTest_single_iff.1 h⟩

/-- A clause that is no test is a bool clause. -/
theorem eq_bool_of_isClause {o : Object} (h : (Value.object o).isClause = true)
    (htest : ¬ o.isTest = true) : ∃ inner, o = Keyed.single "bool" inner := by
  obtain ⟨kind, inner, rfl⟩ := Value.isClause_object_iff.1 h
  obtain rfl : kind = "bool" := Decidable.not_not.1 (mt isTest_single_iff.2 htest)
  exact ⟨inner, rfl⟩

/-- A test that takes a bool clause in is a clause no longer. -/
theorem not_isClause_insert {test : Object} (h : test.isTest = true) (inner : Value) :
    (Value.object (test.insert "bool" inner)).isClause = false := by
  obtain ⟨kind, value, rfl, hkind⟩ := exists_kind_of_isTest h
  simp [Keyed.single, Keyed.insert, hkind, Value.isClause]

theorem isFilter_of_isTest {test : Object} (h : test.isTest = true) :
    (Value.object test).IsFilter where
  clause := isClause_of_isTest h
  below := by
    intro inner hinner
    obtain rfl := Value.object.inj hinner
    exact absurd rfl (isTest_single_iff.1 h)

theorem HoldsClauses.isFilter {body : Object} (h : body.HoldsClauses) :
    (Value.object (Keyed.single "bool" (.object body))).IsFilter where
  clause := rfl
  below := by
    intro inner hinner
    have hbody : inner = .object body := by simpa [Keyed.single] using hinner.symm
    exact ⟨body, hbody, h⟩

end Object

theorem isQuery_of_isTest {test : Object} (h : test.isTest = true) :
    (Value.object test).IsQuery := by
  obtain ⟨kind, inner, rfl, hkind⟩ := Object.exists_kind_of_isTest h
  exact ⟨kind, inner, rfl, fun hbool => absurd hbool hkind⟩

theorem isQuery_bool_iff {body : Object} :
    (Value.object (Keyed.single "bool" (.object body))).IsQuery ↔ body.WellFormed := by
  constructor
  · rintro ⟨kind, inner, hquery, hbool⟩
    obtain ⟨rfl, rfl⟩ : kind = "bool" ∧ inner = .object body := by
      simpa [Keyed.single] using hquery.symm
    obtain ⟨found, hfound, hwell⟩ := hbool rfl
    obtain rfl := Value.object.inj hfound
    exact hwell
  · intro h
    exact ⟨"bool", _, rfl, fun _ => ⟨body, rfl, h⟩⟩

/-- A slot holds after writing what it held before and what was written. -/
theorem mem_itemsAt_addGroup {key slot : String} (hkey : key ≠ "minimum_should_match")
    {threshold : Option Int64} {objects : List Object} {target : Object} {item : Value}
    (h : item ∈ (addGroup slot threshold objects target).itemsAt key) :
    item ∈ target.itemsAt key ∨ ∃ object ∈ objects, item = .object object := by
  by_cases hslot : key = slot
  · subst hslot
    rw [itemsAt_addGroup hkey, List.mem_append] at h
    rcases h with hold | hnew
    · exact .inl hold
    · obtain ⟨object, hobject, rfl⟩ := List.mem_map.1 hnew
      exact .inr ⟨object, hobject, rfl⟩
  · rw [itemsAt_addGroup_of_ne hslot hkey] at h
    exact .inl h

namespace Object

theorem holdsClauses_nil : HoldsClauses [] := by
  intro key _ item hitem
  simp [itemsAt] at hitem

theorem wellFormed_nil : WellFormed [] where
  holds := holdsClauses_nil
  filters := by
    intro item hitem
    simp [itemsAt] at hitem

section Groups

variable {body : Object} {objects : List Object} {groups : ByMode Object}

theorem HoldsClauses.addGroup (h : body.HoldsClauses)
    (hobjects : ∀ object ∈ objects, isTest object = true) (slot : String)
    (threshold : Option Int64) :
    HoldsClauses (SearchQuery.addGroup slot threshold objects body) := by
  intro key hkey item hitem
  rcases mem_itemsAt_addGroup (ne_threshold_of_mem_boolKeys hkey) hitem with hold | hnew
  · exact h key hkey item hold
  · obtain ⟨object, hobject, rfl⟩ := hnew
    exact isClause_of_isTest (hobjects object hobject)

theorem HoldsClauses.addGroups (h : body.HoldsClauses)
    (hgroups : ∀ mode, ∀ object ∈ groups.get mode, isTest object = true) (simpleFilter : Bool)
    (threshold : Option Int64) :
    HoldsClauses (SearchQuery.addGroups simpleFilter threshold groups body) := by
  rw [addGroups_eq]
  have hand := h.addGroup (hgroups .and) (Mode.and.boolKey simpleFilter) threshold
  have hor := hand.addGroup (hgroups .or) (Mode.or.boolKey simpleFilter) threshold
  exact hor.addGroup (hgroups .not) (Mode.not.boolKey simpleFilter) threshold

/-- Tests can be written into any slot of a well-formed body, also beside its filters. -/
theorem WellFormed.addGroup (h : body.WellFormed)
    (hobjects : ∀ object ∈ objects, isTest object = true) (slot : String)
    (threshold : Option Int64) :
    WellFormed (SearchQuery.addGroup slot threshold objects body) where
  holds := h.holds.addGroup hobjects slot threshold
  filters := by
    intro item hitem
    rcases mem_itemsAt_addGroup (by decide) hitem with hold | hnew
    · exact h.filters item hold
    · obtain ⟨object, hobject, rfl⟩ := hnew
      exact isFilter_of_isTest (hobjects object hobject)

theorem WellFormed.addGroups (h : body.WellFormed)
    (hgroups : ∀ mode, ∀ object ∈ groups.get mode, isTest object = true) (simpleFilter : Bool)
    (threshold : Option Int64) :
    WellFormed (SearchQuery.addGroups simpleFilter threshold groups body) := by
  rw [addGroups_eq]
  have hand := h.addGroup (hgroups .and) (Mode.and.boolKey simpleFilter) threshold
  have hor := hand.addGroup (hgroups .or) (Mode.or.boolKey simpleFilter) threshold
  exact hor.addGroup (hgroups .not) (Mode.not.boolKey simpleFilter) threshold

end Groups

theorem WellFormed.insert_filter {body : Object} (h : body.WellFormed) {value : Value}
    (hvalue : ∀ item ∈ value.items, item.IsFilter) :
    WellFormed (body.insert "filter" value) where
  holds := by
    intro key hkey item hitem
    by_cases hfilter : key = "filter"
    · subst hfilter
      rw [itemsAt_insert] at hitem
      exact (hvalue item hitem).clause
    · rw [itemsAt_congr (Keyed.get?_insert_of_ne body value hfilter)] at hitem
      exact h.holds key hkey item hitem
  filters := by
    intro item hitem
    rw [itemsAt_insert] at hitem
    exact hvalue item hitem

def HasTestFilter (body : Object) : Prop :=
  ∃ test : Object, test.isTest = true ∧ body.get? "filter" = some (.object test)

/-- A single clause under the filter is a bool clause that holds clauses, if it is no test. -/
theorem WellFormed.exists_bool_filter {body filter : Object} (h : body.WellFormed)
    (hfilter : body.get? "filter" = some (.object filter)) (hfree : ¬ body.HasTestFilter) :
    ∃ inner : Object, filter = Keyed.single "bool" (.object inner) ∧ inner.HoldsClauses := by
  have hmem : Value.object filter ∈ body.itemsAt "filter" := by
    rw [itemsAt, hfilter]
    exact List.mem_singleton_self _
  have hclause := h.filters _ hmem
  have htest : ¬ filter.isTest = true := fun htest => hfree ⟨filter, htest, hfilter⟩
  obtain ⟨inner, rfl⟩ := eq_bool_of_isClause hclause.clause htest
  obtain ⟨innerBody, rfl, hholds⟩ := hclause.below inner rfl
  exact ⟨innerBody, rfl, hholds⟩

end Object

namespace Draft

/-- Whether a draft has filters that are not written the simple way, where its base has a
single test under the filter. -/
def CrowdsFilter (draft : Draft) : Prop :=
  draft.has .filter none = true ∧ draft.simpleFilter = false ∧
    (draft.base.scope ["query", "bool"]).HasTestFilter

def HasTestsOnly (draft : Draft) : Prop :=
  ∀ family mode, ∀ clause ∈ (draft.clauses family).get mode,
    clause.nested = none ∧ clause.kind ≠ "bool"

def HasWellFormedBase (draft : Draft) : Prop :=
  ∀ query, draft.base.get? "query" = some query →
    ∃ body : Object, query = .object (Keyed.single "bool" (.object body)) ∧ body.WellFormed

theorem Built.isTest {draft : Draft} {filters queries : ByMode Object}
    (h : draft.Built filters queries) (htests : draft.HasTestsOnly) (family : Family)
    (mode : Mode) :
    ∀ object ∈ (byFamily filters queries family).get mode, Object.isTest object = true := by
  intro object hobject
  obtain ⟨clause, hclause, hrender⟩ := h.exists_clause hobject
  obtain ⟨hnested, hkind⟩ := htests family mode clause hclause
  rw [Clause.render_eq, hnested] at hrender
  obtain rfl := Except.ok.inj hrender
  exact Object.isTest_single_iff.2 hkind

/-- Filters leave a well-formed body so, where they do not have to go beside a test. -/
theorem Filtered.wellFormed {draft : Draft} {filters : ByMode Object}
    {body filtered : Object} (h : draft.Filtered filters body filtered)
    (hbody : body.WellFormed)
    (htests : ∀ mode, ∀ object ∈ filters.get mode, Object.isTest object = true)
    (hfree : ¬ (filters.toList ≠ [] ∧ draft.simpleFilter = false ∧ body.HasTestFilter)) :
    filtered.WellFormed := by
  cases h with
  | simple => exact hbody.addGroups htests ..
  | nothing => exact hbody
  | array values _ _ hvalues =>
    apply hbody.insert_filter
    intro item hitem
    rcases List.mem_append.1 hitem with hold | hnew
    · apply hbody.filters
      rw [Object.itemsAt, hvalues]
      exact hold
    · obtain ⟨mode, -, rfl⟩ := mem_filterElements_iff.1 hnew
      exact (Object.holdsClauses_nil.addGroup (htests mode) _ _).isFilter
  | object outer inner hsimple hsome harray houter hinner =>
    apply hbody.insert_filter
    intro item hitem
    obtain rfl := List.mem_singleton.1 hitem
    unfold Object.objectAt? at houter
    split at houter
    · obtain rfl := Option.some.inj houter
      obtain rfl := Option.some.inj hinner
      exact (Object.holdsClauses_nil.addGroups htests _ _).isFilter
    · next found hfound =>
      obtain rfl := Option.some.inj houter
      have htest : ¬ body.HasTestFilter := fun htest => hfree ⟨hsome, hsimple, htest⟩
      obtain ⟨present, rfl, hholds⟩ := hbody.exists_bool_filter hfound htest
      obtain rfl : present = inner := Option.some.inj hinner
      exact (hholds.addGroups htests _ _).isFilter
    · simp at houter

/-- All clauses of a draft leave a well-formed body so exactly if no filters have to go
beside a test. -/
theorem wellFormed_fillBool_iff {draft : Draft} {filters queries : ByMode Object}
    {body filled : Object} (h : draft.fillBool filters queries body = .ok filled)
    (hbody : body.WellFormed)
    (hfilters : ∀ mode, ∀ object ∈ filters.get mode, Object.isTest object = true)
    (hqueries : ∀ mode, ∀ object ∈ queries.get mode, Object.isTest object = true) :
    filled.WellFormed ↔
      ¬ (filters.toList ≠ [] ∧ draft.simpleFilter = false ∧ body.HasTestFilter) := by
  obtain ⟨filtered, hfiltered, rfl⟩ := fillBool_ok h
  constructor
  · rintro hwell ⟨hsome, hsimple, test, htest, hfilter⟩
    have hslot : (addGroups false draft.queryThreshold queries filtered).get? "filter" =
        filtered.get? "filter" :=
      (appends_addGroups draft.queryThreshold queries filtered).other "filter" (by decide)
    cases hfiltered with
    | simple htrue => simp [hsimple] at htrue
    | nothing _ hnone => exact hsome hnone
    | array values _ _ hvalues => simp [hfilter] at hvalues
    | object outer inner _ _ _ houter =>
      obtain rfl : test = outer := by simpa [Object.objectAt?, hfilter] using houter
      rw [Keyed.get?_insert_self] at hslot
      have hclause := (hwell.filters _ (by
        rw [Object.itemsAt, hslot]
        exact List.mem_singleton_self _)).clause
      rw [Object.not_isClause_insert htest] at hclause
      cases hclause
  · intro hfree
    exact (hfiltered.wellFormed hbody hfilters hfree).addGroups hqueries ..

/-- The bool clause that clauses are written into is well-formed, and the query has nothing
else in it. -/
theorem HasWellFormedBase.body {draft : Draft} (h : draft.HasWellFormedBase)
    {query body : Object} (hquery : draft.base.objectAt? "query" = some query)
    (hbody : query.objectAt? "bool" = some body) :
    body.WellFormed ∧ ∀ value, query.insert "bool" value = Keyed.single "bool" value := by
  unfold Object.objectAt? at hquery
  split at hquery
  · obtain rfl := Option.some.inj hquery
    obtain rfl := Option.some.inj hbody
    exact ⟨Object.wellFormed_nil, fun _ => rfl⟩
  · next found hfound =>
    obtain rfl := Option.some.inj hquery
    obtain ⟨present, heq, hwell⟩ := h _ hfound
    obtain rfl := Value.object.inj heq
    obtain rfl : present = body := Option.some.inj hbody
    exact ⟨hwell, fun _ => rfl⟩
  · simp at hquery

/-- A root draft of tests without a raw query, whose base has no query or a well-formed bool
clause for it, is rendered with a well-formed query, if with any, exactly if no filters have
to go beside a test of the base. -/
theorem isQuery_of_render_iff {draft : Draft} (hroot : draft.placement = .root)
    (hraw : "query" ∉ Keyed.keys draft.rawOptions) (htests : draft.HasTestsOnly)
    (hbase : draft.HasWellFormedBase) {object : Object} (h : draft.render = .ok object)
    {query : Value} (hquery : object.get? "query" = some query) :
    query.IsQuery ↔ ¬ draft.CrowdsFilter := by
  obtain ⟨filters, queries, written, hbuilt, hwritten, hfinish⟩ := render_ok h
  rw [get?_query_finish_root hroot hraw hfinish] at hquery
  have hfilters : draft.has .filter none = true ↔ filters.toList ≠ [] := hbuilt.has_iff .filter
  have hnone : filters = {} → ¬ draft.CrowdsFilter := by
    rintro rfl ⟨hsome, -⟩
    exact hfilters.1 hsome rfl
  cases hwritten with
  | lone built _ _ hempty hqueries =>
    subst hempty hqueries
    refine iff_of_true ?_ (hnone rfl)
    rw [Keyed.get?_insert_self] at hquery
    obtain rfl := Option.some.inj hquery
    exact isQuery_of_isTest (hbuilt.isTest htests .query .and built (List.mem_singleton_self _))
  | nothing hempty =>
    refine iff_of_true ?_ (hnone hempty)
    obtain ⟨present, rfl, hwell⟩ := hbase query hquery
    exact isQuery_bool_iff.2 hwell
  | inQuery _ hbelow =>
    rw [hroot] at hbelow
    cases hbelow
  | inBool found body filled _ _ _ hfound hbody hfilled =>
    obtain ⟨hwell, hinsert⟩ := hbase.body hfound hbody
    rw [Keyed.get?_insert_self, hinsert] at hquery
    obtain rfl := Option.some.inj hquery
    have hscope : draft.base.scope ["query", "bool"] = body := by
      rw [Object.scope_cons hfound, Object.scope_cons hbody]
      rfl
    rw [CrowdsFilter, hscope, hfilters, isQuery_bool_iff]
    exact wellFormed_fillBool_iff hfilled hwell (hbuilt.isTest htests .filter)
      (hbuilt.isTest htests .query)

def besideFilter (filter : Object) : Draft :=
  { base := Keyed.single "query" (.object (Keyed.single "bool" (.object
      (Keyed.single "filter" (.object filter)))))
    filters := ⟨[], [{ kind := "term", payload := .fieldValue "b" (.int 2) }], []⟩ }

def termTest : Object := Keyed.single "term" (.object (Keyed.single "a" (.int 1)))

theorem hasTestsOnly_besideFilter (filter : Object) : (besideFilter filter).HasTestsOnly := by
  intro family mode clause hclause
  cases family with
  | filter =>
    cases mode with
    | or =>
      obtain rfl := List.mem_singleton.1 hclause
      exact ⟨rfl, by decide⟩
    | _ => cases hclause
  | query => cases mode <;> cases hclause

theorem hasWellFormedBase_besideFilter {filter : Object} (h : (Value.object filter).IsFilter) :
    (besideFilter filter).HasWellFormedBase := by
  intro query hquery
  obtain rfl := Option.some.inj hquery
  refine ⟨_, rfl, Object.wellFormed_nil.insert_filter ?_⟩
  intro item hitem
  obtain rfl := List.mem_singleton.1 hitem
  exact h

/-- A filter that is a bool clause takes the alternative in. -/
theorem isQuery_of_render_iff_boolFilter :
    ∃ object query, (besideFilter (Keyed.single "bool" (.object []))).render = .ok object ∧
      object.get? "query" = some query ∧ query.IsQuery := by
  have hbase := hasWellFormedBase_besideFilter Object.holdsClauses_nil.isFilter
  obtain ⟨object, hobject⟩ : ∃ object,
    (besideFilter (Keyed.single "bool" (.object []))).render = .ok object := ⟨_, rfl⟩
  obtain ⟨query, hquery⟩ : ∃ query, object.get? "query" = some query := by
    obtain rfl := Except.ok.inj hobject
    exact ⟨_, rfl⟩
  refine ⟨object, query, hobject, hquery, ?_⟩
  apply (isQuery_of_render_iff rfl (by decide) (hasTestsOnly_besideFilter _) hbase hobject
    hquery).2
  rintro ⟨-, -, test, htest, hfilter⟩
  obtain rfl := Value.object.inj (Option.some.inj hfilter)
  cases htest

/-- A filter that is a test gets a second key, and the query is well-formed no longer. -/
theorem isQuery_not_always_rendered :
    ¬ ∀ (draft : Draft) (object : Object) (query : Value), draft.placement = .root →
      "query" ∉ Keyed.keys draft.rawOptions → draft.HasTestsOnly → draft.HasWellFormedBase →
      draft.render = .ok object → object.get? "query" = some query → query.IsQuery := by
  intro h
  have htest : termTest.isTest = true := rfl
  have hbase := hasWellFormedBase_besideFilter (Object.isFilter_of_isTest htest)
  have hquery := h (besideFilter termTest) _ _ rfl (by decide)
    (hasTestsOnly_besideFilter _) hbase rfl rfl
  have hclause := (isQuery_bool_iff.1 hquery).holds "filter" (by decide) _
    (List.mem_singleton_self _)
  cases hclause

end Draft

end SearchQuery
