import SearchQuery.Proofs.Assembly

/-!
What a rendered draft holds, key by key. Apart from the lone query, every clause is found
behind what the base has under the key of its group, in the order in which the clauses
were added, and nothing else in the bool clause of the query has changed. Filters that get
a bool clause of their own follow the same law one level deeper.
-/
namespace SearchQuery

/-- The law for one family of clauses that is written into a bool clause: each group comes
behind the clauses that were under its key, the threshold is set where alternatives have
left an array, and other keys keep their values. -/
structure Appends (threshold : Option Int64) (groups : ByMode Object)
    (before after : Object) : Prop where
  items : ∀ mode : Mode, after.itemsAt (mode.boolKey false) =
    before.itemsAt (mode.boolKey false) ++ (groups.get mode).map Value.object
  threshold : after.get? "minimum_should_match" =
    if groups.or ≠ [] ∧ (after.get? "should").any Value.isArray then
      (threshold.map fun count => Value.int count.toInt).or (before.get? "minimum_should_match")
    else before.get? "minimum_should_match"
  other : ∀ key, key ∉ ["must", "should", "must_not", "minimum_should_match"] →
    after.get? key = before.get? key

theorem appends_addGroups (threshold : Option Int64) (groups : ByMode Object)
    (target : Object) :
    Appends threshold groups target (addGroups false threshold groups target) where
  items := itemsAt_addGroups false threshold groups target
  threshold := get?_threshold_addGroups false threshold groups target
  other := by
    intro key hkey
    simp only [List.mem_cons, List.not_mem_nil, not_or, or_false] at hkey
    obtain ⟨hmust, hshould, hnot, hthreshold⟩ := hkey
    refine get?_addGroups_of_ne ?_ hthreshold threshold groups target
    intro mode
    cases mode
    · exact hmust
    · exact hshould
    · exact hnot

def groupBody (threshold : Option Int64) (mode : Mode) (objects : List Object) : Object :=
  (mode.boolKey false, Draft.collapse objects) ::
    if mode = .or ∧ 2 ≤ objects.length then
      (threshold.map fun count => ("minimum_should_match", Value.int count.toInt)).toList
    else []

theorem addGroup_nil (threshold : Option Int64) (mode : Mode) {objects : List Object}
    (h : objects ≠ []) :
    addGroup (mode.boolKey false) threshold objects [] = groupBody threshold mode objects := by
  match objects with
  | [] => exact absurd rfl h
  | [object] => cases threshold <;> cases mode <;> rfl
  | _ :: _ :: _ => cases threshold <;> cases mode <;> simp [groupBody] <;> rfl

/-- The elements that filters leave at the end of an array: one for each group that is not
empty, in the order of the modes. -/
theorem filterElements_eq (threshold : Option Int64) (filters : ByMode Object) :
    filterElements threshold filters = Mode.all.filterMap fun mode =>
      if (filters.get mode).isEmpty then none
      else some (.object (Keyed.single "bool"
        (.object (groupBody threshold mode (filters.get mode))))) := by
  rw [filterElements, familyWrites, List.map_filterMap]
  congr 1
  funext mode
  by_cases h : (filters.get mode).isEmpty
  · simp [h]
  · have hsome : filters.get mode ≠ [] := by simpa using h
    simp [h, addGroup_nil threshold mode hsome]

namespace Draft

/-- The law for all clauses of a draft, from the bool clause of the base to the one that
the draft is rendered with. -/
structure Accumulates (draft : Draft) (filters queries : ByMode Object)
    (before after : Object) : Prop where
  must : after.itemsAt "must" = before.itemsAt "must" ++ queries.and.map Value.object
  should : after.itemsAt "should" = before.itemsAt "should" ++ queries.or.map Value.object
  must_not : after.itemsAt "must_not" = before.itemsAt "must_not" ++
    (if draft.simpleFilter then filters.not.map Value.object else []) ++
      queries.not.map Value.object
  exclusive : draft.simpleFilter = true → filters.not = [] ∨ queries.not = []
  simple : draft.simpleFilter = true → filters.or = [] ∧
    after.itemsAt "filter" = before.itemsAt "filter" ++ filters.and.map Value.object
  nothing : filters.toList = [] → after.get? "filter" = before.get? "filter"
  /-- An array of filters gets one bool clause for each group that is not empty. -/
  array : draft.simpleFilter = false → filters.toList ≠ [] → ∀ values,
    before.get? "filter" = some (.array values) →
      after.get? "filter" = some (.array (values ++ Mode.all.filterMap fun mode =>
        if (filters.get mode).isEmpty then none
        else some (.object (Keyed.single "bool"
          (.object (groupBody draft.filterThreshold mode (filters.get mode)))))))
  /-- Any other filter is an object, and the groups go into its bool clause. -/
  object : draft.simpleFilter = false → filters.toList ≠ [] →
    (∀ values, before.get? "filter" ≠ some (.array values)) →
      ∃ outer inner written, before.objectAt? "filter" = some outer ∧
        outer.objectAt? "bool" = some inner ∧
        after.get? "filter" = some (.object (outer.insert "bool" (.object written))) ∧
        Appends draft.filterThreshold filters inner written
  threshold : after.get? "minimum_should_match" =
    if queries.or ≠ [] ∧ (after.get? "should").any Value.isArray then
      (draft.queryThreshold.map fun count => Value.int count.toInt).or
        (before.get? "minimum_should_match")
    else before.get? "minimum_should_match"
  other : ∀ key, key ∉ ["must", "should", "must_not", "filter", "minimum_should_match"] →
    after.get? key = before.get? key

theorem Built.get_eq_nil_iff {draft : Draft} {filters queries : ByMode Object}
    (h : draft.Built filters queries) (family : Family) (mode : Mode) :
    (draft.clauses family).get mode = [] ↔ (byFamily filters queries family).get mode = [] := by
  rw [← List.map_eq_nil_iff (f := Clause.render), h.get_eq, List.map_eq_nil_iff]

/-- Filters are written the simple way if one is required and there are no others, or if
there are neither alternatives among them nor queries. -/
theorem Built.simple_cases {draft : Draft} {filters queries : ByMode Object}
    (h : draft.Built filters queries) (hsimple : draft.simpleFilter = true) :
    (∃ object, filters = ⟨[object], [], []⟩) ∨ filters.or = [] ∧ queries = {} := by
  simp only [simpleFilter, Bool.or_eq_true, Bool.and_eq_true, List.isEmpty_iff,
    Bool.not_eq_true', has_none_eq_false] at hsimple
  rcases hsimple with hone | ⟨⟨hor, hqueries⟩, -⟩
  · rw [← ByMode.onlyOneAnd_map Clause.render, h.filters_eq, ByMode.onlyOneAnd_map] at hone
    exact .inl (ByMode.onlyOneAnd_iff.1 hone)
  · exact .inr ⟨(h.get_eq_nil_iff .filter .or).1 hor,
      ByMode.eq_empty (h.queries_empty_iff.1 hqueries)⟩

theorem Built.or_of_simple {draft : Draft} {filters queries : ByMode Object}
    (h : draft.Built filters queries) (hsimple : draft.simpleFilter = true) :
    filters.or = [] := by
  obtain ⟨object, rfl⟩ | ⟨hor, -⟩ := h.simple_cases hsimple
  · rfl
  · exact hor

theorem Built.not_of_simple {draft : Draft} {filters queries : ByMode Object}
    (h : draft.Built filters queries) (hsimple : draft.simpleFilter = true) :
    filters.not = [] ∨ queries.not = [] := by
  obtain ⟨object, rfl⟩ | ⟨-, rfl⟩ := h.simple_cases hsimple
  · exact .inl rfl
  · exact .inr rfl

/-- Written the simple way without alternatives, filters touch two slots only. -/
theorem get?_addGroups_simple {filters : ByMode Object} (hor : filters.or = []) {key : String}
    (hfilter : key ≠ "filter") (hnot : key ≠ "must_not") (threshold : Option Int64)
    (body : Object) : (addGroups true threshold filters body).get? key = body.get? key := by
  by_cases hkey : key = "minimum_should_match"
  · rw [hkey, get?_threshold_addGroups, if_neg (by simp [hor])]
  · rw [addGroups_eq, hor]
    exact (get?_addGroup_of_ne hnot hkey ..).trans (get?_addGroup_of_ne hfilter hkey ..)

theorem Filtered.get?_of_ne {draft : Draft} {filters : ByMode Object} {body filtered : Object}
    (h : draft.Filtered filters body filtered)
    (hor : draft.simpleFilter = true → filters.or = []) {key : String}
    (hfilter : key ≠ "filter") (hnot : key ≠ "must_not") :
    filtered.get? key = body.get? key := by
  cases h with
  | simple hsimple => exact get?_addGroups_simple (hor hsimple) hfilter hnot ..
  | nothing => rfl
  | array => exact Keyed.get?_insert_of_ne _ _ hfilter
  | object => exact Keyed.get?_insert_of_ne _ _ hfilter

theorem Filtered.itemsAt_must_not {draft : Draft} {filters : ByMode Object}
    {body filtered : Object} (h : draft.Filtered filters body filtered) :
    filtered.itemsAt "must_not" = body.itemsAt "must_not" ++
      if draft.simpleFilter then filters.not.map Value.object else [] := by
  have hne : "must_not" ≠ "filter" := by decide
  cases h with
  | simple hsimple =>
    rw [if_pos hsimple]
    exact itemsAt_addGroups true draft.filterThreshold filters body .not
  | nothing hsimple => simp [hsimple]
  | array _ hsimple =>
    rw [Object.itemsAt_congr (Keyed.get?_insert_of_ne body _ hne)]
    simp [hsimple]
  | object _ _ hsimple =>
    rw [Object.itemsAt_congr (Keyed.get?_insert_of_ne body _ hne)]
    simp [hsimple]

theorem accumulates_of_fillBool {draft : Draft} {filters queries : ByMode Object}
    (hbuilt : draft.Built filters queries) {body filled : Object}
    (h : draft.fillBool filters queries body = .ok filled) :
    draft.Accumulates filters queries body filled := by
  obtain ⟨filtered, hfiltered, rfl⟩ := fillBool_ok h
  -- Filters and queries share the key of what is excluded, and no other one.
  have happ := appends_addGroups draft.queryThreshold queries filtered
  have hkept : ∀ key, key ≠ "filter" → key ≠ "must_not" →
      filtered.get? key = body.get? key :=
    fun key => hfiltered.get?_of_ne hbuilt.or_of_simple
  have hfilter := happ.other "filter" (by decide)
  refine ⟨?_, ?_, ?_, hbuilt.not_of_simple, ?_, ?_, ?_, ?_, ?_, ?_⟩
  · rw [← Object.itemsAt_congr (hkept "must" (by decide) (by decide))]
    exact happ.items .and
  · rw [← Object.itemsAt_congr (hkept "should" (by decide) (by decide))]
    exact happ.items .or
  · rw [← hfiltered.itemsAt_must_not]
    exact happ.items .not
  · intro hsimple
    refine ⟨hbuilt.or_of_simple hsimple, ?_⟩
    rw [Object.itemsAt_congr hfilter]
    cases hfiltered with
    | simple => exact itemsAt_addGroups true draft.filterThreshold filters body .and
    | _ => simp_all
  · intro hnone
    rw [hfilter]
    cases hfiltered with
    | simple =>
      rw [ByMode.eq_empty hnone]
      rfl
    | nothing => rfl
    | array _ _ hsome => exact absurd hnone hsome
    | object _ _ _ hsome => exact absurd hnone hsome
  · intro hsimple hsome values hvalues
    rw [hfilter, ← filterElements_eq]
    cases hfiltered with
    | simple htrue => simp [hsimple] at htrue
    | nothing _ hnone => exact absurd hnone hsome
    | array found _ _ hfound =>
      obtain rfl : values = found := by simpa [hvalues] using hfound
      exact Keyed.get?_insert_self ..
    | object _ _ _ _ harray => exact absurd hvalues (harray values)
  · intro hsimple hsome hother
    rw [hfilter]
    cases hfiltered with
    | simple htrue => simp [hsimple] at htrue
    | nothing _ hnone => exact absurd hnone hsome
    | array values _ _ hvalues => exact absurd hvalues (hother values)
    | object outer inner _ _ _ houter hinner =>
      exact ⟨outer, inner, _, houter, hinner, Keyed.get?_insert_self ..,
        appends_addGroups draft.filterThreshold filters inner⟩
  · rw [← hkept "minimum_should_match" (by decide) (by decide)]
    exact happ.threshold
  · intro key hkey
    simp only [List.mem_cons, List.not_mem_nil, not_or, or_false] at hkey
    obtain ⟨hmust, hshould, hnot, hslot, hthreshold⟩ := hkey
    rw [happ.other key (by simp [hmust, hshould, hnot, hthreshold]), hkept key hslot hnot]

def queryIn (draft : Draft) (object : Object) : Option Value :=
  if draft.placement.isNested then some (.object object) else object.get? "query"

def HoldsLoneQuery (draft : Draft) (clause : Clause) : Prop :=
  draft.placement = .root ∧ draft.base.get? "query" = none ∧ draft.filters = {} ∧
    draft.queries = ⟨[clause], [], []⟩

theorem Built.exists_loneQuery {draft : Draft} {object : Object}
    (h : draft.Built {} ⟨[object], [], []⟩) (hroot : draft.placement = .root)
    (hbase : draft.base.get? "query" = none) : ∃ clause, draft.HoldsLoneQuery clause := by
  have hone : draft.queries.onlyOneAnd = true := h.onlyOneAnd_eq
  obtain ⟨clause, hclause⟩ := ByMode.onlyOneAnd_iff.1 hone
  exact ⟨clause, hroot, hbase, ByMode.eq_empty (h.filters_empty_iff.2 rfl), hclause⟩

theorem get?_writeSettings {key : String} (h : key ∉ ["sort", "size", "from"])
    (draft : Draft) (request : Object) :
    (draft.writeSettings request).get? key = request.get? key := by
  simp only [List.mem_cons, List.not_mem_nil, not_or, or_false] at h
  obtain ⟨hsort, hsize, hfrom⟩ := h
  unfold writeSettings
  cases draft.sort.isEmpty <;> cases draft.size <;> cases draft.offset <;>
    simp [Keyed.get?_insert_of_ne, hsort, hsize, hfrom]

theorem Written.get?_of_ne {draft : Draft} {filters queries : ByMode Object}
    {request : Object} (h : draft.Written filters queries request) {key : String}
    (hkey : key ≠ "query") : request.get? key = draft.base.get? key := by
  cases h with
  | nothing => rfl
  | _ => exact Keyed.get?_insert_of_ne _ _ hkey

/-- A root draft keeps the keys of its base that neither its clauses, nor its raw options,
nor its settings write. -/
theorem get?_finish_root {draft : Draft} (hroot : draft.placement = .root)
    {filters queries : ByMode Object} {request object : Object}
    (hwritten : draft.Written filters queries request)
    (h : draft.finish request = .ok object) {key : String}
    (hkey : key ∉ ["query", "sort", "size", "from"]) :
    object.get? key = (Keyed.last? draft.rawOptions key).or (draft.base.get? key) := by
  have hplace : draft.placement.isNested = false := by simp [hroot, Placement.isNested]
  obtain ⟨hquery, hsettings⟩ := not_or.1 (mt List.mem_cons.2 hkey)
  simp only [finish, hplace, Bool.false_eq_true, if_false, Except.ok.injEq] at h
  rw [← h, get?_writeSettings hsettings, writeRawOptions, Keyed.get?_extend,
    hwritten.get?_of_ne hquery]

theorem get?_query_finish_root {draft : Draft} (hroot : draft.placement = .root)
    (hraw : "query" ∉ Keyed.keys draft.rawOptions) {request object : Object}
    (h : draft.finish request = .ok object) : object.get? "query" = request.get? "query" := by
  have hplace : draft.placement.isNested = false := by simp [hroot, Placement.isNested]
  simp only [finish, hplace, Bool.false_eq_true, if_false, Except.ok.injEq] at h
  rw [← h, get?_writeSettings (by decide), get?_writeRawOptions hraw]

theorem queryIn_finish {draft : Draft} (hraw : "query" ∉ Keyed.keys draft.rawOptions)
    {request object : Object} {query : Object}
    (hquery : request.get? "query" = some (.object query))
    (h : draft.finish request = .ok object) : draft.queryIn object = some (.object query) := by
  unfold queryIn
  by_cases hplace : draft.placement = .root
  · have hroot : draft.placement.isNested = false := by simp [hplace, Placement.isNested]
    rw [if_neg (by simp [hroot]), get?_query_finish_root hplace hraw h, hquery]
  · have hnested : draft.placement.isNested = true := by simpa [Placement.isNested] using hplace
    rw [if_pos hnested]
    obtain ⟨hnone, -⟩ | hobject := finish_nested hplace hraw h
    · simp [hquery] at hnone
    · rw [← hobject, hquery]

/-- A draft with clauses that is not below a filter is rendered to its lone query, or else
its clauses are put behind those of the base in the bool clause of the query. The other
keys of the base stay at the root, with the raw options over them. -/
theorem render_accumulates {draft : Draft} (hplace : draft.placement ≠ .inFilter)
    (hclauses : ∃ family, draft.has family none = true)
    (hraw : "query" ∉ Keyed.keys draft.rawOptions) {object : Object}
    (hobject : draft.render = .ok object) :
    (∀ clause, draft.HoldsLoneQuery clause →
      ∃ built, clause.render = .ok built ∧ draft.queryIn object = some (.object built)) ∧
    ((¬ ∃ clause, draft.HoldsLoneQuery clause) →
      ∃ filters queries query before after, draft.Built filters queries ∧
        draft.base.objectAt? "query" = some query ∧ query.objectAt? "bool" = some before ∧
        draft.queryIn object = some (.object (query.insert "bool" (.object after))) ∧
        draft.Accumulates filters queries before after) ∧
    (draft.placement = .root → ∀ key, key ∉ ["query", "sort", "size", "from"] →
      object.get? key = (Keyed.last? draft.rawOptions key).or (draft.base.get? key)) := by
  obtain ⟨filters, queries, request, hbuilt, hwritten, hfinish⟩ := render_ok hobject
  have hquery : ∀ query : Object, request.get? "query" = some (.object query) →
      draft.queryIn object = some (.object query) :=
    fun query hget => queryIn_finish hraw hget hfinish
  rw [← and_assoc]
  refine ⟨?_, fun hroot key hkey => get?_finish_root hroot hwritten hfinish hkey⟩
  cases hwritten with
  | lone built hroot hbase hfilters hqueries =>
    subst hfilters hqueries
    have hlone : ∀ clause, draft.HoldsLoneQuery clause → clause.render = .ok built := by
      rintro clause ⟨-, -, -, hclause⟩
      simpa [hclause, ByMode.map] using hbuilt.queries_eq
    refine ⟨fun clause hclause => ⟨built, hlone clause hclause, ?_⟩, fun hnone => ?_⟩
    · exact hquery built (Keyed.get?_insert_self ..)
    · have hone : draft.queries.onlyOneAnd = true := hbuilt.onlyOneAnd_eq
      obtain ⟨clause, hclause⟩ := ByMode.onlyOneAnd_iff.1 hone
      have hempty := ByMode.eq_empty (hbuilt.filters_empty_iff.2 rfl)
      exact absurd ⟨clause, hroot, hbase, hempty, hclause⟩ hnone
  | nothing hfilters hqueries =>
    subst hfilters hqueries
    obtain ⟨family, hfamily⟩ := hclauses
    have hnone : draft.has family none = false := by
      rw [has_none_eq_false]
      cases family
      · exact hbuilt.filters_empty_iff.2 rfl
      · exact hbuilt.queries_empty_iff.2 rfl
    simp [hnone] at hfamily
  | inQuery _ hbelow => exact absurd hbelow hplace
  | inBool query before after _ _ hlone hbase hbefore hafter =>
    refine ⟨?_, fun _ => ⟨filters, queries, query, before, after, hbuilt, hbase, hbefore,
      hquery _ (Keyed.get?_insert_self ..), accumulates_of_fillBool hbuilt hafter⟩⟩
    rintro clause ⟨hroot, hnone, hfilters, hqueries⟩
    have hempty : filters.toList = [] := hbuilt.filters_empty_iff.1 (by rw [hfilters]; rfl)
    have hone : queries.onlyOneAnd = true :=
      hbuilt.onlyOneAnd_eq ▸ ByMode.onlyOneAnd_iff.2 ⟨clause, hqueries⟩
    exact absurd ⟨hroot, hnone, ByMode.eq_empty hempty, ByMode.onlyOneAnd_iff.1 hone⟩ hlone

def besideBase : Draft :=
  { base := Keyed.single "query" (.object (Keyed.single "bool" (.object
      (Keyed.single "must" (.object (Keyed.single "exists" (.object
        (Keyed.single "field" (.string "a")))))))))
    filters := ⟨[], [{ kind := "exists", payload := .field "b" }], []⟩
    queries := ⟨[{ kind := "exists", payload := .field "c" }], [], []⟩ }

theorem render_accumulates_besideBase :
    ∃ object, besideBase.render = .ok object ∧
      ∃ filters queries query before after, besideBase.Built filters queries ∧
        besideBase.base.objectAt? "query" = some query ∧
        query.objectAt? "bool" = some before ∧
        besideBase.queryIn object = some (.object (query.insert "bool" (.object after))) ∧
        besideBase.Accumulates filters queries before after := by
  obtain ⟨object, hobject⟩ : ∃ object, besideBase.render = .ok object := ⟨_, rfl⟩
  have hmerged := render_accumulates (by decide) ⟨.query, rfl⟩ (by decide) hobject
  refine ⟨object, hobject, hmerged.2.1 ?_⟩
  rintro ⟨clause, -, hbase, -⟩
  cases hbase

end Draft

end SearchQuery
