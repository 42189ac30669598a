import SearchQuery.Proofs.Nesting

/-!
Where the clauses of an owned draft end up in the clause that owns it. Drafts below a query
and drafts below a filter write their clauses to different places and are cut down in
different ways. What reaches the owner is the same in both cases: the bool clause that a
root draft writes for these clauses, here called the core of the draft. A bool clause takes
its entries in beside its own, and any other clause gets it under a query.
-/
namespace SearchQuery

theorem addGroups_one_and (threshold : Option Int64) (object : Object) :
    addGroups false threshold ⟨[object], [], []⟩ [] = Keyed.single "must" (.object object) := by
  cases threshold <;> rfl

/-- What the groups of a family leave is known for the body of a bool clause by its keys. -/
theorem hasBoolKeys_addGroups (simpleFilter : Bool) (threshold : Option Int64)
    {groups : ByMode Object} (h : groups.toList ≠ []) (target : Object) :
    hasBoolKeys (addGroups simpleFilter threshold groups target) = true := by
  obtain ⟨object, hobject⟩ := List.exists_mem_of_ne_nil _ h
  obtain ⟨mode, hmode⟩ := ByMode.mem_toList_iff.1 hobject
  let key := mode.boolKey simpleFilter
  have hslot : (addGroups simpleFilter threshold groups target).contains key = true := by
    have hsome : ¬ (groups.get mode).isEmpty = true := by
      simpa using List.ne_nil_of_mem hmode
    rw [Keyed.contains, get?_addGroups]
    unfold mergeSlot
    rw [if_neg hsome]
    cases target.get? (mode.boolKey simpleFilter) <;> rfl
  have hbool : boolKeys.contains key = true := by
    change boolKeys.contains (mode.boolKey simpleFilter) = true
    cases mode <;> cases simpleFilter <;> decide
  exact List.any_eq_true.2 ⟨key, (Keyed.contains_iff_mem_keys _ _).1 hslot, hbool⟩

namespace Draft

def atRoot (child : Draft) : Draft :=
  { filters := child.filters
    queries := child.queries
    filterThreshold := child.filterThreshold
    queryThreshold := child.queryThreshold }

/-- The core of an owned draft, read off the request of the root draft with its clauses: a
lone query as what is required, the bool clause of the query, or for a draft below a filter
the bool clause that filters have of their own, if they do. -/
def core? (child : Draft) (request : Object) : Option Object :=
  if child.placement = .inFilter then
    request.inner? (if child.simpleFilter then ["query", "bool"]
      else ["query", "bool", "filter", "bool"])
  else if child.atRoot.isLoneQuery false then
    (request.inner? ["query"]).map fun lone => Keyed.single "must" (.object lone)
  else request.inner? ["query", "bool"]

theorem Built.atRoot {child : Draft} {filters queries : ByMode Object}
    (h : child.Built filters queries) : child.atRoot.Built filters queries :=
  ⟨h.filters_eq, h.queries_eq⟩

theorem render_atRoot {child : Draft} {request : Object}
    (h : child.atRoot.withClauses false child.atRoot.renderedClauses = .ok request) :
    child.atRoot.render = .ok request := by
  have hroot : child.atRoot.placement = .inFilter → child.atRoot.firstQuery? = none := by
    intro hplace
    cases hplace
  rw [render_of_withClauses hroot rfl h]
  rfl

theorem fillFilters_empty (draft : Draft) (body : Object) :
    draft.fillFilters {} body = .ok body := by
  unfold fillFilters
  split
  · rfl
  · rfl

/-- At the root the clauses of a draft are written into the bool clause of the query, unless
they are a lone query. -/
theorem render_atRoot_inBool {child : Draft} {filters queries : ByMode Object}
    (hbuilt : child.Built filters queries)
    (hsome : filters.toList ≠ [] ∨ queries.toList ≠ [])
    (hlone : child.atRoot.isLoneQuery false = false) {filled : Object}
    (hfilled : child.fillBool filters queries [] = .ok filled) :
    child.atRoot.render =
      .ok (Keyed.single "query" (.object (Keyed.single "bool" (.object filled)))) := by
  apply render_atRoot
  have hplace : child.atRoot.placement ≠ .inFilter := by
    intro hplace
    cases hplace
  have hroot : child.atRoot.fillBool filters queries [] = .ok filled := hfilled
  rw [withClauses_of_not_lone hlone, hbuilt.atRoot.clauses_eq, writeClauses_eq_inBool hplace hsome]
  change inBool (child.atRoot.fillBool filters queries) [] = _
  simp only [inBool, within_eq, Object.objectAt?, Keyed.get?_nil, hroot]
  rfl

/-- The core of a draft below a query is all that it writes into a bool clause. -/
theorem core_of_inBool {child : Draft} (hplace : child.placement ≠ .inFilter)
    {filters queries : ByMode Object} (hbuilt : child.Built filters queries)
    (hsome : filters.toList ≠ [] ∨ queries.toList ≠ []) {filled : Object}
    (hfilled : child.fillBool filters queries [] = .ok filled) :
    ∃ request, child.atRoot.render = .ok request ∧ child.core? request = some filled := by
  cases hlone : child.atRoot.isLoneQuery false with
  | true =>
    obtain ⟨-, -, hfilters, clause, hclause⟩ := isLoneQuery_iff.1 hlone
    have hone : queries.onlyOneAnd = true :=
      hbuilt.onlyOneAnd_eq ▸ ByMode.onlyOneAnd_iff.2 ⟨clause, hclause⟩
    obtain ⟨object, rfl⟩ := ByMode.onlyOneAnd_iff.1 hone
    obtain rfl := ByMode.eq_empty (hbuilt.filters_empty_iff.1 hfilters)
    have hrender : clause.render = .ok object := by
      have hqueries := hbuilt.atRoot.queries_eq
      simpa [hclause, ByMode.map] using hqueries
    have hfill : filled = Keyed.single "must" (.object object) := by
      rw [fillBool, fillFilters_empty, Except.map, addGroups_one_and] at hfilled
      exact (Except.ok.inj hfilled).symm
    refine ⟨Keyed.single "query" (.object object), ?_, ?_⟩
    · apply render_atRoot
      rw [withClauses_lone hlone hclause, hrender]
      rfl
    · rw [core?, if_neg hplace, if_pos hlone, hfill]
      rfl
  | false =>
    refine ⟨_, render_atRoot_inBool hbuilt hsome hlone hfilled, ?_⟩
    rw [core?, if_neg hplace, if_neg (by simp [hlone])]
    rfl

/-- The core of a draft below a filter is all that it writes into its query. -/
theorem core_of_inQuery {child : Draft} (hplace : child.placement = .inFilter)
    {filters : ByMode Object} (hbuilt : child.Built filters {}) (hsome : filters.toList ≠ []) :
    ∃ request, child.atRoot.render = .ok request ∧ child.core? request =
      some (addGroups child.simpleFilter child.filterThreshold filters []) := by
  have hlone : child.atRoot.isLoneQuery false = false := by
    cases hlone : child.atRoot.isLoneQuery false with
    | false => rfl
    | true =>
      obtain ⟨-, -, hfilters, -⟩ := isLoneQuery_iff.1 hlone
      exact absurd (hbuilt.filters_empty_iff.1 hfilters) hsome
  let written := addGroups child.simpleFilter child.filterThreshold filters []
  cases hsimple : child.simpleFilter with
  | true =>
    have hfilled : child.fillBool filters {} [] = .ok written := by
      rw [fillBool, fillFilters, if_pos hsimple]
      simp only [written, hsimple]
      rfl
    refine ⟨_, render_atRoot_inBool hbuilt (.inl hsome) hlone hfilled, ?_⟩
    rw [core?, if_pos hplace, if_pos hsimple]
    simp only [written, hsimple]
    rfl
  | false =>
    have hfilled : child.fillBool filters {} [] =
        .ok (Keyed.single "filter" (.object (Keyed.single "bool" (.object written)))) := by
      have hempty : ¬ filters.toList.isEmpty = true := by simpa using hsome
      rw [fillBool, fillFilters, if_neg (by simp [hsimple]), if_neg hempty]
      simp only [written, hsimple]
      rfl
    refine ⟨_, render_atRoot_inBool hbuilt (.inl hsome) hlone hfilled, ?_⟩
    rw [core?, if_pos hplace, if_neg (by simp [hsimple])]
    simp only [written, hsimple]
    rfl

/-- What a draft without a base hands to its owner is its core: the entries of it for a bool
clause, and a query with the core as its bool clause for any other one. -/
theorem Yields.exists_core {child : Draft} {filters queries : ByMode Object} {object : Object}
    (h : child.Yields filters queries object) (hbuilt : child.Built filters queries)
    (hbase : child.base = []) (hsome : filters.toList ≠ [] ∨ queries.toList ≠ []) :
    ∃ request core, child.atRoot.render = .ok request ∧ child.core? request = some core ∧
      Clause.nestedBody "bool" object = core ∧
      ∀ kind, kind ≠ "bool" → Clause.nestedBody kind object =
        Keyed.single "query" (.object (Keyed.single "bool" (.object core))) := by
  cases h with
  | nothing _ hfilters hqueries =>
    subst hfilters hqueries
    rcases hsome with hsome | hsome <;> exact absurd rfl hsome
  | inQuery query hplace hqueries hquery =>
    subst hqueries
    rw [hbase] at hquery
    obtain rfl : [] = query := Option.some.inj hquery
    have hfilters : filters.toList ≠ [] := hsome.elim id fun habsurd => absurd rfl habsurd
    obtain ⟨request, hrender, hcore⟩ := core_of_inQuery hplace hbuilt hfilters
    refine ⟨request, _, hrender, hcore, ?_, ?_⟩
    · apply Clause.nestedBody_bool_of_other
      simp [get?_bool_addGroups]
    · intro kind hkind
      rw [Clause.nestedBody_of_ne hkind, if_pos (hasBoolKeys_addGroups _ _ hfilters _)]
  | inBool query body filled hplace hquery hbody hfilled =>
    rw [hbase] at hquery
    obtain rfl : [] = query := Option.some.inj hquery
    obtain rfl : [] = body := Option.some.inj hbody
    obtain ⟨request, hrender, hcore⟩ := core_of_inBool hplace hbuilt hsome hfilled
    refine ⟨request, filled, hrender, hcore, ?_, ?_⟩
    · exact Clause.nestedBody_bool_of_object (Keyed.get?_insert_self ..)
    · intro kind hkind
      rw [Clause.nestedBody_of_ne hkind]
      rfl

/-- An owned draft with clauses and without a base and raw options gives its core to every
clause that owns it: a bool clause has the entries of the core written over its own body,
and any other clause has under its query a bool clause that is the core. -/
theorem owner_body_of_core {child : Draft} (hplace : child.placement ≠ .root)
    (hbase : child.base = []) (hraw : child.rawOptions = [])
    (hclauses : ∃ family, child.has family none = true) {object : Object}
    (h : child.render = .ok object) :
    ∃ request core, child.atRoot.render = .ok request ∧ child.core? request = some core ∧
      ∀ clause : Clause, (clause.owning child).render = .ok (Keyed.single clause.kind (.object
        (if clause.kind = "bool" then clause.ownBody.extend core
        else clause.ownBody.insert "query" (.object (Keyed.single "bool" (.object core)))))) := by
  have hnoQuery : "query" ∉ Keyed.keys child.rawOptions := by simp [hraw, Keyed.keys]
  obtain ⟨filters, queries, hbuilt, hyields⟩ := yields_of_render hplace hnoQuery h
  have hsome : filters.toList ≠ [] ∨ queries.toList ≠ [] := by
    obtain ⟨family, hfamily⟩ := hclauses
    have hne := (hbuilt.has_iff family).1 hfamily
    cases family with
    | filter => exact .inl hne
    | query => exact .inr hne
  obtain ⟨request, core, hrender, hcore, hbool, hother⟩ :=
    hyields.exists_core hbuilt hbase hsome
  refine ⟨request, core, hrender, hcore, fun clause => ?_⟩
  have howner : (clause.owning child).render = .ok (Keyed.single clause.kind
      (.object (clause.ownBody.extend (Clause.nestedBody clause.kind object)))) := by
    rw [Clause.render_eq]
    simp only [Clause.owning, h, Except.map]
    rfl
  rw [howner]
  by_cases hkind : clause.kind = "bool"
  · rw [if_pos hkind, hkind, hbool]
  · rw [if_neg hkind, hother clause.kind hkind]
    rfl

def alternativesInFilter : Draft :=
  { placement := .inFilter
    filters := ⟨[], [{ kind := "exists", payload := .field "a" },
      { kind := "exists", payload := .field "b" }], []⟩
    filterThreshold := some 1 }

def ownerWithQuery : Clause :=
  { kind := "nested"
    payload := .fieldValue "query" (.string "c")
    options := Keyed.single "path" (.string "d") }

theorem owner_body_of_core_alternatives :
    ∃ request core, alternativesInFilter.atRoot.render = .ok request ∧
      alternativesInFilter.core? request = some core ∧
      (ownerWithQuery.owning alternativesInFilter).render = .ok (Keyed.single "nested" (.object
        [("query", .object (Keyed.single "bool" (.object core))), ("path", .string "d")])) := by
  obtain ⟨object, hobject⟩ : ∃ object, alternativesInFilter.render = .ok object := ⟨_, rfl⟩
  obtain ⟨request, core, hrender, hcore, howner⟩ :=
    owner_body_of_core (by decide) rfl rfl ⟨.filter, rfl⟩ hobject
  refine ⟨request, core, hrender, hcore, ?_⟩
  rw [howner ownerWithQuery, if_neg (by decide)]
  rfl

end Draft

end SearchQuery
