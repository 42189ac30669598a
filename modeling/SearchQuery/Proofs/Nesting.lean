import SearchQuery.Proofs.Assembly
import SearchQuery.Proofs.Occurrence
import SearchQuery.Proofs.Runs

/-!
What is left of the clauses of an owned draft in the clause that owns it. They all are in
the object that the draft yields, and that is merged last into the body of the owner. One
combination loses them: a bool clause unwraps what has a bool clause on top, and below a
filter the clauses stand beside the bool clause of the base, not in it.
-/
namespace SearchQuery

def Object.boolBody? (request : Object) : Option Object :=
  match request.get? "query" with
  | some (.object query) =>
    match Keyed.get? query "bool" with
    | some (.object body) => some body
    | _ => none
  | _ => none

namespace Draft

/-- Every filter stands in the bool clause that the filters of its draft leave. -/
theorem Filtered.inSlot {draft : Draft} {filters : ByMode Object} {body filtered : Object}
    (h : draft.Filtered filters body filtered) {mode : Mode} {object : Object}
    (hobject : object ∈ filters.get mode) : (Value.object object).InSlot filtered := by
  have hsome : filters.toList ≠ [] :=
    List.ne_nil_of_mem (ByMode.mem_toList_iff.2 ⟨mode, hobject⟩)
  cases h with
  | simple => exact .of_group hobject ..
  | nothing _ hnone => exact absurd hnone hsome
  | array values =>
    let element := addGroup (mode.boolKey false) draft.filterThreshold (filters.get mode) []
    have hitem : Value.object object ∈ element.itemsAt (mode.boolKey false) := by
      rw [itemsAt_addGroup (mode.boolKey_ne_threshold _)]
      exact List.mem_append_right _ (List.mem_map_of_mem hobject)
    refine ⟨"filter", by decide, .object (Keyed.single "bool" (.object element)), ?_, ?_⟩
    · rw [Object.itemsAt_insert]
      apply List.mem_append_right
      exact mem_filterElements_iff.2 ⟨mode, List.ne_nil_of_mem hobject, rfl⟩
    · exact .entry List.mem_cons_self (Value.OccursIn.of_itemsAt hitem).occurs
  | object outer inner =>
    let written := addGroups false draft.filterThreshold filters inner
    have hwritten : (Value.object object).Occurs (.object written) :=
      (Value.InSlot.of_group hobject ..).occursIn.occurs
    refine ⟨"filter", by decide, .object (outer.insert "bool" (.object written)), ?_, ?_⟩
    · rw [Object.itemsAt_insert]
      exact List.mem_cons_self
    · exact (Value.OccursIn.insert hwritten outer "bool").occurs

/-- Every clause stands in the bool clause that the clauses of its draft leave. -/
theorem inSlot_of_fillBool {draft : Draft} {filters queries : ByMode Object}
    {body filled : Object} (h : draft.fillBool filters queries body = .ok filled)
    {family : Family} {mode : Mode} {object : Object}
    (hobject : object ∈ (byFamily filters queries family).get mode) :
    (Value.object object).InSlot filled := by
  obtain ⟨filtered, hfiltered, rfl⟩ := fillBool_ok h
  cases family with
  | filter => exact (hfiltered.inSlot hobject).addGroups ..
  | query => exact .of_group hobject ..

theorem nodup_keys_fillBool {draft : Draft} {filters queries : ByMode Object}
    {body filled : Object} (h : draft.fillBool filters queries body = .ok filled)
    (hbody : body.keys.Nodup) : filled.keys.Nodup := by
  obtain ⟨filtered, hfiltered, rfl⟩ := fillBool_ok h
  refine nodup_keys_addGroups ?_ ..
  cases hfiltered with
  | simple => exact nodup_keys_addGroups hbody ..
  | nothing => exact hbody
  | array => exact Keyed.nodup_keys_insert hbody ..
  | object => exact Keyed.nodup_keys_insert hbody ..

theorem get?_bool_addGroups (simpleFilter : Bool) (threshold : Option Int64)
    (groups : ByMode Object) (query : Object) :
    (addGroups simpleFilter threshold groups query).get? "bool" = query.get? "bool" := by
  refine get?_addGroups_of_ne ?_ (by decide) ..
  intro mode
  cases mode <;> cases simpleFilter <;> decide

end Draft

namespace Clause

theorem render_owning {clause : Clause} {child : Draft} {object : Object}
    (h : (clause.owning child).render = .ok object) :
    ∃ inner, child.render = .ok inner ∧ object = Keyed.single clause.kind
      (.object (clause.ownBody.extend (nestedBody clause.kind inner))) := by
  rw [render_eq] at h
  cases hchild : child.render with
  | error e => simp [owning, hchild, Except.map] at h
  | ok inner =>
    simp only [owning, hchild, Except.map, Except.ok.injEq] at h
    exact ⟨inner, rfl, h.symm⟩

theorem nestedBody_bool_of_object {child inner : Object}
    (h : child.get? "bool" = some (.object inner)) : nestedBody "bool" child = inner := by
  simp [nestedBody, h]

theorem nestedBody_bool_of_other {child : Object}
    (h : ∀ inner, child.get? "bool" ≠ some (.object inner)) :
    nestedBody "bool" child = child := by
  unfold nestedBody
  rw [if_pos rfl]
  dsimp only
  split
  · next inner hinner => exact absurd hinner (h inner)
  · rfl

/-- Outside a bool clause all that an owned draft yields goes under a query, and first into
a bool clause if it is the body of one. -/
theorem nestedBody_of_ne {kind : String} (h : kind ≠ "bool") (child : Object) :
    nestedBody kind child = Keyed.single "query"
      (.object (if hasBoolKeys child then Keyed.single "bool" (.object child) else child)) := by
  unfold nestedBody
  rw [if_neg h]
  split
  · rfl
  · rfl

end Clause

namespace Draft

theorem get_byFamily_empty (family : Family) (mode : Mode) :
    (byFamily {} {} family).get mode = [] := by
  cases family <;> cases mode <;> rfl

theorem Yields.nodup_keys {child : Draft} {filters queries : ByMode Object} {object : Object}
    (h : child.Yields filters queries object) (hbase : child.base.Distinct)
    {family : Family} {mode : Mode}
    (hsome : (byFamily filters queries family).get mode ≠ []) :
    object.keys.Nodup := by
  cases h with
  | nothing _ hfilters hqueries =>
    subst hfilters hqueries
    exact absurd (get_byFamily_empty family mode) hsome
  | inQuery query _ _ hquery => exact nodup_keys_addGroups (hbase.objectAt? hquery).keys ..
  | inBool query _ _ _ hquery =>
    exact Keyed.nodup_keys_insert (hbase.objectAt? hquery).keys ..

theorem Yields.occursIn {child : Draft} {filters queries : ByMode Object} {object : Object}
    (h : child.Yields filters queries object) {family : Family} {mode : Mode}
    {rendered : Object} (hmem : rendered ∈ (byFamily filters queries family).get mode) :
    (Value.object rendered).OccursIn object := by
  cases h with
  | nothing _ hfilters hqueries =>
    subst hfilters hqueries
    simp [get_byFamily_empty] at hmem
  | inQuery query _ hqueries =>
    subst hqueries
    cases family with
    | filter => exact (Value.InSlot.of_group hmem ..).occursIn
    | query => cases mode <;> simp [byFamily, ByMode.get] at hmem
  | inBool query body filled _ _ _ hfilled =>
    exact .insert (inSlot_of_fillBool hfilled hmem).occursIn.occurs query "bool"

theorem boolBody?_of_objectAt? {base query body : Object}
    (hquery : base.objectAt? "query" = some query)
    (hbody : query.get? "bool" = some (.object body)) : base.boolBody? = some body := by
  unfold Object.objectAt? at hquery
  split at hquery
  · obtain rfl := Option.some.inj hquery
    simp at hbody
  · next found hfound =>
    obtain rfl := Option.some.inj hquery
    simp [Object.boolBody?, hfound, hbody]
  · simp at hquery

/-- A clause of an owned draft is in the body of its owner, unless a bool clause of the base
hides it. -/
theorem Yields.kept {child : Draft} {filters queries : ByMode Object} {object : Object}
    (h : child.Yields filters queries object) (hbase : child.base.Distinct) {kind : String}
    (hshown : ¬ (child.placement = .inFilter ∧ kind = "bool" ∧
      child.base.boolBody?.isSome = true))
    {family : Family} {mode : Mode} {rendered : Object}
    (hmem : rendered ∈ (byFamily filters queries family).get mode) (own : Object) :
    (Value.object rendered).OccursIn (own.extend (Clause.nestedBody kind object)) := by
  have hoccurs := h.occursIn hmem
  by_cases hkind : kind = "bool"
  · subst hkind
    have hkeys := h.nodup_keys hbase (List.ne_nil_of_mem hmem)
    cases h with
    | nothing _ hfilters hqueries =>
      subst hfilters hqueries
      simp [get_byFamily_empty] at hmem
    | inQuery query hplace _ hquery =>
      -- The filters stand in the query object itself, where they bring no bool clause.
      have hother : ∀ inner, query.get? "bool" ≠ some (.object inner) := fun inner hinner =>
        hshown ⟨hplace, rfl, by simp [boolBody?_of_objectAt? hquery hinner]⟩
      rw [Clause.nestedBody_bool_of_other (by simpa only [get?_bool_addGroups] using hother)]
      exact hoccurs.extend hkeys own
    | inBool query body filled _ hquery hbody hfilled =>
      rw [Clause.nestedBody_bool_of_object (Keyed.get?_insert_self ..)]
      have hbody := ((hbase.objectAt? hquery).objectAt? hbody).keys
      exact (inSlot_of_fillBool hfilled hmem).occursIn.extend
        (nodup_keys_fillBool hfilled hbody) own
  · have hsingle : ∀ value : Value, (Value.object rendered).Occurs value →
        (Value.object rendered).OccursIn (own.extend (Keyed.single "query" value)) :=
      fun value hvalue => Value.OccursIn.extend (by simp [Keyed.keys])
        ⟨("query", value), List.mem_cons_self, hvalue⟩ own
    rw [Clause.nestedBody_of_ne hkind]
    apply hsingle
    split
    · exact .entry List.mem_cons_self hoccurs.occurs
    · exact hoccurs.occurs

/-- A bool clause below a filter takes over the bool clause of the base alone. -/
theorem Yields.nestedBody_hidden {child : Draft} {filters queries : ByMode Object}
    {object hidden : Object} (h : child.Yields filters queries object)
    (hplace : child.placement = .inFilter) (hhidden : child.base.boolBody? = some hidden) :
    Clause.nestedBody "bool" object = hidden := by
  have hbase : ∃ query, child.base.get? "query" = some (.object query) ∧
      Keyed.get? query "bool" = some (.object hidden) := by
    unfold Object.boolBody? at hhidden
    split at hhidden
    · next query hquery =>
      split at hhidden
      · next body hbody => exact ⟨query, hquery, by rw [hbody, Option.some.inj hhidden]⟩
      · simp at hhidden
    · simp at hhidden
  obtain ⟨query, hquery, hbody⟩ := hbase
  cases h with
  | nothing _ _ _ hobject =>
    rw [hobject query hquery]
    exact Clause.nestedBody_bool_of_object hbody
  | inQuery found _ _ hfound =>
    obtain rfl : query = found := by simpa [Object.objectAt?, hquery] using hfound
    exact Clause.nestedBody_bool_of_object (by rw [get?_bool_addGroups, hbody])
  | inBool _ _ _ hbelow => exact absurd hplace hbelow

end Draft

/-- What an owned draft without a raw query yields keeps every clause in the body of its
owner, unless the owner is a bool clause below a filter and the base of the draft has a
bool clause; then the owner gets that bool clause of the base and no clause of the draft.
The base has distinct keys, as every object from outside does. -/
theorem owned_clauses_kept {family : Family} {clause : Clause} {steps : List Step}
    {child : Draft} (hrun : Step.run (Draft.fresh (.below family)) steps = .ok child)
    (hbase : child.base.Distinct) (hraw : "query" ∉ Keyed.keys child.rawOptions)
    {object : Object} (hobject : (clause.owning child).render = .ok object) :
    ∃ body, object = Keyed.single clause.kind (.object body) ∧
      (¬ (family = .filter ∧ clause.kind = "bool" ∧ child.base.boolBody?.isSome = true) →
        ∀ inner mode, ∀ owned ∈ (child.clauses inner).get mode,
          ∃ rendered, owned.render = .ok rendered ∧ (Value.object rendered).OccursIn body) ∧
      (∀ hidden, family = .filter → clause.kind = "bool" →
        child.base.boolBody? = some hidden → body = clause.ownBody.extend hidden) := by
  have hplace : child.placement = .below family := Step.run_placement hrun
  have hnested : child.placement ≠ .root := by
    rw [hplace]
    cases family <;> decide
  have hinFilter : child.placement = .inFilter ↔ family = .filter := by
    rw [hplace]
    cases family <;> decide
  obtain ⟨yielded, hchild, rfl⟩ := Clause.render_owning hobject
  obtain ⟨filters, queries, hbuilt, hyields⟩ := Draft.yields_of_render hnested hraw hchild
  refine ⟨_, rfl, ?_, ?_⟩
  · intro hshown inner mode owned howned
    obtain ⟨rendered, hmem, hrendered⟩ := hbuilt.exists_object howned
    rw [← hinFilter] at hshown
    exact ⟨rendered, hrendered, hyields.kept hbase hshown hmem _⟩
  · intro hidden hfilter hkind hhidden
    rw [hkind, hyields.nestedBody_hidden (hinFilter.2 hfilter) hhidden]

def testBesideBool : Draft :=
  { base := Keyed.single "query" (.object (Keyed.single "bool" (.object [])))
    placement := .inFilter
    filters := ⟨[{ kind := "exists", payload := .field "a" }], [], []⟩ }

def testBesideBoolSteps : List Step :=
  [.base testBesideBool.base, .add .filter .and { kind := "exists", payload := .field "a" }]

/-- An owner of another kind keeps the test that stands beside the bool clause. -/
theorem owned_clauses_kept_nested :
    ∃ body, (Clause.owning { kind := "nested" } testBesideBool).render =
        .ok (Keyed.single "nested" (.object body)) ∧
      (Value.object (Keyed.single "exists" (.object (Keyed.single "field" (.string "a"))))).OccursIn
        body := by
  have hrun : Step.run (Draft.fresh (.below .filter)) testBesideBoolSteps =
    .ok testBesideBool := rfl
  have hbase : testBesideBool.base.Distinct := (Object.distinct_nil.single "bool").single "query"
  obtain ⟨object, hobject⟩ : ∃ object,
    (Clause.owning { kind := "nested" } testBesideBool).render = .ok object := ⟨_, rfl⟩
  obtain ⟨body, rfl, hkept, -⟩ := owned_clauses_kept hrun hbase (by decide) hobject
  obtain ⟨rendered, hrendered, hoccurs⟩ :=
    hkept (by decide) .filter .and _ List.mem_cons_self
  obtain rfl := Except.ok.inj hrendered
  exact ⟨body, hobject, hoccurs⟩

/-- A bool clause below a filter loses the test that stands beside the bool clause. -/
theorem owned_clauses_not_always_kept :
    ¬ ∀ (family : Family) (clause : Clause) (steps : List Step) (child : Draft) (body : Object),
      Step.run (Draft.fresh (.below family)) steps = .ok child → child.base.Distinct →
      "query" ∉ Keyed.keys child.rawOptions →
      (clause.owning child).render = .ok (Keyed.single clause.kind (.object body)) →
      ∀ inner mode, ∀ owned ∈ (child.clauses inner).get mode,
        ∃ rendered, owned.render = .ok rendered ∧ (Value.object rendered).OccursIn body := by
  intro h
  obtain ⟨_, -, entry, hentry, -⟩ := h .filter { kind := "bool" } testBesideBoolSteps
    testBesideBool [] rfl ((Object.distinct_nil.single "bool").single "query") (by decide) rfl
    .filter .and _ List.mem_cons_self
  simp at hentry
end SearchQuery
