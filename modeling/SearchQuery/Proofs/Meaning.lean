import SearchQuery.Proofs.Accumulation
import SearchQuery.Proofs.Failure
import SearchQuery.Proofs.Nesting
import SearchQuery.Proofs.Truth

/-!
Rendering keeps the meaning of a draft. A draft of leaf clauses and groups is a formula,
which is true if both of its families are. All the ways to shorten its object, the lone
query, the simple filters, the single clause that is no array and the bool clause that is
unwrapped, leave an object that is true exactly when the formula is.
-/
namespace SearchQuery

/-- The truth of the two families of a draft, given that of each clause. An alternative
query need not be true if there is a filter. -/
def Reading.families (r : Reading) (filterThreshold queryThreshold : Option Int64)
    (filters queries : ByMode Bool) : Bool :=
  r.family filterThreshold filters.and.isEmpty filters &&
    r.family queryThreshold (queries.and.isEmpty && filters.toList.isEmpty) queries

mutual

def Clause.truth (r : Reading) : Clause → Bool
  | ⟨kind, payload, options, none⟩ =>
    r.leaf (Clause.rendered ⟨kind, payload, options, none⟩ none)
  | ⟨_, _, _, some draft⟩ => draft.truth r

def Draft.truth (r : Reading) : Draft → Bool
  | ⟨_, _, filters, queries, _, _, _, _, filterThreshold, queryThreshold⟩ =>
    r.families filterThreshold queryThreshold (groupsTruth r filters) (groupsTruth r queries)

def groupsTruth (r : Reading) : ByMode Clause → ByMode Bool
  | ⟨and, or, not⟩ => ⟨listTruth r and, listTruth r or, listTruth r not⟩

def listTruth (r : Reading) : List Clause → List Bool
  | [] => []
  | clause :: rest => clause.truth r :: listTruth r rest

end

theorem listTruth_eq_map (r : Reading) (clauses : List Clause) :
    listTruth r clauses = clauses.map (Clause.truth r) := by
  induction clauses with
  | nil => rfl
  | cons clause rest ih => rw [listTruth, ih, List.map_cons]

theorem groupsTruth_eq_map (r : Reading) (groups : ByMode Clause) :
    groupsTruth r groups = groups.map (Clause.truth r) := by
  cases groups
  simp only [groupsTruth, ByMode.map, listTruth_eq_map]

namespace Draft

theorem truth_eq (r : Reading) (draft : Draft) :
    draft.truth r = r.families draft.filterThreshold draft.queryThreshold
      (draft.filters.map (Clause.truth r)) (draft.queries.map (Clause.truth r)) := by
  cases draft
  rw [Draft.truth, groupsTruth_eq_map, groupsTruth_eq_map]

/-- A draft without a base and raw options at any node, whose clauses are leaves of other
kinds than bool clauses, or else bool clauses that only own a draft. -/
def IsFormula (draft : Draft) : Prop :=
  ∀ node, draft.Holds node → node.base = [] ∧ node.rawOptions = [] ∧
    ∀ family mode, ∀ clause ∈ (node.clauses family).get mode,
      (clause.kind ≠ "bool" ∧ clause.nested = none) ∨
        ∃ child, child.placement ≠ .root ∧ clause = Clause.owning { kind := "bool" } child

/-- The truth of the object of a draft. A root draft is read at its query, where none is
always true. An owned one is read as the bool clause that owns it. -/
def objectTruth (r : Reading) (draft : Draft) (object : Object) : Bool :=
  if draft.placement.isNested then
    (Value.object (Keyed.single "bool" (.object (Clause.nestedBody "bool" object)))).truth r
  else (object.get? "query").elim true (Value.truth r)

def builtTruth (r : Reading) (draft : Draft) (filters queries : ByMode Object) : Bool :=
  r.families draft.filterThreshold draft.queryThreshold (objectTruths r filters)
    (objectTruths r queries)

/-- Filters that are written the simple way, and the queries beside them. -/
theorem Built.bool_simple (r : Reading) {draft : Draft} {filters queries : ByMode Object}
    (hbuilt : draft.Built filters queries) (hsimple : draft.simpleFilter = true) :
    r.bool (addGroups false draft.queryThreshold queries
        (addGroups true draft.filterThreshold filters [])) =
      draft.builtTruth r filters queries := by
  have hor := hbuilt.or_of_simple hsimple
  let target := addGroups true draft.filterThreshold filters []
  have hkept : ∀ key, key ≠ "filter" → key ≠ "must_not" → target.get? key = none :=
    fun key hfilter hnot => get?_addGroups_simple hor hfilter hnot draft.filterThreshold []
  have hfilterItems : target.itemsAt "filter" = filters.and.map Value.object :=
    itemsAt_addGroups true draft.filterThreshold filters [] .and
  have hnotItems : target.itemsAt "must_not" = filters.not.map Value.object :=
    itemsAt_addGroups true draft.filterThreshold filters [] .not
  have hcontains : target.contains "filter" = !filters.and.isEmpty :=
    contains_mergeSlot (get?_addGroups true draft.filterThreshold filters [] .and)
  have hqueries : r.family draft.queryThreshold
      (queries.and.isEmpty && !target.contains "filter") (objectTruths r queries) =
        r.family draft.queryThreshold ((objectTruths r queries).and.isEmpty &&
          (objectTruths r filters).toList.isEmpty) (objectTruths r queries) := by
    -- A lone required filter takes the default away from both readings, and without
    -- queries there is nothing that the default could be for.
    obtain ⟨object, rfl⟩ | ⟨-, rfl⟩ := hbuilt.simple_cases hsimple
    · simp [hcontains, objectTruths, ByMode.map, ByMode.toList]
    · exact (family_empty ..).trans (family_empty ..).symm
  rw [bool_addGroups r (hkept "must" (by decide) (by decide))
    (hkept "should" (by decide) (by decide))
    (hkept "minimum_should_match" (by decide) (by decide))]
  change ((target.itemsAt "filter").all _ && (target.itemsAt "must_not").all _ &&
    r.family draft.queryThreshold (queries.and.isEmpty && !target.contains "filter") _) = _
  rw [hqueries, hfilterItems, hnotItems, builtTruth, Reading.families]
  congr 1
  simp [Reading.family, Reading.enough, objectTruths, ByMode.map, hor, Function.comp_def]

/-- A family that is written into nothing has its own truth. -/
theorem bool_addGroups_nil (r : Reading) (threshold : Option Int64) (groups : ByMode Object) :
    r.bool (addGroups false threshold groups []) =
      r.family threshold groups.and.isEmpty (objectTruths r groups) := by
  rw [bool_addGroups r rfl rfl rfl]
  simp [Object.itemsAt, Keyed.contains]

theorem objectTruths_toList_isEmpty (r : Reading) (objects : ByMode Object) :
    (objectTruths r objects).toList.isEmpty = objects.toList.isEmpty := by
  rw [objectTruths, ByMode.toList_map, List.isEmpty_map]

theorem objectTruths_and_isEmpty (r : Reading) (objects : ByMode Object) :
    (objectTruths r objects).and.isEmpty = objects.and.isEmpty := by
  simp [objectTruths, ByMode.map]

/-- The bool clause that the clauses of a draft leave without a base. -/
theorem Built.bool_fillBool (r : Reading) {draft : Draft} {filters queries : ByMode Object}
    (hbuilt : draft.Built filters queries) {filled : Object}
    (h : draft.fillBool filters queries [] = .ok filled) :
    r.bool filled = draft.builtTruth r filters queries := by
  obtain ⟨filtered, hfiltered, rfl⟩ := fillBool_ok h
  cases hfiltered with
  | simple hsimple => exact hbuilt.bool_simple r hsimple
  | nothing _ hnone =>
    obtain rfl := ByMode.eq_empty hnone
    rw [bool_addGroups_nil, builtTruth, Reading.families, objectTruths_and_isEmpty]
    simp [objectTruths, ByMode.map, family_empty, ByMode.toList]
  | array _ _ _ hfilter => simp at hfilter
  | object outer inner _ hsome _ houter hinner =>
    obtain rfl : [] = outer := Option.some.inj houter
    obtain rfl : [] = inner := Option.some.inj hinner
    have hown : (Value.object (Keyed.single "bool" (.object
        (addGroups false draft.filterThreshold filters [])))).truth r =
          r.family draft.filterThreshold filters.and.isEmpty (objectTruths r filters) := by
      rw [truth_bool, bool_addGroups_nil]
    have hempty : filters.toList.isEmpty = false := by simpa using hsome
    rw [bool_addGroups r rfl rfl rfl, builtTruth, Reading.families, objectTruths_and_isEmpty,
      objectTruths_and_isEmpty, objectTruths_toList_isEmpty, hempty, ← hown]
    simp [Object.itemsAt, Keyed.insert, Keyed.single, Keyed.get?_cons, Keyed.contains,
      Value.items]

theorem builtTruth_of_no_queries (r : Reading) (draft : Draft) (filters : ByMode Object) :
    draft.builtTruth r filters {} =
      r.family draft.filterThreshold filters.and.isEmpty (objectTruths r filters) := by
  rw [builtTruth, Reading.families, objectTruths_and_isEmpty]
  simp [objectTruths, ByMode.map, family_empty]

theorem builtTruth_empty (r : Reading) (draft : Draft) :
    draft.builtTruth r {} {} = true := by
  rw [builtTruth_of_no_queries]
  exact family_empty ..

/-- What an owned draft without a base yields, as the body of the bool clause that owns
it. -/
theorem Yields.bool_nestedBody (r : Reading) {draft : Draft} {filters queries : ByMode Object}
    {object : Object} (h : draft.Yields filters queries object)
    (hbuilt : draft.Built filters queries) (hbase : draft.base = [])
    (hraw : draft.rawOptions = []) :
    (Clause.nestedBody "bool" object).keys.Nodup ∧
      r.bool (Clause.nestedBody "bool" object) = draft.builtTruth r filters queries := by
  have hnone : draft.base.get? "query" = none := by rw [hbase]; rfl
  have hkeys : (Keyed.keys ([] : Object)).Nodup := List.nodup_nil
  cases h with
  | nothing _ hfilters hqueries _ hobject =>
    subst hfilters hqueries
    have hnil : object = [] := by rw [hobject hnone, writeRawOptions, hbase, hraw]; rfl
    subst hnil
    exact ⟨hkeys, (bool_nil r).trans (builtTruth_empty r draft).symm⟩
  | inQuery query _ hqueries hquery =>
    subst hqueries
    rw [hbase] at hquery
    obtain rfl : [] = query := Option.some.inj hquery
    rw [Clause.nestedBody_bool_of_other (by simp [get?_bool_addGroups])]
    refine ⟨nodup_keys_addGroups hkeys .., ?_⟩
    cases hsimple : draft.simpleFilter with
    | true => exact hbuilt.bool_simple r hsimple
    | false => rw [bool_addGroups_nil, builtTruth_of_no_queries]
  | inBool query body filled _ hquery hbody hfilled =>
    rw [hbase] at hquery
    obtain rfl : [] = query := Option.some.inj hquery
    obtain rfl : [] = body := Option.some.inj hbody
    rw [Clause.nestedBody_bool_of_object (Keyed.get?_insert_self ..)]
    exact ⟨nodup_keys_fillBool hfilled hkeys, hbuilt.bool_fillBool r hfilled⟩

theorem map_truth_eq (r : Reading) {group : List Clause} {built : List Object}
    (hbuilt : group.map Clause.render = built.map .ok)
    (htruth : ∀ clause ∈ group, ∀ object, clause.render = .ok object →
      (Value.object object).truth r = clause.truth r) :
    built.map (fun object => (Value.object object).truth r) = group.map (Clause.truth r) := by
  induction group generalizing built with
  | nil =>
    rw [List.map_eq_nil_iff.1 hbuilt.symm]
    rfl
  | cons clause rest ih =>
    cases built with
    | nil => simp at hbuilt
    | cons object others =>
      obtain ⟨hhead, htail⟩ := List.cons.inj hbuilt
      rw [List.map_cons, List.map_cons, htruth clause List.mem_cons_self object hhead,
        ih htail fun other hother => htruth other (List.mem_cons_of_mem _ hother)]

theorem objectTruths_eq (r : Reading) {clauses : ByMode Clause} {objects : ByMode Object}
    (hbuilt : clauses.map Clause.render = objects.map .ok)
    (htruth : ∀ mode, ∀ clause ∈ clauses.get mode, ∀ object, clause.render = .ok object →
      (Value.object object).truth r = clause.truth r) :
    objectTruths r objects = clauses.map (Clause.truth r) := by
  obtain ⟨and, or, not⟩ := clauses
  obtain ⟨builtAnd, builtOr, builtNot⟩ := objects
  obtain ⟨hand, hor, hnot⟩ := ByMode.mk.inj hbuilt
  exact ByMode.mk.injEq .. ▸ ⟨map_truth_eq r hand (htruth .and),
    map_truth_eq r hor (htruth .or), map_truth_eq r hnot (htruth .not)⟩

theorem Built.truth_eq (r : Reading) {draft : Draft} {filters queries : ByMode Object}
    (hbuilt : draft.Built filters queries)
    (htruth : ∀ family mode, ∀ clause ∈ (draft.clauses family).get mode, ∀ object,
      clause.render = .ok object → (Value.object object).truth r = clause.truth r) :
    draft.builtTruth r filters queries = draft.truth r := by
  rw [builtTruth, Draft.truth_eq, objectTruths_eq r hbuilt.filters_eq (htruth .filter),
    objectTruths_eq r hbuilt.queries_eq (htruth .query)]

/-- What a draft is rendered to is as true as the objects of its clauses together. -/
theorem Built.objectTruth_eq (r : Reading) {draft : Draft} {filters queries : ByMode Object}
    {request object : Object} (hbuilt : draft.Built filters queries)
    (hwritten : draft.Written filters queries request)
    (hfinish : draft.finish request = .ok object) (hroot : draft.placement = .root)
    (hbase : draft.base = []) (hraw : draft.rawOptions = []) :
    draft.objectTruth r object = draft.builtTruth r filters queries := by
  have hplace : draft.placement.isNested = false := by simp [hroot, Placement.isNested]
  have hnoRaw : "query" ∉ Keyed.keys draft.rawOptions := by simp [hraw, Keyed.keys]
  have hget : object.get? "query" = request.get? "query" := by
    rw [finish, if_neg (by simp [hplace])] at hfinish
    obtain rfl := Except.ok.inj hfinish
    rw [get?_writeSettings (by decide), get?_writeRawOptions hnoRaw]
  rw [objectTruth, if_neg (by simp [hplace]), hget]
  cases hwritten with
  | lone built _ _ hfilters hqueries =>
    subst hfilters hqueries
    rw [Keyed.get?_insert_self]
    simp [builtTruth, Reading.families, Reading.family, Reading.enough, objectTruths,
      ByMode.map]
  | nothing hfilters hqueries =>
    subst hfilters hqueries
    rw [hbase, builtTruth_empty]
    rfl
  | inQuery _ hbelow => simp [hroot] at hbelow
  | inBool query body filled _ _ _ hquery hbody hfilled =>
    rw [hbase] at hquery
    obtain rfl : [] = query := Option.some.inj hquery
    obtain rfl : [] = body := Option.some.inj hbody
    rw [Keyed.get?_insert_self, ← hbuilt.bool_fillBool r hfilled, ← truth_bool]
    rfl

theorem IsFormula.child {draft child : Draft} (h : draft.IsFormula) {family : Family}
    {mode : Mode} {clause : Clause} (hclause : clause ∈ (draft.clauses family).get mode)
    (hchild : clause.nested = some child) : child.IsFormula :=
  fun node hnode => h node (.owned hclause hchild hnode)

theorem IsFormula.of_clauses {draft : Draft} (hbase : draft.base = [])
    (hraw : draft.rawOptions = [])
    (hclauses : ∀ family mode, ∀ clause ∈ (draft.clauses family).get mode,
      (clause.kind ≠ "bool" ∧ clause.nested = none) ∨ ∃ child, child.placement ≠ .root ∧
        clause = Clause.owning { kind := "bool" } child ∧ child.IsFormula) :
    draft.IsFormula := by
  intro node hnode
  cases hnode with
  | self =>
    refine ⟨hbase, hraw, fun family mode clause hclause => ?_⟩
    rcases hclauses family mode clause hclause with hleaf | ⟨child, hplace, howns, -⟩
    · exact .inl hleaf
    · exact .inr ⟨child, hplace, howns⟩
  | @owned _ child _ family mode clause hclause hchild hnode =>
    rcases hclauses family mode clause hclause with ⟨-, hleaf⟩ | ⟨_, -, rfl, hformula⟩
    · simp [hleaf] at hchild
    · obtain rfl := Option.some.inj hchild
      exact hformula node hnode

/-- A leaf is as true as its document, and a group as the bool clause it is rendered to,
once that is known of the draft in it. -/
theorem truth_clause (r : Reading) {clause : Clause}
    (hclause : (clause.kind ≠ "bool" ∧ clause.nested = none) ∨
      ∃ child, child.placement ≠ .root ∧ clause = Clause.owning { kind := "bool" } child)
    (hchild : ∀ child, clause.nested = some child → child.placement ≠ .root →
      ∀ object, child.render = .ok object →
        (Clause.nestedBody "bool" object).keys.Nodup ∧
          r.bool (Clause.nestedBody "bool" object) = child.truth r)
    {object : Object} (h : clause.render = .ok object) :
    (Value.object object).truth r = clause.truth r := by
  rcases hclause with ⟨hkind, hleaf⟩ | ⟨child, hplace, rfl⟩
  · obtain ⟨kind, payload, options, nested⟩ := clause
    obtain rfl : nested = none := hleaf
    obtain rfl := Except.ok.inj h
    exact truth_leaf r hkind _
  · obtain ⟨inner, hinner, rfl⟩ := Clause.render_owning h
    obtain ⟨hkeys, htruth⟩ := hchild child rfl hplace inner hinner
    have hown : Clause.ownBody { kind := "bool" } = [] := rfl
    rw [hown, Keyed.nil_extend hkeys, truth_bool, htruth]
    rfl

/-- What an owned formula yields is as true as the formula. -/
theorem bool_of_render (r : Reading) {draft : Draft} (hformula : draft.IsFormula)
    (hplace : draft.placement ≠ .root) {object : Object} (h : draft.render = .ok object) :
    (Clause.nestedBody "bool" object).keys.Nodup ∧
      r.bool (Clause.nestedBody "bool" object) = draft.truth r := by
  induction draft using tree_induction generalizing object with
  | step draft ih =>
    obtain ⟨hbase, hraw, hclauses⟩ := hformula draft (.self draft)
    have hnoRaw : "query" ∉ Keyed.keys draft.rawOptions := by simp [hraw, Keyed.keys]
    obtain ⟨filters, queries, hbuilt, hyields⟩ := yields_of_render hplace hnoRaw h
    obtain ⟨hkeys, htruth⟩ := hyields.bool_nestedBody r hbuilt hbase hraw
    refine ⟨hkeys, htruth.trans (hbuilt.truth_eq r fun family mode clause hclause object => ?_)⟩
    exact truth_clause r (hclauses family mode clause hclause) fun child hchild hbelow inner =>
      ih family mode clause child hclause hchild (hformula.child hclause hchild) hbelow

/-- Without bases and raw options only a query below a filter keeps a draft from being
rendered. -/
theorem renders_iff {draft : Draft}
    (hplain : ∀ node, draft.Holds node → node.base = [] ∧ node.rawOptions = []) :
    (∃ object, draft.render = .ok object) ↔
      ∀ node, draft.Holds node → node.placement = .inFilter → node.firstQuery? = none := by
  rw [renders_iff_no_fault]
  constructor
  · intro hnone node hnode hplace
    cases hfirst : node.firstQuery? with
    | none => rfl
    | some clause =>
      exact absurd (.queryBelowFilter clause hplace hfirst) (hnone node hnode _)
  · intro hfree node hnode e hfails
    obtain ⟨hbase, hraw⟩ := hplain node hnode
    obtain ⟨hplace, clause, hfirst, -⟩ := (failsWith_iff_of_plain hbase hraw).1 hfails
    simp [hfree node hnode hplace] at hfirst

/-- A formula is rendered unless a query stands below a filter, and what it is rendered to
is true exactly if the formula is, however leaves and thresholds are read. -/
theorem truth_of_render (r : Reading) {draft : Draft} (hformula : draft.IsFormula) :
    ((∃ object, draft.render = .ok object) ↔
      ∀ node, draft.Holds node → node.placement = .inFilter → node.firstQuery? = none) ∧
    ∀ object, draft.render = .ok object → draft.objectTruth r object = draft.truth r := by
  refine ⟨renders_iff fun node hnode => ?_, fun object hobject => ?_⟩
  · exact ⟨(hformula node hnode).1, (hformula node hnode).2.1⟩
  obtain ⟨hbase, hraw, hclauses⟩ := hformula draft (.self draft)
  by_cases hroot : draft.placement = .root
  · obtain ⟨filters, queries, request, hbuilt, hwritten, hfinish⟩ := render_ok hobject
    rw [hbuilt.objectTruth_eq r hwritten hfinish hroot hbase hraw]
    refine hbuilt.truth_eq r fun family mode clause hclause built => ?_
    exact truth_clause r (hclauses family mode clause hclause) fun child hchild hbelow inner =>
      bool_of_render r (hformula.child hclause hchild) hbelow
  · have hnested : draft.placement.isNested = true := by simpa [Placement.isNested] using hroot
    rw [objectTruth, if_pos hnested, truth_bool]
    exact (bool_of_render r hformula hroot hobject).2

def termsOnly : Reading where
  leaf := fun document => document.contains "term"
  need := fun threshold count =>
    match threshold with
    | .int needed => needed.toNat
    | _ => count

def eitherFilter : Draft :=
  { placement := .inQuery
    filters := ⟨[], [{ kind := "term", payload := .fieldValue "a" (.int 1) },
      { kind := "exists", payload := .field "b" }], []⟩ }

def bothQueries : Draft :=
  { queries := ⟨[], [{ kind := "term", payload := .fieldValue "c" (.int 2) },
      Clause.owning { kind := "bool" } eitherFilter], []⟩
    queryThreshold := some 2 }

theorem truth_of_render_bothQueries :
    ∃ object, bothQueries.render = .ok object ∧
      bothQueries.objectTruth termsOnly object = true := by
  have hinner : eitherFilter.IsFormula := by
    refine .of_clauses rfl rfl fun family mode clause hclause => .inl ?_
    cases family <;> cases mode <;>
      simp only [clauses, eitherFilter, ByMode.get, List.mem_cons, List.not_mem_nil,
        or_false] at hclause
    rcases hclause with rfl | rfl
    · exact ⟨by decide, rfl⟩
    · exact ⟨by decide, rfl⟩
  have hformula : bothQueries.IsFormula := by
    refine .of_clauses rfl rfl fun family mode clause hclause => ?_
    cases family <;> cases mode <;>
      simp only [clauses, bothQueries, ByMode.get, List.mem_cons, List.not_mem_nil,
        or_false] at hclause
    rcases hclause with rfl | rfl
    · exact .inl ⟨by decide, rfl⟩
    · exact .inr ⟨eitherFilter, by decide, rfl, hinner⟩
  obtain ⟨object, hobject⟩ : ∃ object, bothQueries.render = .ok object := ⟨_, rfl⟩
  have htruth := (truth_of_render termsOnly hformula).2 object hobject
  exact ⟨object, hobject, htruth.trans rfl⟩

end Draft

end SearchQuery
