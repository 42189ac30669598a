import SearchQuery.Proofs.Conflict
import SearchQuery.Proofs.Tree

/-!
The steps from the rendered clauses of a draft to its object, one fact for each step. A
draft that is rendered has rendered every clause, also where the lone query is written
without a bool clause, and its request object is then known from the objects of the
clauses alone.
-/
namespace SearchQuery

namespace ByMode

variable {α β : Type}

theorem toList_eq_nil_iff {groups : ByMode α} :
    groups.toList = [] ↔ ∀ mode, groups.get mode = [] := by
  constructor
  · intro h mode
    simp only [toList, List.append_eq_nil_iff] at h
    cases mode
    · exact h.1.1
    · exact h.1.2
    · exact h.2
  · intro h
    have hand : groups.and = [] := h .and
    have hor : groups.or = [] := h .or
    have hnot : groups.not = [] := h .not
    simp [toList, hand, hor, hnot]

theorem eq_empty {groups : ByMode α} (h : groups.toList = []) : groups = {} := by
  have hget := toList_eq_nil_iff.1 h
  obtain ⟨_, _, _⟩ := groups
  exact ByMode.mk.injEq .. ▸ ⟨hget .and, hget .or, hget .not⟩

theorem mem_toList_iff {groups : ByMode α} {a : α} :
    a ∈ groups.toList ↔ ∃ mode, a ∈ groups.get mode := by
  constructor
  · intro h
    simp only [toList, List.mem_append] at h
    rcases h with (h | h) | h
    · exact ⟨.and, h⟩
    · exact ⟨.or, h⟩
    · exact ⟨.not, h⟩
  · rintro ⟨mode, h⟩
    cases mode <;> simp_all [toList, get]

theorem toList_map (f : α → β) (groups : ByMode α) :
    (groups.map f).toList = groups.toList.map f := by
  simp [toList, map]

/-- Groups that are mapped to the same things are empty together. -/
theorem toList_eq_nil_iff_of_map {γ : Type} {f : α → γ} {g : β → γ} {groups : ByMode α}
    {others : ByMode β} (h : groups.map f = others.map g) :
    groups.toList = [] ↔ others.toList = [] := by
  have hlist := congrArg toList h
  rw [toList_map, toList_map] at hlist
  rw [← List.map_eq_nil_iff (f := f), hlist, List.map_eq_nil_iff]

theorem onlyOneAnd_iff {groups : ByMode α} :
    groups.onlyOneAnd = true ↔ ∃ a, groups = ⟨[a], [], []⟩ := by
  obtain ⟨and, or, not⟩ := groups
  simp [onlyOneAnd, List.length_eq_one_iff, and_assoc]

theorem onlyOneAnd_map (f : α → β) (groups : ByMode α) :
    (groups.map f).onlyOneAnd = groups.onlyOneAnd := by
  simp [onlyOneAnd, map]

end ByMode

namespace Draft

theorem exists_firstQuery? {draft : Draft} (h : draft.queries.toList ≠ []) :
    ∃ clause, draft.firstQuery? = some clause := by
  obtain ⟨first, rest, hqueries⟩ := List.exists_cons_of_ne_nil h
  exact ⟨first, by rw [firstQuery?, hqueries, List.head?_cons]⟩

def finish (draft : Draft) (request : Object) : Rendered :=
  if draft.placement.isNested then nestedResult (draft.writeRawOptions request)
  else .ok (draft.writeSettings (draft.writeRawOptions request))

def settings (draft : Draft) : List (String × Value) :=
  (if draft.sort.isEmpty then [] else [("sort", draft.sort.toValue)]) ++
    (draft.size.map fun count => ("size", Value.int count.toNat)).toList ++
    (draft.offset.map fun count => ("from", Value.int count.toNat)).toList

theorem writeSettings_eq (draft : Draft) (request : Object) :
    draft.writeSettings request = request.extend draft.settings := by
  unfold writeSettings settings
  cases draft.sort.isEmpty <;> cases draft.size <;> cases draft.offset <;> rfl

/-- A root draft writes its raw options over the request object, and then its settings. -/
theorem finish_root {draft : Draft} (hroot : draft.placement = .root) (request : Object) :
    draft.finish request = .ok (request.extend (draft.rawOptions ++ draft.settings)) := by
  have hplace : draft.placement.isNested = false := by simp [hroot, Placement.isNested]
  rw [finish, hplace, writeSettings_eq, writeRawOptions, Keyed.extend_append]
  rfl

theorem assemble_of_query {draft : Draft} {clause : Clause}
    (hplace : draft.placement = .inFilter) (hfirst : draft.firstQuery? = some clause)
    (clauses : RenderedClauses) :
    draft.assemble clauses = .error (.contextViolation clause.kind) := by
  simp [assemble, hplace, hfirst, throw, throwThe, MonadExceptOf.throw, bind, Except.bind]

theorem assemble_of_no_query {draft : Draft}
    (h : draft.placement = .inFilter → draft.firstQuery? = none)
    (clauses : RenderedClauses) :
    draft.assemble clauses = (do
      let hasBool ← baseHasBool draft.base
      let request ← draft.withClauses hasBool clauses
      draft.finish request) := by
  unfold assemble
  by_cases hplace : draft.placement = .inFilter
  · simp only [hplace, h hplace, if_true, finish]
    rfl
  · simp only [hplace, if_false, finish]
    rfl

theorem baseHasBool_ok {base : Object} {hasBool : Bool} (h : baseHasBool base = .ok hasBool) :
    (base.get? "query" = none ∧ hasBool = false) ∨
      ∃ query, base.get? "query" = some (.object query) ∧
        Keyed.contains query "bool" = true ∧ hasBool = true := by
  unfold baseHasBool at h
  split at h
  · next hquery => exact .inl ⟨hquery, (Except.ok.inj h).symm⟩
  · next query hquery =>
    split at h
    · next hcontains => exact .inr ⟨query, hquery, hcontains, (Except.ok.inj h).symm⟩
    · simp at h
  · simp at h

theorem has_none_eq_false {draft : Draft} {family : Family} :
    draft.has family none = false ↔ (draft.clauses family).toList = [] := by
  simp [has, ByMode.any]

theorem isLoneQuery_iff {draft : Draft} {hasBool : Bool} :
    draft.isLoneQuery hasBool = true ↔
      draft.placement = .root ∧ hasBool = false ∧ draft.filters.toList = [] ∧
        ∃ clause, draft.queries = ⟨[clause], [], []⟩ := by
  simp [isLoneQuery, has_none_eq_false, ByMode.onlyOneAnd_iff, clauses, and_assoc]

def renderedClauses (draft : Draft) : RenderedClauses :=
  ⟨draft.filters.map Clause.render, draft.queries.map Clause.render⟩

theorem get_renderedClauses (draft : Draft) (family : Family) (mode : Mode) :
    draft.renderedClauses.get family mode =
      ((draft.clauses family).get mode).map Clause.render := by
  cases family <;> exact ByMode.get_map ..

theorem withClauses_lone {draft : Draft} {clause : Clause} {hasBool : Bool}
    (h : draft.isLoneQuery hasBool = true) (hqueries : draft.queries = ⟨[clause], [], []⟩) :
    draft.withClauses hasBool draft.renderedClauses =
      clause.render.map fun object => draft.base.insert "query" (.object object) := by
  have hand : draft.renderedClauses.queries.and = [clause.render] := by
    simp [renderedClauses, hqueries, ByMode.map]
  unfold withClauses
  rw [h, hand]
  cases clause.render <;> rfl

theorem withClauses_of_not_lone {draft : Draft} {hasBool : Bool}
    (h : draft.isLoneQuery hasBool = false) (clauses : RenderedClauses) :
    draft.withClauses hasBool clauses = draft.writeClauses clauses := by
  unfold withClauses
  rw [h]

structure Built (draft : Draft) (filters queries : ByMode Object) : Prop where
  filters_eq : draft.filters.map Clause.render = filters.map .ok
  queries_eq : draft.queries.map Clause.render = queries.map .ok

def byFamily (filters queries : ByMode Object) : Family → ByMode Object
  | .filter => filters
  | .query => queries

theorem Built.get_eq {draft : Draft} {filters queries : ByMode Object}
    (h : draft.Built filters queries) (family : Family) (mode : Mode) :
    ((draft.clauses family).get mode).map Clause.render =
      ((byFamily filters queries family).get mode).map .ok := by
  cases family
  · rw [← ByMode.get_map, ← ByMode.get_map, clauses, h.filters_eq, byFamily]
  · rw [← ByMode.get_map, ← ByMode.get_map, clauses, h.queries_eq, byFamily]

/-- Every clause of a draft has its object among those of its group. -/
theorem Built.exists_object {draft : Draft} {filters queries : ByMode Object}
    (h : draft.Built filters queries) {family : Family} {mode : Mode} {clause : Clause}
    (hclause : clause ∈ (draft.clauses family).get mode) :
    ∃ object ∈ (byFamily filters queries family).get mode, clause.render = .ok object := by
  have hmem : clause.render ∈ ((draft.clauses family).get mode).map Clause.render :=
    List.mem_map_of_mem hclause
  rw [h.get_eq] at hmem
  obtain ⟨object, hobject, hrender⟩ := List.mem_map.1 hmem
  exact ⟨object, hobject, hrender.symm⟩

/-- Every object of a group is rendered from one of its clauses. -/
theorem Built.exists_clause {draft : Draft} {filters queries : ByMode Object}
    (h : draft.Built filters queries) {family : Family} {mode : Mode} {object : Object}
    (hobject : object ∈ (byFamily filters queries family).get mode) :
    ∃ clause ∈ (draft.clauses family).get mode, clause.render = .ok object := by
  have hmem : Except.ok object ∈ ((byFamily filters queries family).get mode).map
      (Except.ok : Object → Rendered) := List.mem_map_of_mem hobject
  rw [← h.get_eq] at hmem
  exact List.mem_map.1 hmem

theorem exists_objects {group : List Rendered} (h : group.findSome? failure? = none) :
    ∃ objects : List Object, group = objects.map .ok := by
  rw [List.findSome?_eq_none_iff] at h
  induction group with
  | nil => exact ⟨[], rfl⟩
  | cons rendered rest ih =>
    obtain ⟨object, rfl⟩ := failure?_eq_none.1 (h rendered List.mem_cons_self)
    obtain ⟨objects, rfl⟩ := ih fun other hother => h other (List.mem_cons_of_mem _ hother)
    exact ⟨object :: objects, rfl⟩

theorem exists_built {draft : Draft}
    (h : ∀ family mode,
      (draft.renderedClauses.get family mode).findSome? failure? = none) :
    ∃ filters queries, draft.Built filters queries := by
  have hgroups : ∀ groups : ByMode Rendered,
      (∀ mode, (groups.get mode).findSome? failure? = none) →
      ∃ objects : ByMode Object, groups = objects.map .ok := by
    intro groups hgroups
    obtain ⟨and, hand⟩ := exists_objects (hgroups .and)
    obtain ⟨or, hor⟩ := exists_objects (hgroups .or)
    obtain ⟨not, hnot⟩ := exists_objects (hgroups .not)
    obtain ⟨_, _, _⟩ := groups
    exact ⟨⟨and, or, not⟩, ByMode.mk.injEq .. ▸ ⟨hand, hor, hnot⟩⟩
  obtain ⟨filters, hfilters⟩ := hgroups _ (h .filter)
  obtain ⟨queries, hqueries⟩ := hgroups _ (h .query)
  exact ⟨filters, queries, hfilters, hqueries⟩

theorem conflict_of_no_query {base : Object} (h : base.get? "query" = none) (slot : Slot) :
    slot.conflict base = none := by
  have hquery : base.objectAt? "query" = some [] := by simp [Object.objectAt?, h]
  have hbool : Object.objectAt? [] "bool" = some [] := rfl
  cases slot <;> simp only [Slot.conflict, conflictAt, hquery, hbool]
  rfl

/-- The clauses of a draft fail to be written with the first error of a group on the base,
the lone query included. -/
theorem failure?_withClauses {draft : Draft} {hasBool : Bool}
    (hbase : baseHasBool draft.base = .ok hasBool) :
    failure? (draft.withClauses hasBool draft.renderedClauses) =
      groups.findSome? fun group => draft.groupFailure draft.base group.1
        (draft.renderedClauses.get group.1 group.2) := by
  cases hlone : draft.isLoneQuery hasBool with
  | false => rw [withClauses_of_not_lone hlone, failure?_writeClauses]
  | true =>
    obtain ⟨-, rfl, hfilters, clause, hqueries⟩ := isLoneQuery_iff.1 hlone
    have hopen : ∀ slot : Slot, slot.conflict draft.base = none := by
      obtain ⟨hquery, -⟩ | ⟨_, -, -, habsurd⟩ := baseHasBool_ok hbase
      · exact conflict_of_no_query hquery
      · exact absurd habsurd (by decide)
    have hnone := ByMode.eq_empty hfilters
    have hgroups : groups = [(.filter, .and), (.filter, .or), (.filter, .not),
      (.query, .and), (.query, .or), (.query, .not)] := rfl
    rw [withClauses_lone hlone hqueries, failure?_map, hgroups]
    simp only [groupFailure, get_renderedClauses, hopen, clauses, hnone, hqueries, ByMode.get]
    cases hclause : clause.render <;> simp [hclause, failure?]

theorem Built.clauses_eq {draft : Draft} {filters queries : ByMode Object}
    (h : draft.Built filters queries) : draft.renderedClauses = noErrors filters queries := by
  rw [renderedClauses, noErrors, h.filters_eq, h.queries_eq]

theorem Built.filters_empty_iff {draft : Draft} {filters queries : ByMode Object}
    (h : draft.Built filters queries) : draft.filters.toList = [] ↔ filters.toList = [] :=
  ByMode.toList_eq_nil_iff_of_map h.filters_eq

theorem Built.queries_empty_iff {draft : Draft} {filters queries : ByMode Object}
    (h : draft.Built filters queries) : draft.queries.toList = [] ↔ queries.toList = [] :=
  ByMode.toList_eq_nil_iff_of_map h.queries_eq

theorem Built.has_iff {draft : Draft} {filters queries : ByMode Object}
    (h : draft.Built filters queries) (family : Family) :
    draft.has family none = true ↔ (byFamily filters queries family).toList ≠ [] := by
  rw [← Bool.not_eq_false, has_none_eq_false]
  cases family with
  | filter => exact not_congr h.filters_empty_iff
  | query => exact not_congr h.queries_empty_iff

theorem Built.onlyOneAnd_eq {draft : Draft} {filters queries : ByMode Object}
    (h : draft.Built filters queries) : draft.queries.onlyOneAnd = queries.onlyOneAnd := by
  rw [← ByMode.onlyOneAnd_map Clause.render, h.queries_eq, ByMode.onlyOneAnd_map]

/-- The request objects that the clauses of a draft can leave, by the way they are
written: the lone query, nothing at all, the filters of a draft below a filter, or all
clauses in the bool clause of the query. -/
inductive Written (draft : Draft) (filters queries : ByMode Object) : Object → Prop
  | lone (object : Object) (hplace : draft.placement = .root)
      (hbase : draft.base.get? "query" = none) (hfilters : filters = {})
      (hqueries : queries = ⟨[object], [], []⟩) :
      Written draft filters queries (draft.base.insert "query" (.object object))
  | nothing (hfilters : filters = {}) (hqueries : queries = {}) :
      Written draft filters queries draft.base
  | inQuery (query : Object) (hplace : draft.placement = .inFilter)
      (hfilters : filters.toList ≠ []) (hqueries : queries = {})
      (hquery : draft.base.objectAt? "query" = some query) :
      Written draft filters queries (draft.base.insert "query" (.object
        (addGroups draft.simpleFilter draft.filterThreshold filters query)))
  | inBool (query body filled : Object) (hplace : draft.placement ≠ .inFilter)
      (hsome : filters.toList ≠ [] ∨ queries.toList ≠ [])
      (hlone : ¬ (draft.placement = .root ∧ draft.base.get? "query" = none ∧ filters = {} ∧
        ∃ object, queries = ⟨[object], [], []⟩))
      (hquery : draft.base.objectAt? "query" = some query)
      (hbody : query.objectAt? "bool" = some body)
      (hfilled : draft.fillBool filters queries body = .ok filled) :
      Written draft filters queries (draft.base.insert "query" (.object
        (query.insert "bool" (.object filled))))

/-- What the clauses of a draft leave in the request object once they all are rendered. -/
theorem Written.of_withClauses {draft : Draft} {filters queries : ByMode Object}
    (hbuilt : draft.Built filters queries)
    (hfirst : draft.placement = .inFilter → draft.firstQuery? = none) {hasBool : Bool}
    (hbase : baseHasBool draft.base = .ok hasBool) {request : Object}
    (h : draft.withClauses hasBool draft.renderedClauses = .ok request) :
    draft.Written filters queries request := by
  cases hlone : draft.isLoneQuery hasBool with
  | true =>
    obtain ⟨hplace, rfl, hfilters, clause, hclause⟩ := isLoneQuery_iff.1 hlone
    have hone : queries.onlyOneAnd = true :=
      hbuilt.onlyOneAnd_eq ▸ ByMode.onlyOneAnd_iff.2 ⟨clause, hclause⟩
    obtain ⟨object, rfl⟩ := ByMode.onlyOneAnd_iff.1 hone
    have hrender : clause.render = .ok object := by
      simpa [hclause, ByMode.map] using hbuilt.queries_eq
    rw [withClauses_lone hlone hclause, hrender] at h
    obtain rfl := Except.ok.inj h
    obtain ⟨hquery, -⟩ | ⟨_, -, -, habsurd⟩ := baseHasBool_ok hbase
    · exact .lone object hplace hquery
        (ByMode.eq_empty (hbuilt.filters_empty_iff.1 hfilters)) rfl
    · exact absurd habsurd (by decide)
  | false =>
    rw [withClauses_of_not_lone hlone, hbuilt.clauses_eq] at h
    by_cases hsome : filters.toList = [] ∧ queries.toList = []
    · obtain ⟨rfl, rfl⟩ := hsome.imp ByMode.eq_empty ByMode.eq_empty
      rw [writeClauses_empty] at h
      obtain rfl := Except.ok.inj h
      exact .nothing rfl rfl
    by_cases hplace : draft.placement = .inFilter
    · have hqueries : queries.toList = [] :=
        hbuilt.queries_empty_iff.1 (List.head?_eq_none_iff.1 (hfirst hplace))
      have hfilters : filters.toList ≠ [] := fun hnil => hsome ⟨hnil, hqueries⟩
      obtain rfl := ByMode.eq_empty hqueries
      rw [writeClauses_eq_inQuery hplace hfilters] at h
      obtain ⟨query, _, hquery, hchanged, rfl⟩ := within_ok h
      obtain rfl := Except.ok.inj hchanged
      exact .inQuery query hplace hfilters rfl hquery
    · have hor : filters.toList ≠ [] ∨ queries.toList ≠ [] := by
        by_cases hnil : filters.toList = []
        · exact .inr fun h => hsome ⟨hnil, h⟩
        · exact .inl hnil
      rw [writeClauses_eq_inBool hplace hor] at h
      obtain ⟨query, _, hquery, hchanged, rfl⟩ := within_ok h
      obtain ⟨body, filled, hbody, hfilled, rfl⟩ := within_ok hchanged
      refine .inBool query body filled hplace hor ?_ hquery hbody hfilled
      -- A lone query would have been found, since the base has no bool clause then.
      rintro ⟨hroot, hnone, rfl, object, rfl⟩
      have hone : draft.queries.onlyOneAnd = true := hbuilt.onlyOneAnd_eq
      have hfree : hasBool = false := by
        simpa [baseHasBool, hnone] using hbase.symm
      have htrue := isLoneQuery_iff.2 ⟨hroot, hfree, hbuilt.filters_empty_iff.2 rfl,
        ByMode.onlyOneAnd_iff.1 hone⟩
      simp [hlone] at htrue

/-- Where the clauses of a draft are written without an error, all of them are rendered. -/
theorem exists_written {draft : Draft}
    (hfirst : draft.placement = .inFilter → draft.firstQuery? = none) {hasBool : Bool}
    (hbase : baseHasBool draft.base = .ok hasBool) {request : Object}
    (h : draft.withClauses hasBool draft.renderedClauses = .ok request) :
    ∃ filters queries, draft.Built filters queries ∧
      draft.Written filters queries request := by
  have hfailure := failure?_withClauses hbase
  rw [h] at hfailure
  have hgroups : ∀ family mode,
      (draft.renderedClauses.get family mode).findSome? failure? = none := by
    intro family mode
    have hnone := List.findSome?_eq_none_iff.1 hfailure.symm (family, mode)
      (by cases family <;> cases mode <;> decide)
    unfold groupFailure at hnone
    split at hnone
    · next hempty => simp [List.isEmpty_iff.1 hempty]
    · exact (Option.or_eq_none_iff.1 hnone).1
  obtain ⟨filters, queries, hbuilt⟩ := exists_built hgroups
  exact ⟨filters, queries, hbuilt, .of_withClauses hbuilt hfirst hbase h⟩

theorem render_eq_assemble (draft : Draft) :
    draft.render = draft.assemble draft.renderedClauses :=
  draft.render_eq

theorem render_of_withClauses {draft : Draft}
    (hfirst : draft.placement = .inFilter → draft.firstQuery? = none) {hasBool : Bool}
    (hbase : baseHasBool draft.base = .ok hasBool) {request : Object}
    (h : draft.withClauses hasBool draft.renderedClauses = .ok request) :
    draft.render = draft.finish request := by
  rw [render_eq_assemble, assemble_of_no_query hfirst]
  simp [hbase, h, bind, Except.bind]

/-- A draft that is rendered has written its clauses into its base, and its object is what is
made of the request object with them. -/
theorem withClauses_of_render {draft : Draft} {object : Object}
    (h : draft.render = .ok object) :
    ∃ hasBool request, (draft.placement = .inFilter → draft.firstQuery? = none) ∧
      baseHasBool draft.base = .ok hasBool ∧
      draft.withClauses hasBool draft.renderedClauses = .ok request ∧
      draft.finish request = .ok object := by
  have hfirst : draft.placement = .inFilter → draft.firstQuery? = none := by
    intro hplace
    cases hclause : draft.firstQuery? with
    | none => rfl
    | some clause =>
      rw [render_eq, assemble_of_query hplace hclause] at h
      simp at h
  rw [render_eq_assemble, assemble_of_no_query hfirst] at h
  cases hbase : baseHasBool draft.base with
  | error e => simp [hbase, bind, Except.bind] at h
  | ok hasBool =>
    cases hrequest : draft.withClauses hasBool draft.renderedClauses with
    | error e => simp [hbase, hrequest, bind, Except.bind] at h
    | ok request =>
      refine ⟨hasBool, request, hfirst, rfl, hrequest, ?_⟩
      simpa [hbase, hrequest, bind, Except.bind] using h

/-- A draft that is rendered has rendered its clauses, and its object is what is made of
one of the request objects that they can leave. -/
theorem render_ok {draft : Draft} {object : Object} (h : draft.render = .ok object) :
    ∃ filters queries request, draft.Built filters queries ∧
      draft.Written filters queries request ∧ draft.finish request = .ok object := by
  obtain ⟨hasBool, request, hfirst, hbase, hrequest, hfinish⟩ := withClauses_of_render h
  obtain ⟨filters, queries, hbuilt, hwritten⟩ := exists_written hfirst hbase hrequest
  exact ⟨filters, queries, request, hbuilt, hwritten, hfinish⟩

theorem get?_writeRawOptions {draft : Draft} (h : "query" ∉ Keyed.keys draft.rawOptions)
    (request : Object) : (draft.writeRawOptions request).get? "query" = request.get? "query" := by
  rw [writeRawOptions, Keyed.get?_extend, Keyed.last?_eq_none h, Option.none_or]

/-- An owned draft without a raw query yields the query of its request object, or all of
it where there is no query. -/
theorem finish_nested {draft : Draft} (hplace : draft.placement ≠ .root)
    (hraw : "query" ∉ Keyed.keys draft.rawOptions) {request object : Object}
    (h : draft.finish request = .ok object) :
    (request.get? "query" = none ∧ object = draft.writeRawOptions request) ∨
      request.get? "query" = some (.object object) := by
  have hnested : draft.placement.isNested = true := by simpa [Placement.isNested] using hplace
  rw [finish, if_pos hnested, nestedResult, get?_writeRawOptions hraw] at h
  cases hquery : request.get? "query" with
  | none =>
    rw [hquery] at h
    exact .inl ⟨rfl, (Except.ok.inj h).symm⟩
  | some value =>
    rw [hquery] at h
    cases value with
    | object query =>
      obtain rfl := Except.ok.inj h
      exact .inr rfl
    | _ => simp at h

/-- What an owned draft without a raw query can yield, by the way its clauses are
written. -/
inductive Yields (draft : Draft) (filters queries : ByMode Object) : Object → Prop
  | nothing (object : Object) (hfilters : filters = {}) (hqueries : queries = {})
      (hquery : ∀ query, draft.base.get? "query" = some (.object query) → object = query)
      (hnone : draft.base.get? "query" = none → object = draft.writeRawOptions draft.base) :
      Yields draft filters queries object
  | inQuery (query : Object) (hplace : draft.placement = .inFilter) (hqueries : queries = {})
      (hquery : draft.base.objectAt? "query" = some query) :
      Yields draft filters queries
        (addGroups draft.simpleFilter draft.filterThreshold filters query)
  | inBool (query body filled : Object) (hplace : draft.placement ≠ .inFilter)
      (hquery : draft.base.objectAt? "query" = some query)
      (hbody : query.objectAt? "bool" = some body)
      (hfilled : draft.fillBool filters queries body = .ok filled) :
      Yields draft filters queries (query.insert "bool" (.object filled))

theorem yields_of_render {draft : Draft} (hplace : draft.placement ≠ .root)
    (hraw : "query" ∉ Keyed.keys draft.rawOptions) {object : Object}
    (h : draft.render = .ok object) :
    ∃ filters queries, draft.Built filters queries ∧ draft.Yields filters queries object := by
  obtain ⟨filters, queries, request, hbuilt, hwritten, hfinish⟩ := render_ok h
  refine ⟨filters, queries, hbuilt, ?_⟩
  have hyield := finish_nested hplace hraw hfinish
  cases hwritten with
  | lone _ hroot => exact absurd hroot hplace
  | nothing hfilters hqueries =>
    rcases hyield with ⟨hnone, hobject⟩ | hobject
    · exact .nothing object hfilters hqueries (fun query hquery => by simp [hquery] at hnone)
        fun _ => hobject
    · exact .nothing object hfilters hqueries
        (fun query hquery => by simpa [hquery] using hobject.symm)
        fun hnone => by simp [hobject] at hnone
  | inQuery query hinFilter hfilters hqueries hquery =>
    rw [Keyed.get?_insert_self] at hyield
    obtain rfl : _ = object := by simpa using hyield
    exact .inQuery query hinFilter hqueries hquery
  | inBool query body filled hbelow hsome hlone hquery hbody hfilled =>
    rw [Keyed.get?_insert_self] at hyield
    obtain rfl : _ = object := by simpa using hyield
    exact .inBool query body filled hbelow hquery hbody hfilled

end Draft

end SearchQuery
