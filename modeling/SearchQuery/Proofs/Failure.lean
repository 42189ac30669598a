import SearchQuery.Proofs.Assembly

/-!
When a draft cannot be rendered. Each node of its tree has faults of its own, which can be
read off the node: a query below a filter, a base that cannot take the clauses, a raw
query that is no object. A draft is rendered exactly if no node of its tree has a fault,
and otherwise the error is the first fault in the order in which clauses are written.
-/
namespace SearchQuery

namespace Draft

/-- The errors that a node of a tree causes by itself. -/
inductive FailsWith (draft : Draft) : DraftError → Prop
  /-- A draft below a filter holds a query. -/
  | queryBelowFilter (clause : Clause) (hplace : draft.placement = .inFilter)
      (hfirst : draft.firstQuery? = some clause) :
      FailsWith draft (.contextViolation clause.kind)
  /-- The query of the base is no object with a bool clause in it. -/
  | baseQuery (value : Value) (hquery : draft.base.get? "query" = some value)
      (hvalue : ¬ ∃ query, value = .object query ∧ Keyed.contains query "bool" = true) :
      FailsWith draft (.structuralConflict "query")
  /-- There are clauses, and the bool clause of the base is no object. -/
  | baseBool (query : Object) (value : Value) (hplace : draft.placement ≠ .inFilter)
      (hclauses : ∃ family, draft.has family none = true)
      (hquery : draft.base.get? "query" = some (.object query))
      (hbool : query.get? "bool" = some value) (hvalue : ∀ body, value ≠ .object body) :
      FailsWith draft (.structuralConflict "query.bool")
  /-- There are filters for a bool clause of their own, and the filter of the base is
  neither an object nor an array. -/
  | baseFilter (query body : Object) (value : Value) (hplace : draft.placement ≠ .inFilter)
      (hfilters : draft.has .filter none = true) (hsimple : draft.simpleFilter = false)
      (hquery : draft.base.get? "query" = some (.object query))
      (hbool : query.get? "bool" = some (.object body))
      (hfilter : body.get? "filter" = some value) (hobject : ∀ outer, value ≠ .object outer)
      (harray : ∀ values, value ≠ .array values) :
      FailsWith draft (.structuralConflict "query.bool.filter")
  /-- There are filters for a bool clause of their own, and the filter of the base has a
  bool clause that is no object. -/
  | baseFilterBool (query body outer : Object) (value : Value)
      (hplace : draft.placement ≠ .inFilter)
      (hfilters : draft.has .filter none = true) (hsimple : draft.simpleFilter = false)
      (hquery : draft.base.get? "query" = some (.object query))
      (hbool : query.get? "bool" = some (.object body))
      (hfilter : body.get? "filter" = some (.object outer))
      (hinner : outer.get? "bool" = some value) (hvalue : ∀ inner, value ≠ .object inner) :
      FailsWith draft (.structuralConflict "query.bool.filter.bool")
  /-- The last raw query of an owned draft is no object. -/
  | rawQuery (value : Value) (hplace : draft.placement ≠ .root)
      (hraw : Keyed.last? draft.rawOptions "query" = some value)
      (hvalue : ∀ query, value ≠ .object query) :
      FailsWith draft (.structuralConflict "query")

def contextFaults (draft : Draft) : List DraftError :=
  if draft.placement = .inFilter then
    (draft.firstQuery?.map fun clause => .contextViolation clause.kind).toList
  else []

def baseFaults (draft : Draft) : List DraftError := (failure? (baseHasBool draft.base)).toList

def slotFaults (draft : Draft) (family : Family) : List DraftError :=
  ((draft.slot family).conflict draft.base).toList

def rawFaults (draft : Draft) : List DraftError :=
  if draft.placement.isNested then
    match Keyed.last? draft.rawOptions "query" with
    | none => []
    | some (.object _) => []
    | some _ => [.structuralConflict "query"]
  else []

def groupFaults (draft : Draft) (family : Family) (group : List (List DraftError)) :
    List DraftError :=
  if group.isEmpty then [] else group.flatten ++ draft.slotFaults family

def faultsWith (draft : Draft) (filters queries : ByMode (List DraftError)) :
    List DraftError :=
  draft.contextFaults ++ draft.baseFaults ++
    groups.flatMap (fun group => draft.groupFaults group.1 ((match group.1 with
      | .filter => filters
      | .query => queries).get group.2)) ++
    draft.rawFaults

end Draft

mutual

def Clause.faults : Clause → List DraftError
  | ⟨_, _, _, nested⟩ => nestedFaults nested

def nestedFaults : Option Draft → List DraftError
  | none => []
  | some draft => draft.faults

/-- The faults in the tree of a draft, in the order in which they are met. -/
def Draft.faults : Draft → List DraftError
  | ⟨base, placement, filters, queries, rawOptions, sort, size, offset, filterThreshold,
      queryThreshold⟩ =>
    Draft.faultsWith ⟨base, placement, filters, queries, rawOptions, sort, size, offset,
        filterThreshold, queryThreshold⟩ (groupsFaults filters) (groupsFaults queries)

def groupsFaults : ByMode Clause → ByMode (List DraftError)
  | ⟨and, or, not⟩ => ⟨listFaults and, listFaults or, listFaults not⟩

def listFaults : List Clause → List (List DraftError)
  | [] => []
  | clause :: rest => clause.faults :: listFaults rest

end

theorem listFaults_eq_map (clauses : List Clause) :
    listFaults clauses = clauses.map Clause.faults := by
  induction clauses with
  | nil => rfl
  | cons clause rest ih => simp [listFaults, ih]

theorem groupsFaults_eq_map (groups : ByMode Clause) :
    groupsFaults groups = groups.map Clause.faults := by
  cases groups
  simp [groupsFaults, ByMode.map, listFaults_eq_map]

theorem Clause.faults_eq (clause : Clause) :
    clause.faults = clause.nested.elim [] Draft.faults := by
  obtain ⟨kind, payload, options, _ | draft⟩ := clause <;> rfl

namespace Draft

theorem faults_eq (draft : Draft) :
    draft.faults =
      draft.contextFaults ++ draft.baseFaults ++
        groups.flatMap (fun group => draft.groupFaults group.1
          (((draft.clauses group.1).get group.2).map Clause.faults)) ++
        draft.rawFaults := by
  have hunfold : draft.faults =
      draft.faultsWith (groupsFaults draft.filters) (groupsFaults draft.queries) := by
    cases draft
    rfl
  rw [hunfold, faultsWith, groupsFaults_eq_map, groupsFaults_eq_map]
  congr 3
  funext group
  obtain ⟨family, mode⟩ := group
  cases family <;> simp [ByMode.get_map, clauses]

theorem head?_groupFaults {draft : Draft} {family : Family} {group : List Clause}
    (h : ∀ clause ∈ group, failure? clause.render = clause.faults.head?) :
    (draft.groupFaults family (group.map Clause.faults)).head? =
      draft.groupFailure draft.base family (group.map Clause.render) := by
  have hclauses : (group.map Clause.render).findSome? failure? =
      (group.map Clause.faults).flatten.head? := by
    rw [List.findSome?_map, ← List.flatMap_def, List.head?_flatMap]
    induction group with
    | nil => rfl
    | cons clause rest ih =>
      rw [List.findSome?_cons, List.findSome?_cons, Function.comp_apply,
        h clause List.mem_cons_self, ih fun other hother => h other (List.mem_cons_of_mem _ hother)]
  unfold groupFaults groupFailure
  rw [List.isEmpty_map, List.isEmpty_map, hclauses]
  split
  · rfl
  · rw [List.head?_append, slotFaults]
    cases (draft.slot family).conflict draft.base <;> rfl

/-- Once the clauses are in a request object, its query is an object if there is one. -/
theorem Written.query_object {draft : Draft} {filters queries : ByMode Object}
    {request : Object} (h : draft.Written filters queries request) {hasBool : Bool}
    (hbase : baseHasBool draft.base = .ok hasBool) {value : Value}
    (hvalue : request.get? "query" = some value) : ∃ query, value = .object query := by
  cases h with
  | nothing =>
    obtain ⟨hnone, -⟩ | ⟨query, hquery, -⟩ := baseHasBool_ok hbase
    · simp [hnone] at hvalue
    · exact ⟨query, by simpa [hquery] using hvalue.symm⟩
  | _ =>
    rw [Keyed.get?_insert_self] at hvalue
    exact ⟨_, (Option.some.inj hvalue).symm⟩

theorem failure?_finish {draft : Draft} {request : Object}
    (h : ∀ value, request.get? "query" = some value → ∃ query, value = .object query) :
    failure? (draft.finish request) = draft.rawFaults.head? := by
  unfold finish rawFaults
  split
  · unfold nestedResult
    rw [writeRawOptions, Keyed.get?_extend]
    cases hraw : Keyed.last? draft.rawOptions "query" with
    | none =>
      cases hvalue : request.get? "query" with
      | none => rfl
      | some value =>
        obtain ⟨query, rfl⟩ := h value hvalue
        rfl
    | some value => cases value <;> rfl
  · rfl

/-- The outcome of a draft is the first fault in its tree, if there is one. -/
theorem failure?_render (draft : Draft) : failure? draft.render = draft.faults.head? := by
  induction draft using tree_induction with
  | step draft ih =>
    have hclause : ∀ family mode, ∀ clause ∈ (draft.clauses family).get mode,
        failure? clause.render = clause.faults.head? := by
      intro family mode clause hmem
      rw [Clause.render_eq, Clause.faults_eq]
      cases hnested : clause.nested with
      | none => rfl
      | some child => exact (failure?_map ..).trans (ih family mode clause child hmem hnested)
    have hgroups : (groups.flatMap fun group => draft.groupFaults group.1
          (((draft.clauses group.1).get group.2).map Clause.faults)).head? =
        groups.findSome? fun group => draft.groupFailure draft.base group.1
          (draft.renderedClauses.get group.1 group.2) := by
      rw [List.head?_flatMap]
      congr 1
      funext group
      rw [get_renderedClauses, head?_groupFaults (hclause group.1 group.2)]
    -- The parts of the list of faults are met one after the other: a query below a filter
    -- ends it at once, then come the base, the groups and the raw options.
    rw [faults_eq, List.append_assoc, List.append_assoc, List.head?_append]
    by_cases hquery : draft.placement = .inFilter ∧ ∃ clause, draft.firstQuery? = some clause
    · obtain ⟨hplace, clause, hfirst⟩ := hquery
      rw [render_eq, assemble_of_query hplace hfirst]
      simp [contextFaults, hplace, hfirst, failure?]
    · have hfirst : draft.placement = .inFilter → draft.firstQuery? = none := by
        intro hplace
        cases hclause : draft.firstQuery? with
        | none => rfl
        | some clause => exact absurd ⟨hplace, clause, hclause⟩ hquery
      have hcontext : draft.contextFaults = [] := by
        unfold contextFaults
        split
        · next hplace => simp [hfirst hplace]
        · rfl
      rw [hcontext, render_eq_assemble, assemble_of_no_query hfirst, failure?_bind,
        List.head?_nil, Option.none_or, List.head?_append, List.head?_append, hgroups,
        baseFaults]
      cases hbase : baseHasBool draft.base with
      | error e => rfl
      | ok hasBool =>
        rw [← failure?_withClauses hbase]
        change failure? (draft.withClauses hasBool draft.renderedClauses >>= draft.finish) =
          (failure? (draft.withClauses hasBool draft.renderedClauses)).or draft.rawFaults.head?
        cases hrequest : draft.withClauses hasBool draft.renderedClauses with
        | error e => rfl
        | ok request =>
          obtain ⟨_, _, -, hwritten⟩ := exists_written hfirst hbase hrequest
          exact failure?_finish fun value => hwritten.query_object hbase

theorem mem_contextFaults {draft : Draft} {e : DraftError} :
    e ∈ draft.contextFaults ↔
      draft.placement = .inFilter ∧ ∃ clause, draft.firstQuery? = some clause ∧
        e = .contextViolation clause.kind := by
  unfold contextFaults
  split
  · next hplace =>
    cases hfirst : draft.firstQuery? <;> simp [hplace]
  · next hplace => simp [hplace]

theorem mem_baseFaults {draft : Draft} {e : DraftError} :
    e ∈ draft.baseFaults ↔
      e = .structuralConflict "query" ∧ ∃ value, draft.base.get? "query" = some value ∧
        ¬ ∃ query, value = .object query ∧ Keyed.contains query "bool" = true := by
  unfold baseFaults baseHasBool
  cases hquery : draft.base.get? "query" with
  | none => simp [failure?]
  | some value =>
    cases value with
    | object query => cases hbool : Keyed.contains query "bool" <;> simp [failure?, hbool]
    | _ => simp [failure?]

theorem mem_rawFaults {draft : Draft} {e : DraftError} :
    e ∈ draft.rawFaults ↔
      e = .structuralConflict "query" ∧ draft.placement ≠ .root ∧
        ∃ value, Keyed.last? draft.rawOptions "query" = some value ∧
          ∀ query, value ≠ .object query := by
  unfold rawFaults Placement.isNested
  by_cases hplace : draft.placement = .root
  · simp [hplace]
  · cases hraw : Keyed.last? draft.rawOptions "query" with
    | none => simp
    | some value => cases value <;> simp [hplace]

theorem conflictAt_of_none {path key : String} {below : Object → Option DraftError}
    {o : Object} (h : o.get? key = none) : conflictAt path key below o = below [] := by
  simp [conflictAt, Object.objectAt?, h]

theorem conflictAt_of_object {path key : String} {below : Object → Option DraftError}
    {o inner : Object} (h : o.get? key = some (.object inner)) :
    conflictAt path key below o = below inner := by
  simp [conflictAt, Object.objectAt?, h]

theorem conflictAt_of_other {path key : String} {below : Object → Option DraftError}
    {o : Object} {value : Value} (h : o.get? key = some value)
    (hvalue : ∀ inner, value ≠ .object inner) :
    conflictAt path key below o = some (.structuralConflict path) := by
  cases value <;> simp_all [conflictAt, Object.objectAt?]

/-- The slot of a family, by the place of the draft and the way filters are written. -/
theorem slot_cases (draft : Draft) (family : Family) :
    (draft.placement = .inFilter ∧ draft.slot family = .query) ∨
      (draft.placement ≠ .inFilter ∧ draft.slot family = .queryBool) ∨
      (draft.placement ≠ .inFilter ∧ family = .filter ∧ draft.simpleFilter = false ∧
        draft.slot family = .filterBool) := by
  unfold slot
  by_cases hplace : draft.placement = .inFilter
  · simp [hplace]
  · cases family <;> cases draft.simpleFilter <;> simp [hplace]

theorem conflictAt_eq_some {path key : String} {below : Object → Option DraftError}
    {o : Object} {e : DraftError} (hempty : below [] = none)
    (h : conflictAt path key below o = some e) :
    (e = .structuralConflict path ∧
      ∃ value, o.get? key = some value ∧ ∀ inner, value ≠ .object inner) ∨
      ∃ inner, o.get? key = some (.object inner) ∧ below inner = some e := by
  cases hvalue : o.get? key with
  | none => simp [conflictAt_of_none hvalue, hempty] at h
  | some value =>
    by_cases hobject : ∃ inner, value = .object inner
    · obtain ⟨inner, rfl⟩ := hobject
      rw [conflictAt_of_object hvalue] at h
      exact .inr ⟨inner, rfl, h⟩
    · have hother : ∀ inner, value ≠ .object inner := fun inner heq => hobject ⟨inner, heq⟩
      rw [conflictAt_of_other hvalue hother] at h
      exact .inl ⟨(Option.some.inj h).symm, value, rfl, hother⟩

theorem filterConflict_eq_some {body : Object} {e : DraftError}
    (h : Slot.filterConflict body = some e) :
    (e = .structuralConflict "query.bool.filter" ∧
      ∃ value, body.get? "filter" = some value ∧ (∀ outer, value ≠ .object outer) ∧
        ∀ values, value ≠ .array values) ∨
      e = .structuralConflict "query.bool.filter.bool" ∧
        ∃ outer value, body.get? "filter" = some (.object outer) ∧
          Keyed.get? outer "bool" = some value ∧ ∀ inner, value ≠ .object inner := by
  unfold Slot.filterConflict at h
  split at h
  · simp at h
  · next harray =>
    obtain ⟨rfl, value, hvalue, hother⟩ | ⟨outer, houter, hbelow⟩ :=
      conflictAt_eq_some rfl h
    · refine .inl ⟨rfl, value, hvalue, hother, ?_⟩
      rintro values rfl
      exact harray values hvalue
    · obtain ⟨rfl, value, hvalue, hother⟩ | ⟨_, -, hnone⟩ := conflictAt_eq_some rfl hbelow
      · exact .inr ⟨rfl, outer, value, houter, hvalue, hother⟩
      · simp at hnone

theorem filterConflict_of_other {body : Object} {value : Value}
    (h : body.get? "filter" = some value) (hobject : ∀ outer, value ≠ .object outer)
    (harray : ∀ values, value ≠ .array values) :
    Slot.filterConflict body = some (.structuralConflict "query.bool.filter") := by
  unfold Slot.filterConflict
  split
  · next values hvalues =>
    exact absurd (Option.some.inj (h.symm.trans hvalues)) (harray values)
  · exact conflictAt_of_other h hobject

theorem filterConflict_of_inner {body outer : Object} {value : Value}
    (h : body.get? "filter" = some (.object outer)) (hinner : outer.get? "bool" = some value)
    (hvalue : ∀ inner, value ≠ .object inner) :
    Slot.filterConflict body = some (.structuralConflict "query.bool.filter.bool") := by
  simp [Slot.filterConflict, h, conflictAt_of_object h, conflictAt_of_other hinner hvalue]

/-- A conflict that a group of clauses meets in the base is a fault of the draft. -/
theorem FailsWith.of_slotFaults {draft : Draft} {family : Family} {e : DraftError}
    (hclauses : draft.has family none = true) (h : e ∈ draft.slotFaults family) :
    draft.FailsWith e := by
  have hconflict : (draft.slot family).conflict draft.base = some e := by
    simpa [slotFaults] using h
  have hbase : ∀ value, draft.base.get? "query" = some value →
      (∀ query, value ≠ .object query) → draft.FailsWith (.structuralConflict "query") :=
    fun value hquery hother =>
      .baseQuery value hquery fun ⟨query, hvalue, _⟩ => hother query hvalue
  obtain ⟨-, hslot⟩ | ⟨hplace, hslot⟩ | ⟨hplace, rfl, hsimple, hslot⟩ :=
    draft.slot_cases family
  · rw [hslot] at hconflict
    obtain ⟨rfl, value, hquery, hother⟩ | ⟨_, -, hnone⟩ := conflictAt_eq_some rfl hconflict
    · exact hbase value hquery hother
    · simp at hnone
  · rw [hslot] at hconflict
    obtain ⟨rfl, value, hquery, hother⟩ | ⟨query, hquery, hbelow⟩ :=
      conflictAt_eq_some rfl hconflict
    · exact hbase value hquery hother
    obtain ⟨rfl, value, hbool, hother⟩ | ⟨_, -, hnone⟩ := conflictAt_eq_some rfl hbelow
    · exact .baseBool query value hplace ⟨family, hclauses⟩ hquery hbool hother
    · simp at hnone
  · rw [hslot] at hconflict
    obtain ⟨rfl, value, hquery, hother⟩ | ⟨query, hquery, hbelow⟩ :=
      conflictAt_eq_some rfl hconflict
    · exact hbase value hquery hother
    obtain ⟨rfl, value, hbool, hother⟩ | ⟨body, hbool, hfilter⟩ :=
      conflictAt_eq_some rfl hbelow
    · exact .baseBool query value hplace ⟨.filter, hclauses⟩ hquery hbool hother
    obtain ⟨rfl, value, hvalue, hobject, harray⟩ | ⟨rfl, outer, value, houter, hvalue, hother⟩ :=
      filterConflict_eq_some hfilter
    · exact .baseFilter query body value hplace hclauses hsimple hquery hbool hvalue hobject
        harray
    · exact .baseFilterBool query body outer value hplace hclauses hsimple hquery hbool houter
        hvalue hother

theorem slot_filter_of_not_simple {draft : Draft} (hplace : draft.placement ≠ .inFilter)
    (hsimple : draft.simpleFilter = false) : draft.slot .filter = .filterBool := by
  simp [slot, hplace, hsimple]

/-- The faults that a draft has by itself are those of its context, of its base, of its
base for the clauses it holds, and of its raw options. -/
theorem failsWith_iff {draft : Draft} {e : DraftError} :
    draft.FailsWith e ↔
      e ∈ draft.contextFaults ∨ e ∈ draft.baseFaults ∨
        (∃ family, draft.has family none = true ∧ e ∈ draft.slotFaults family) ∨
        e ∈ draft.rawFaults := by
  constructor
  · intro h
    cases h with
    | queryBelowFilter clause hplace hfirst =>
      exact .inl (mem_contextFaults.2 ⟨hplace, clause, hfirst, rfl⟩)
    | baseQuery value hquery hvalue =>
      exact .inr (.inl (mem_baseFaults.2 ⟨rfl, value, hquery, hvalue⟩))
    | baseBool query value hplace hclauses hquery hbool hvalue =>
      obtain ⟨family, hfamily⟩ := hclauses
      refine .inr (.inr (.inl ⟨family, hfamily, ?_⟩))
      have hslot : draft.slot family = .queryBool ∨ draft.slot family = .filterBool := by
        obtain ⟨habsurd, -⟩ | ⟨-, hslot⟩ | ⟨-, -, -, hslot⟩ := draft.slot_cases family
        · exact absurd habsurd hplace
        · exact .inl hslot
        · exact .inr hslot
      rw [slotFaults]
      rcases hslot with hslot | hslot <;>
        simp [hslot, Slot.conflict, conflictAt_of_object hquery, conflictAt_of_other hbool hvalue]
    | baseFilter query body value hplace hfilters hsimple hquery hbool hfilter hobject harray =>
      refine .inr (.inr (.inl ⟨.filter, hfilters, ?_⟩))
      have hconflict := filterConflict_of_other hfilter hobject harray
      simp [slotFaults, slot_filter_of_not_simple hplace hsimple, Slot.conflict,
        conflictAt_of_object hquery, conflictAt_of_object hbool, hconflict]
    | baseFilterBool query body outer value hplace hfilters hsimple hquery hbool hfilter hinner
        hvalue =>
      refine .inr (.inr (.inl ⟨.filter, hfilters, ?_⟩))
      have hconflict := filterConflict_of_inner hfilter hinner hvalue
      simp [slotFaults, slot_filter_of_not_simple hplace hsimple, Slot.conflict,
        conflictAt_of_object hquery, conflictAt_of_object hbool, hconflict]
    | rawQuery value hplace hraw hvalue =>
      exact .inr (.inr (.inr (mem_rawFaults.2 ⟨rfl, hplace, value, hraw, hvalue⟩)))
  · rintro (h | h | ⟨family, hfamily, h⟩ | h)
    · obtain ⟨hplace, clause, hfirst, rfl⟩ := mem_contextFaults.1 h
      exact .queryBelowFilter clause hplace hfirst
    · obtain ⟨rfl, value, hquery, hvalue⟩ := mem_baseFaults.1 h
      exact .baseQuery value hquery hvalue
    · exact .of_slotFaults hfamily h
    · obtain ⟨rfl, hplace, value, hraw, hvalue⟩ := mem_rawFaults.1 h
      exact .rawQuery value hplace hraw hvalue

theorem mem_groups (family : Family) (mode : Mode) : (family, mode) ∈ groups := by
  cases family <;> cases mode <;> decide

theorem has_none_eq_true {draft : Draft} {family : Family} :
    draft.has family none = true ↔ ∃ mode, (draft.clauses family).get mode ≠ [] := by
  rw [← Bool.not_eq_false, has_none_eq_false, ByMode.toList_eq_nil_iff, Classical.not_forall]

theorem mem_groupFaults {draft : Draft} {family : Family} {group : List Clause}
    {e : DraftError} :
    e ∈ draft.groupFaults family (group.map Clause.faults) ↔
      (∃ clause ∈ group, e ∈ clause.faults) ∨ group ≠ [] ∧ e ∈ draft.slotFaults family := by
  unfold groupFaults
  rw [List.isEmpty_map, ← List.flatMap_def]
  cases group <;> simp [or_assoc]

/-- A fault in a tree is one of the draft on top or one of a draft that a clause owns. -/
theorem mem_faults_iff {draft : Draft} {e : DraftError} :
    e ∈ draft.faults ↔
      draft.FailsWith e ∨ ∃ family mode clause child,
        clause ∈ (draft.clauses family).get mode ∧ clause.nested = some child ∧
          e ∈ child.faults := by
  have hclause : ∀ clause : Clause, e ∈ clause.faults ↔
      ∃ child, clause.nested = some child ∧ e ∈ child.faults := by
    intro clause
    rw [Clause.faults_eq]
    cases clause.nested <;> simp
  rw [faults_eq, failsWith_iff]
  simp only [List.mem_append, List.mem_flatMap, mem_groupFaults, hclause]
  constructor
  · rintro (((h | h) | ⟨⟨family, mode⟩, -, ⟨clause, hmem, child, hchild, h⟩ | ⟨hsome, h⟩⟩) | h)
    · exact .inl (.inl h)
    · exact .inl (.inr (.inl h))
    · exact .inr ⟨family, mode, clause, child, hmem, hchild, h⟩
    · exact .inl (.inr (.inr (.inl ⟨family, has_none_eq_true.2 ⟨mode, hsome⟩, h⟩)))
    · exact .inl (.inr (.inr (.inr h)))
  · rintro ((h | h | ⟨family, hfamily, h⟩ | h) | ⟨family, mode, clause, child, hmem, hchild, h⟩)
    · exact .inl (.inl (.inl h))
    · exact .inl (.inl (.inr h))
    · obtain ⟨mode, hsome⟩ := has_none_eq_true.1 hfamily
      exact .inl (.inr ⟨(family, mode), mem_groups family mode, .inr ⟨hsome, h⟩⟩)
    · exact .inr h
    · exact .inl (.inr ⟨(family, mode), mem_groups family mode,
        .inl ⟨clause, hmem, child, hchild, h⟩⟩)

/-- The faults in a tree are those of its nodes. -/
theorem mem_faults_iff_holds {draft : Draft} {e : DraftError} :
    e ∈ draft.faults ↔ ∃ node, draft.Holds node ∧ node.FailsWith e := by
  induction draft using tree_induction with
  | step draft ih =>
    rw [mem_faults_iff]
    constructor
    · rintro (hown | ⟨family, mode, clause, child, hclause, hchild, hfault⟩)
      · exact ⟨draft, .self draft, hown⟩
      · obtain ⟨node, hnode, hfails⟩ := (ih family mode clause child hclause hchild).1 hfault
        exact ⟨node, .owned hclause hchild hnode, hfails⟩
    · rintro ⟨node, hnode, hfails⟩
      cases hnode with
      | self => exact .inl hfails
      | @owned _ child _ family mode clause hclause hchild hnode =>
        exact .inr ⟨family, mode, clause, child, hclause, hchild,
          (ih family mode clause child hclause hchild).2 ⟨node, hnode, hfails⟩⟩

/-- The error of a draft is a fault of one of its nodes. -/
theorem exists_fault {draft : Draft} {e : DraftError} (h : draft.render = .error e) :
    ∃ node, draft.Holds node ∧ node.FailsWith e := by
  have hfirst : draft.faults.head? = some e := by
    rw [← failure?_render, failure?_eq_some]
    exact h
  exact mem_faults_iff_holds.1 (List.mem_of_head? hfirst)

/-- A draft is rendered unless one of its nodes has a fault. -/
theorem renders_iff_no_fault {draft : Draft} :
    (∃ object, draft.render = .ok object) ↔
      ∀ node, draft.Holds node → ∀ e, ¬ node.FailsWith e := by
  rw [← failure?_eq_none, failure?_render, List.head?_eq_none_iff,
    List.eq_nil_iff_forall_not_mem]
  constructor
  · intro hnone node hnode e hfails
    exact hnone e (mem_faults_iff_holds.2 ⟨node, hnode, hfails⟩)
  · intro hnone e hmem
    obtain ⟨node, hnode, hfails⟩ := mem_faults_iff_holds.1 hmem
    exact hnone node hnode e hfails

/-- A fault anywhere in its tree keeps a draft from being rendered. -/
theorem fails_of_fault {draft node : Draft} {e : DraftError} (hnode : draft.Holds node)
    (hfails : node.FailsWith e) : ∃ error, draft.render = .error error := by
  cases hrender : draft.render with
  | error error => exact ⟨error, rfl⟩
  | ok object => exact absurd hfails (renders_iff_no_fault.1 ⟨object, hrender⟩ node hnode e)

/-- A node without a base and raw options has no other fault than a query below a filter. -/
theorem failsWith_iff_of_plain {node : Draft} (hbase : node.base = [])
    (hraw : node.rawOptions = []) {e : DraftError} :
    node.FailsWith e ↔ node.placement = .inFilter ∧
      ∃ clause, node.firstQuery? = some clause ∧ e = .contextViolation clause.kind := by
  have hquery : node.base.get? "query" = none := by
    rw [hbase]
    rfl
  constructor
  · intro h
    cases h with
    | queryBelowFilter clause hplace hfirst => exact ⟨hplace, clause, hfirst, rfl⟩
    | baseQuery value hvalue => simp [hquery] at hvalue
    | baseBool query _ _ _ hvalue => simp [hquery] at hvalue
    | baseFilter query _ _ _ _ _ hvalue => simp [hquery] at hvalue
    | baseFilterBool query _ _ _ _ _ _ hvalue => simp [hquery] at hvalue
    | rawQuery value _ hvalue => simp [hraw, Keyed.last?] at hvalue
  · rintro ⟨hplace, clause, hfirst, rfl⟩
    exact .queryBelowFilter clause hplace hfirst

/-- A draft fails to be rendered exactly if some node of its tree has a fault. The error
is one of these faults, and of several the first in the order of writing. -/
theorem render_fails_iff (draft : Draft) :
    ((∃ e, draft.render = .error e) ↔ ∃ node, draft.Holds node ∧ ∃ e, node.FailsWith e) ∧
      ∀ e, draft.render = .error e →
        (∃ node, draft.Holds node ∧ node.FailsWith e) ∧ draft.faults.head? = some e := by
  have hfirst : ∀ e, draft.render = .error e ↔ draft.faults.head? = some e := by
    intro e
    rw [← failure?_render, failure?_eq_some]
  have hnode : ∀ e, draft.render = .error e → ∃ node, draft.Holds node ∧ node.FailsWith e :=
    fun e he => mem_faults_iff_holds.1 (List.mem_of_head? ((hfirst e).1 he))
  refine ⟨⟨?_, ?_⟩, fun e he => ⟨hnode e he, (hfirst e).1 he⟩⟩
  · rintro ⟨e, he⟩
    obtain ⟨node, hholds, hfails⟩ := hnode e he
    exact ⟨node, hholds, e, hfails⟩
  · rintro ⟨node, hholds, e, hfails⟩
    have hmem : e ∈ draft.faults := mem_faults_iff_holds.2 ⟨node, hholds, hfails⟩
    obtain ⟨first, rest, hfaults⟩ := List.exists_cons_of_ne_nil (List.ne_nil_of_mem hmem)
    exact ⟨first, (hfirst first).2 (by rw [hfaults]; rfl)⟩

end Draft

end SearchQuery
