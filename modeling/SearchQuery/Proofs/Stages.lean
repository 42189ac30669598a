import SearchQuery.Proofs.Additions
import SearchQuery.Proofs.Placement
import SearchQuery.Proofs.SameDrafts

/-!
Requests that are made in stages. Some clauses are rendered first, and their request is the
base of a draft with the clauses that follow. Merging into a base and writing several
clauses at once put the same values under the same keys, so the request of the last stage
is that of one draft with all clauses, up to the order of keys.
-/
namespace SearchQuery

theorem collapse_append {first second : List Object} (hfirst : first ≠ [])
    (hsecond : second ≠ []) :
    Draft.collapse (first ++ second) = .array ((first ++ second).map Value.object) := by
  match first, second with
  | [], _ => exact absurd rfl hfirst
  | _, [] => exact absurd rfl hsecond
  | [_], _ :: _ => rfl
  | _ :: _ :: _, _ :: _ => rfl

theorem mergeSlot_of_ne_nil {objects : List Object} (h : objects ≠ []) (present : Option Value) :
    mergeSlot present objects = some (present.elim (Draft.collapse objects)
      fun value => .array (value.items ++ objects.map Value.object)) := by
  have hsome : ¬ objects.isEmpty = true := by simpa using h
  cases present <;> simp [mergeSlot, hsome]

/-- Clauses of two goes leave an array in their slot. -/
theorem mergeSlot_two {first second : List Object} (hfirst : first ≠ []) (hsecond : second ≠ [])
    (present : Option Value) :
    mergeSlot present (first ++ second) =
      some (.array (present.elim [] Value.items ++ (first ++ second).map Value.object)) := by
  rw [mergeSlot_of_ne_nil (List.append_ne_nil_of_left_ne_nil hfirst _)]
  cases present with
  | none => rw [Option.elim_none, Option.elim_none, collapse_append hfirst hsecond, List.nil_append]
  | some value => rfl

/-- Putting clauses into a slot in two goes is putting all of them there at once. -/
theorem mergeSlot_append (present : Option Value) (first second : List Object) :
    mergeSlot (mergeSlot present first) second = mergeSlot present (first ++ second) := by
  by_cases hfirst : first = []
  · subst hfirst
    rfl
  by_cases hsecond : second = []
  · subst hsecond
    rw [List.append_nil]
    rfl
  rw [mergeSlot_two hfirst hsecond, mergeSlot_of_ne_nil hfirst, mergeSlot_of_ne_nil hsecond]
  cases present with
  | none =>
    simp only [Option.elim_none, Option.elim_some, items_collapse, List.map_append, List.nil_append]
  | some value =>
    simp only [Option.elim_some, Value.items, List.map_append, List.append_assoc]

section TwoGoes

variable (simpleFilter : Bool) (threshold : Option Int64) (first second : ByMode Object)
  (target : Object)

theorem get?_slot_addGroups_append (mode : Mode) :
    (addGroups simpleFilter threshold second
        (addGroups simpleFilter threshold first target)).get? (mode.boolKey simpleFilter) =
      (addGroups simpleFilter threshold (first.append second) target).get?
        (mode.boolKey simpleFilter) := by
  rw [get?_addGroups, get?_addGroups, get?_addGroups, mergeSlot_append, ByMode.get_append]

/-- The threshold is written by the go that makes an array of the alternatives, and again
by a later one. -/
theorem get?_threshold_addGroups_append :
    (addGroups simpleFilter threshold second
        (addGroups simpleFilter threshold first target)).get? "minimum_should_match" =
      (addGroups simpleFilter threshold (first.append second) target).get?
        "minimum_should_match" := by
  have hslot : ∀ groups body, (addGroups simpleFilter threshold groups body).get? "should" =
      mergeSlot (body.get? "should") groups.or :=
    fun groups body => get?_addGroups simpleFilter threshold groups body .or
  have hor : (first.append second).or = first.or ++ second.or := rfl
  rw [get?_threshold_addGroups, get?_threshold_addGroups, get?_threshold_addGroups, hslot, hslot,
    hslot, hor, mergeSlot_append]
  by_cases hsecond : second.or = []
  · simp [hsecond]
  by_cases hfirst : first.or = []
  · simp [hfirst]
  -- With alternatives in both goes the slot ends up as an array, whatever was there before.
  rw [mergeSlot_two hfirst hsecond]
  cases threshold <;> simp [hsecond, hfirst, Value.isArray]

/-- Writing the groups of a family in two goes leaves under every key what writing them at
once leaves there. -/
theorem get?_addGroups_append (key : String) :
    (addGroups simpleFilter threshold second
        (addGroups simpleFilter threshold first target)).get? key =
      (addGroups simpleFilter threshold (first.append second) target).get? key := by
  by_cases hslot : ∃ mode : Mode, key = mode.boolKey simpleFilter
  · obtain ⟨mode, rfl⟩ := hslot
    exact get?_slot_addGroups_append ..
  have hkeys : ∀ mode : Mode, key ≠ mode.boolKey simpleFilter := fun mode h => hslot ⟨mode, h⟩
  by_cases hthreshold : key = "minimum_should_match"
  · subst hthreshold
    exact get?_threshold_addGroups_append ..
  · rw [get?_addGroups_of_ne hkeys hthreshold, get?_addGroups_of_ne hkeys hthreshold,
      get?_addGroups_of_ne hkeys hthreshold]

end TwoGoes

namespace ByMode

variable {α β γ : Type}

/-- Where two families of groups put behind each other are mapped to one, each of them is
mapped to a part of it. -/
theorem exists_append_of_map {f : α → γ} {g : β → γ} {first second : ByMode α}
    {objects : ByMode β} (h : (first.append second).map f = objects.map g) :
    ∃ front back : ByMode β, objects = front.append back ∧ first.map f = front.map g ∧
      second.map f = back.map g := by
  obtain ⟨and, or, not⟩ := objects
  simp only [append, map, List.map_append, ByMode.mk.injEq] at h
  obtain ⟨hand, hor, hnot⟩ := h
  obtain ⟨and₁, and₂, rfl, hand₁, hand₂⟩ := List.map_eq_append_iff.1 hand.symm
  obtain ⟨or₁, or₂, rfl, hor₁, hor₂⟩ := List.map_eq_append_iff.1 hor.symm
  obtain ⟨not₁, not₂, rfl, hnot₁, hnot₂⟩ := List.map_eq_append_iff.1 hnot.symm
  refine ⟨⟨and₁, or₁, not₁⟩, ⟨and₂, or₂, not₂⟩, rfl, ?_, ?_⟩
  · rw [map, map, hand₁, hor₁, hnot₁]
  · rw [map, map, hand₂, hor₂, hnot₂]

end ByMode

namespace Addition

/-- Whether an addition can be made in a stage with others of a family: it belongs to that
family, and a filter is not an alternative and owns no draft. -/
structure Fits (family : Family) (addition : Addition) : Prop where
  family_eq : addition.family = family
  plain : family = .filter → addition.mode ≠ .or ∧ addition.clause.isNested = false

variable {family : Family} {additions : List Addition}
  (hfits : ∀ addition ∈ additions, addition.Fits family)

include hfits

/-- Additions to one family leave the other one empty. -/
theorem groups_of_ne {other : Family} (h : other ≠ family) : groups additions other = {} := by
  refine ByMode.eq_empty (ByMode.toList_eq_nil_iff.2 fun mode => ?_)
  refine List.eq_nil_iff_forall_not_mem.2 fun clause hclause => ?_
  exact h (hfits _ (mem_groups_iff.1 hclause)).family_eq

theorem toList_groups_ne_nil (h : additions ≠ []) : (groups additions family).toList ≠ [] := by
  obtain ⟨⟨other, mode, clause⟩, hmem⟩ := List.exists_mem_of_ne_nil _ h
  obtain rfl : other = family := (hfits _ hmem).family_eq
  have hgroup : clause ∈ (groups additions other).get mode := mem_groups_iff.2 hmem
  exact List.ne_nil_of_mem (ByMode.mem_toList_iff.2 ⟨mode, hgroup⟩)

/-- Groups of a single required clause come from a single addition. -/
theorem eq_of_groups_single {clause : Clause} (h : groups additions family = ⟨[clause], [], []⟩) :
    additions = [⟨family, .and, clause⟩] := by
  have hall : ∀ addition ∈ additions, addition.family = family ∧ addition.mode = .and := by
    rintro ⟨other, mode, added⟩ hmem
    obtain rfl : other = family := (hfits _ hmem).family_eq
    have hgroup : added ∈ (groups additions other).get mode := mem_groups_iff.2 hmem
    rw [h] at hgroup
    cases mode with
    | and => exact ⟨rfl, rfl⟩
    | or => simp [ByMode.get] at hgroup
    | not => simp [ByMode.get] at hgroup
  have hone : additions.map (·.clause) = [clause] := by
    have hand : group additions family .and = [clause] := congrArg ByMode.and h
    rw [group, List.filter_eq_self.2 fun addition hmem => decide_eq_true (hall addition hmem)]
      at hand
    exact hand
  obtain ⟨⟨other, mode, added⟩, rfl, rfl⟩ := List.map_eq_singleton_iff.1 hone
  obtain ⟨rfl, rfl⟩ := hall _ List.mem_cons_self
  rfl

end Addition

namespace Draft

def start (thresholds : Family → Option Int64) : Draft :=
  { filterThreshold := thresholds .filter, queryThreshold := thresholds .query }

def stage (thresholds : Family → Option Int64) (base : Object) (additions : List Addition) :
    Draft :=
  ((start thresholds).withBase base).addAll additions

theorem stage_eq (thresholds : Family → Option Int64) (base : Object)
    (additions : List Addition) :
    stage thresholds base additions =
      { base := base
        filters := Addition.groups additions .filter
        queries := Addition.groups additions .query
        filterThreshold := thresholds .filter
        queryThreshold := thresholds .query } :=
  addAll_eq ..

section Fields

variable (thresholds : Family → Option Int64) (base : Object) (additions : List Addition)

@[simp] theorem base_stage : (stage thresholds base additions).base = base := by
  rw [stage_eq]

@[simp] theorem placement_stage : (stage thresholds base additions).placement = .root := by
  rw [stage_eq]

@[simp] theorem filters_stage :
    (stage thresholds base additions).filters = Addition.groups additions .filter := by
  rw [stage_eq]

@[simp] theorem queries_stage :
    (stage thresholds base additions).queries = Addition.groups additions .query := by
  rw [stage_eq]

@[simp] theorem filterThreshold_stage :
    (stage thresholds base additions).filterThreshold = thresholds .filter := by
  rw [stage_eq]

@[simp] theorem queryThreshold_stage :
    (stage thresholds base additions).queryThreshold = thresholds .query := by
  rw [stage_eq]

theorem clauses_stage (family : Family) :
    (stage thresholds base additions).clauses family = Addition.groups additions family := by
  rw [stage, clauses_addAll]
  cases family <;> rfl

/-- A stage leaves the request as its clauses make it. -/
theorem finish_stage (request : Object) :
    (stage thresholds base additions).finish request = .ok request := by
  rw [stage_eq]
  rfl

end Fields

def boolRequest (body : Object) : Object :=
  Keyed.single "query" (.object (Keyed.single "bool" (.object body)))

def inFamily (family : Family) (objects : ByMode Object) (other : Family) : ByMode Object :=
  if other = family then objects else {}

section Stage

variable {family : Family} {additions : List Addition}
  (hfits : ∀ addition ∈ additions, addition.Fits family) (thresholds : Family → Option Int64)
  (base : Object)

include hfits

theorem built_stage {objects : ByMode Object}
    (h : (Addition.groups additions family).map Clause.render = objects.map .ok) :
    (stage thresholds base additions).Built (inFamily family objects .filter)
      (inFamily family objects .query) := by
  cases family with
  | filter =>
    have hqueries := Addition.groups_of_ne hfits (by decide : Family.query ≠ .filter)
    constructor
    · rw [filters_stage]
      exact h
    · rw [queries_stage, hqueries]
      rfl
  | query =>
    have hfilters := Addition.groups_of_ne hfits (by decide : Family.filter ≠ .query)
    constructor
    · rw [filters_stage, hfilters]
      rfl
    · rw [queries_stage]
      exact h

/-- Filters that fit are written the simple way. -/
theorem simpleFilter_stage (hfamily : family = .filter) :
    (stage thresholds base additions).simpleFilter = true := by
  subst hfamily
  have hor : (Addition.groups additions .filter).or = [] := by
    refine List.eq_nil_iff_forall_not_mem.2 fun clause hclause => ?_
    have hmem : ⟨.filter, .or, clause⟩ ∈ additions := Addition.mem_groups_iff.1 hclause
    exact ((hfits _ hmem).plain rfl).1 rfl
  have hnested : anyNested (Addition.groups additions .filter) = false := by
    refine List.any_eq_false.2 fun clause hclause => ?_
    obtain ⟨mode, hmode⟩ := ByMode.mem_toList_iff.1 hclause
    simp [((hfits _ (Addition.mem_groups_iff.1 hmode)).plain rfl).2]
  have hqueries : (stage thresholds base additions).has .query none = false := by
    rw [has_none_eq_false, clauses, queries_stage, Addition.groups_of_ne hfits (by decide)]
    rfl
  simp [simpleFilter, hor, hnested, hqueries]

theorem fillBool_stage (objects : ByMode Object) (body : Object) :
    (stage thresholds base additions).fillBool (inFamily family objects .filter)
        (inFamily family objects .query) body =
      .ok (addGroups (family == .filter) (thresholds family) objects body) := by
  cases family with
  | filter =>
    have hsimple := simpleFilter_stage hfits thresholds base rfl
    rw [fillBool, fillFilters, if_pos hsimple, filterThreshold_stage]
    rfl
  | query =>
    have hnone : inFamily .query objects .filter = {} := rfl
    rw [fillBool, hnone, fillFilters_empty, queryThreshold_stage]
    rfl

variable {objects : ByMode Object}
  (hobjects : (Addition.groups additions family).map Clause.render = objects.map .ok)

include hobjects

/-- A stage with something to write that is not a lone query writes it into the bool clause of
the query. -/
theorem render_stage {hasBool : Bool} (hbase : baseHasBool base = .ok hasBool)
    (hlone : (stage thresholds base additions).isLoneQuery hasBool = false)
    (hsome : additions ≠ []) {request : Object}
    (h : inBool (fun body =>
      .ok (addGroups (family == .filter) (thresholds family) objects body)) base = .ok request) :
    (stage thresholds base additions).render = .ok request := by
  have hbuilt := built_stage hfits thresholds base hobjects
  have hfilled := fun body => fillBool_stage hfits thresholds base objects body
  have hlist : objects.toList ≠ [] :=
    mt (ByMode.toList_eq_nil_iff_of_map hobjects).2 (Addition.toList_groups_ne_nil hfits hsome)
  have hwritten : (inFamily family objects .filter).toList ≠ [] ∨
      (inFamily family objects .query).toList ≠ [] := by
    cases family with
    | filter => exact .inl hlist
    | query => exact .inr hlist
  have hclauses : (stage thresholds base additions).withClauses hasBool
      (stage thresholds base additions).renderedClauses = .ok request := by
    rw [withClauses_of_not_lone hlone, hbuilt.clauses_eq,
      writeClauses_eq_inBool (by simp) hwritten, base_stage, ← h]
    congr 1
    exact funext hfilled
  rw [render_of_withClauses (by simp) (by simpa using hbase) hclauses, finish_stage]

/-- The first stage starts the bool clause of the query. -/
theorem render_stage_fresh (hsome : additions ≠ [])
    (hlone : ∀ clause, additions ≠ [⟨.query, .and, clause⟩]) :
    (stage thresholds [] additions).render =
      .ok (boolRequest (addGroups (family == .filter) (thresholds family) objects [])) := by
  refine render_stage hfits thresholds [] hobjects rfl ?_ hsome rfl
  rw [Bool.eq_false_iff]
  intro htrue
  obtain ⟨-, -, hfilters, clause, hqueries⟩ := isLoneQuery_iff.1 htrue
  rw [filters_stage] at hfilters
  rw [queries_stage] at hqueries
  cases family with
  | filter => exact Addition.toList_groups_ne_nil hfits hsome hfilters
  | query => exact hlone clause (Addition.eq_of_groups_single hfits hqueries)

/-- A later stage adds to the bool clause that is there. -/
theorem render_stage_onto (body : Object) :
    (stage thresholds (boolRequest body) additions).render =
      .ok (boolRequest (addGroups (family == .filter) (thresholds family) objects body)) := by
  by_cases hsome : additions = []
  · subst hsome
    obtain rfl : objects = {} :=
      ByMode.eq_empty ((ByMode.toList_eq_nil_iff_of_map hobjects).1 rfl)
    rfl
  · refine render_stage hfits thresholds (boolRequest body) hobjects rfl ?_ hsome rfl
    rw [Bool.eq_false_iff]
    intro htrue
    obtain ⟨-, hfree, -⟩ := isLoneQuery_iff.1 htrue
    cases hfree

end Stage

/-- A stage that is rendered has rendered the clauses of every family. -/
theorem exists_objects_of_stage {thresholds : Family → Option Int64} {base object : Object}
    {additions : List Addition} (h : (stage thresholds base additions).render = .ok object)
    (family : Family) :
    ∃ objects : ByMode Object,
      (Addition.groups additions family).map Clause.render = objects.map .ok := by
  obtain ⟨filters, queries, -, hbuilt, -⟩ := render_ok h
  cases family with
  | filter =>
    have hfilters := hbuilt.filters_eq
    rw [filters_stage] at hfilters
    exact ⟨filters, hfilters⟩
  | query =>
    have hqueries := hbuilt.queries_eq
    rw [queries_stage] at hqueries
    exact ⟨queries, hqueries⟩

/-- Requests whose bool clauses were filled in two goes and at once are alike. -/
theorem alike_boolRequest_append {simpleFilter : Bool} {threshold : Option Int64}
    {first second : ByMode Object}
    (h : (boolRequest (addGroups simpleFilter threshold (first.append second) [])).Distinct) :
    Object.Alike
      (boolRequest (addGroups simpleFilter threshold second
        (addGroups simpleFilter threshold first [])))
      (boolRequest (addGroups simpleFilter threshold (first.append second) [])) := by
  have hbody : Object.Distinct (addGroups simpleFilter threshold (first.append second) []) :=
    (Object.Distinct.inner h (Keyed.get?_insert_self [] "query" _)).inner
      (Keyed.get?_insert_self [] "bool" _)
  have hnil : (Keyed.keys ([] : Object)).Nodup := List.nodup_nil
  have hkeys : (Keyed.keys (addGroups simpleFilter threshold second
      (addGroups simpleFilter threshold first []))).Nodup :=
    nodup_keys_addGroups (nodup_keys_addGroups hnil ..) ..
  have halike := Object.alike_of_get? hkeys hbody
    (get?_addGroups_append simpleFilter threshold first second [])
  exact Object.alike_single (Object.alike_single halike "bool") "query"

/-- A stage has distinct keys if its base and the clauses that are added to it do. -/
theorem distinct_stage {thresholds : Family → Option Int64} {base : Object}
    {additions : List Addition} (hbase : base.Distinct)
    (h : ∀ addition ∈ additions, addition.clause.OwnDistinct ∧
      ∀ child, addition.clause.nested = some child → child.Distinct) :
    (stage thresholds base additions).Distinct := by
  have hclauses : ∀ family mode, ∀ clause ∈ ((stage thresholds base additions).clauses family).get
      mode, clause.OwnDistinct ∧ ∀ child, clause.nested = some child → child.Distinct := by
    intro family mode clause hclause
    rw [clauses_stage] at hclause
    exact h _ (Addition.mem_groups_iff.1 hclause)
  refine distinct_iff.2 ⟨⟨?_, ?_, ?_⟩, ?_⟩
  · rwa [base_stage]
  · simp [stage_eq]
  · exact fun family mode clause hclause => (hclauses family mode clause hclause).1
  · exact fun family mode clause hclause => (hclauses family mode clause hclause).2

/-- Rendering some clauses and adding the others to what came out gives what all clauses
give at once, up to the order of keys. -/
theorem render_in_stages {family : Family} {first second : List Addition} (hfirst : first ≠ [])
    (hlone : ∀ clause, first ≠ [⟨.query, .and, clause⟩])
    (hfits : ∀ addition ∈ first ++ second, addition.Fits family)
    {thresholds : Family → Option Int64}
    (hdistinct : ((start thresholds).addAll (first ++ second)).Distinct) {object : Object}
    (h : ((start thresholds).addAll (first ++ second)).render = .ok object) :
    ∃ staged, ((start thresholds).addAll first).render = .ok staged ∧
      ∃ result, (((start thresholds).withBase staged).addAll second).render = .ok result ∧
        Object.same result object = true := by
  obtain ⟨hfitsFirst, hfitsSecond⟩ := List.forall_mem_append.1 hfits
  have hone : (stage thresholds [] (first ++ second)).render = .ok object := h
  obtain ⟨objects, hobjects⟩ := exists_objects_of_stage hone family
  have hparts := hobjects
  rw [Addition.groups_append] at hparts
  obtain ⟨front, back, rfl, hfront, hback⟩ := ByMode.exists_append_of_map hparts
  have hloneAll : ∀ clause, first ++ second ≠ [⟨.query, .and, clause⟩] := by
    intro clause hall
    obtain ⟨rfl, -⟩ | ⟨rfl, -⟩ := List.append_eq_singleton_iff.1 hall
    · exact hfirst rfl
    · exact hlone clause rfl
  have hobject := render_stage_fresh hfits thresholds hobjects
    (List.append_ne_nil_of_left_ne_nil hfirst second) hloneAll
  rw [hone] at hobject
  obtain rfl := Except.ok.inj hobject
  exact ⟨_, render_stage_fresh hfitsFirst thresholds hfront hfirst hlone, _,
    render_stage_onto hfitsSecond thresholds hback _,
    (alike_boolRequest_append (hdistinct.rendered h)).same⟩

def alternative (field : String) : Addition :=
  ⟨.query, .or, { kind := "exists", payload := .field field }⟩

theorem render_in_stages_alternatives :
    ∃ staged result object, ((start fun _ => some 1).addAll [alternative "a"]).render = .ok staged ∧
      (((start fun _ => some 1).withBase staged).addAll [alternative "b"]).render = .ok result ∧
      ((start fun _ => some 1).addAll ([alternative "a"] ++ [alternative "b"])).render =
        .ok object ∧ Object.same result object = true := by
  have hadded : ∀ addition ∈ [alternative "a"] ++ [alternative "b"],
      ∃ field, addition = alternative field := by
    intro addition haddition
    obtain rfl | rfl : addition = alternative "a" ∨ addition = alternative "b" := by
      simpa using haddition
    · exact ⟨"a", rfl⟩
    · exact ⟨"b", rfl⟩
  have hfits : ∀ addition ∈ [alternative "a"] ++ [alternative "b"], addition.Fits .query := by
    intro addition haddition
    obtain ⟨field, rfl⟩ := hadded addition haddition
    exact ⟨rfl, nofun⟩
  have hdistinct : ((start fun _ => some 1).addAll
      ([alternative "a"] ++ [alternative "b"])).Distinct := by
    change (stage (fun _ => some 1) [] _).Distinct
    refine distinct_stage Object.distinct_nil fun addition haddition => ?_
    obtain ⟨field, rfl⟩ := hadded addition haddition
    refine ⟨⟨?_, Object.distinct_nil⟩, nofun⟩
    simp [alternative, Payload.object, Object.distinct_iff, Keyed.single, Keyed.keys]
  obtain ⟨object, hobject⟩ : ∃ object, ((start fun _ => some 1).addAll
    ([alternative "a"] ++ [alternative "b"])).render = .ok object := ⟨_, rfl⟩
  obtain ⟨staged, hstaged, result, hresult, hsame⟩ :=
    render_in_stages (by simp) (by simp [alternative]) hfits hdistinct hobject
  exact ⟨staged, result, object, hstaged, hresult, hobject, hsame⟩

end Draft

end SearchQuery
