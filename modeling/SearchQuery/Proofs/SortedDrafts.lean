import SearchQuery.Proofs.SameDrafts
import SearchQuery.Proofs.SortedReading

/-!
Drafts of specs with sorted keys. What a spec declares does not depend on the order of keys:
the same faults are found, and the declared drafts are equal up to the order of keys, with
distinct keys on both sides. So both specs are drafted, or both fail with the same error.
-/
namespace SearchQuery

theorem forall_mem_of_forall₂ {α β : Type} {r : α → β → Prop} {p : α → Prop} {q : β → Prop}
    {xs : List α} {ys : List β} (h : List.Forall₂ r xs ys) (hpair : ∀ a b, r a b → p a ∧ q b) :
    (∀ a ∈ xs, p a) ∧ ∀ b ∈ ys, q b := by
  induction h with
  | nil => simp
  | cons hhead _ ih =>
    rw [List.forall_mem_cons, List.forall_mem_cons]
    exact ⟨⟨(hpair _ _ hhead).1, ih.1⟩, (hpair _ _ hhead).2, ih.2⟩

structure Draft.Alike (d e : Draft) : Prop where
  left : d.Distinct
  right : e.Distinct
  same : d.same e = true

structure Clause.Alike (clause other : Clause) : Prop where
  kind : clause.kind = other.kind
  object : clause.payload.object.Alike other.payload.object
  payload : clause.payload.same other.payload = true
  options : clause.options.Alike other.options
  nested : Option.Rel Draft.Alike clause.nested other.nested

namespace Clause.Alike

variable {clause other : Clause} (h : clause.Alike other)

include h

theorem same : clause.same other = true := by
  refine Clause.same_iff.2 ⟨h.kind, h.payload, h.options.same, ?_⟩
  have hnested := h.nested
  generalize clause.nested = x at hnested ⊢
  generalize other.nested = y at hnested ⊢
  cases hnested with
  | none => exact .none
  | some hpair => exact .some hpair.same

theorem ownDistinct : clause.OwnDistinct ∧ other.OwnDistinct :=
  ⟨⟨h.object.left, h.options.left⟩, ⟨h.object.right, h.options.right⟩⟩

theorem distinct_nested : (∀ child, clause.nested = some child → child.Distinct) ∧
    ∀ child, other.nested = some child → child.Distinct := by
  have hnested := h.nested
  constructor
  · intro child hchild
    rw [hchild] at hnested
    obtain ⟨_, -, hpair⟩ := rel_some_left hnested
    exact hpair.left
  · intro child hchild
    rw [hchild] at hnested
    obtain ⟨_, -, hpair⟩ := rel_some_right hnested
    exact hpair.right

end Clause.Alike

/-- Drafts are alike where their settings and their clauses are. -/
theorem Draft.alike_of_clauses {d e : Draft} (hsettings : d.sameSettings e = true)
    (hbase : d.base.Alike e.base)
    (hraw : List.Forall₂ (fun x y => x.1 = y.1 ∧ x.2.Alike y.2) d.rawOptions e.rawOptions)
    (hclauses : ∀ family mode, List.Forall₂ Clause.Alike ((d.clauses family).get mode)
      ((e.clauses family).get mode)) : d.Alike e := by
  have hoptions : (∀ option ∈ d.rawOptions, option.2.Distinct) ∧
      ∀ option ∈ e.rawOptions, option.2.Distinct :=
    forall_mem_of_forall₂ hraw fun _ _ h => ⟨h.2.left, h.2.right⟩
  have hown := fun family mode =>
    forall_mem_of_forall₂ (hclauses family mode) fun _ _ h => h.ownDistinct
  have hbelow := fun family mode =>
    forall_mem_of_forall₂ (hclauses family mode) fun _ _ h => h.distinct_nested
  refine ⟨distinct_iff.2 ⟨⟨hbase.left, hoptions.1, fun family mode => (hown family mode).1⟩, ?_⟩,
    distinct_iff.2 ⟨⟨hbase.right, hoptions.2, fun family mode => (hown family mode).2⟩, ?_⟩, ?_⟩
  · exact fun family mode => (hbelow family mode).1
  · exact fun family mode => (hbelow family mode).2
  · exact same_iff.2 ⟨hsettings, fun family mode =>
      (hclauses family mode).imp fun _ _ h => h.same⟩

/-- What is added to a group is related where the additions are, one by one. -/
theorem Addition.forall₂_group {r : Clause → Clause → Prop} {additions others : List Addition}
    (h : List.Forall₂ (fun x y => x.family = y.family ∧ x.mode = y.mode ∧ r x.clause y.clause)
      additions others) (family : Family) (mode : Mode) :
    List.Forall₂ r (group additions family mode) (group others family mode) := by
  refine List.rel_map (fun _ _ hpair => hpair.2.2) (List.rel_filter ?_ h)
  rintro x y ⟨hfamily, hmode, -⟩
  simp only [hfamily, hmode]

namespace Value

theorem Distinct.of_occurs {value part : Value} (h : value.Distinct) (hpart : part.Occurs value) :
    part.Distinct :=
  fun inner hinner => h inner (hinner.trans hpart)

theorem occurs_of_get? {o : Object} {key : String} {value : Value} (h : o.get? key = some value) :
    value.Occurs (.object o) :=
  .entry (Keyed.mem_of_get? h) .here

theorem keySorted_eq_null_iff {value : Value} : value.keySorted = .null ↔ value = .null := by
  cases value <;> simp [keySorted]

end Value

namespace ClauseSpec

theorem payload_of_value {clause : ClauseSpec} {field : String} {value : Value}
    (hbody : clause.body = none) (hfield : clause.field = some field)
    (hvalue : clause.value = some value) (hnull : value ≠ .null) :
    clause.payload = .fieldValue field value := by
  rw [payload, hbody, hfield, hvalue]
  cases value with
  | null => exact absurd rfl hnull
  | _ => rfl

theorem nested_keySorted (clause : ClauseSpec) :
    clause.keySorted.nested = clause.nested.map Spec.keySorted := by
  cases clause
  exact carriedKeySorted_eq_map _

theorem payloadFaults_keySorted (clause : ClauseSpec) :
    clause.keySorted.payloadFaults = clause.payloadFaults := by
  cases clause
  simp [keySorted, payloadFaults]

variable {clause : ClauseSpec} (h : (Value.object clause.toObject).Distinct)

include h

/-- The declared payloads are equal up to the order of keys. -/
theorem alike_payload : clause.payload.object.Alike clause.keySorted.payload.object ∧
    clause.payload.same clause.keySorted.payload = true := by
  obtain ⟨-, -, -, -, hvalue, hbody, -⟩ := get?_toObject clause
  obtain ⟨family, mode, kind, field, value, body, options, nested⟩ := clause
  cases body with
  | some body =>
    have halike : Object.Alike body body.keySorted :=
      (h.of_occurs (Value.occurs_of_get? hbody)).alike_keySorted
    exact ⟨halike, halike.same⟩
  | none =>
    cases field with
    | none => exact ⟨Object.alike_nil, rfl⟩
    | some field =>
      have hfield := Object.alike_single (Value.distinct_string field).alike "field"
      cases value with
      | none => exact ⟨hfield, beq_self_eq_true field⟩
      | some value =>
        have halike : value.Alike value.keySorted :=
          (h.of_occurs (Value.occurs_of_get? hvalue)).alike_keySorted
        by_cases hnull : value = .null
        · subst hnull
          exact ⟨hfield, beq_self_eq_true field⟩
        · have hpayload : payload ⟨family, mode, kind, some field, some value, none, options, nested⟩ =
              .fieldValue field value := payload_of_value rfl rfl rfl hnull
          have hsorted : (keySorted
              ⟨family, mode, kind, some field, some value, none, options, nested⟩).payload =
              .fieldValue field value.keySorted :=
            payload_of_value rfl rfl rfl (mt Value.keySorted_eq_null_iff.1 hnull)
          rw [hpayload, hsorted]
          exact ⟨Object.alike_single halike field, by simp [Payload.same, halike.same]⟩

theorem alike_addition
    (hnested : ∀ child, clause.nested = some child → ∀ placement,
      (child.declared placement).Alike (child.keySorted.declared placement)) :
    clause.addition.clause.Alike clause.keySorted.addition.clause := by
  obtain ⟨hobject, hpayload⟩ := alike_payload h
  obtain ⟨-, -, -, -, -, -, hoptions, -⟩ := get?_toObject clause
  have halike : Object.Alike clause.options clause.options.keySorted :=
    (h.of_occurs (Value.occurs_of_get? hoptions)).alike_keySorted
  have hsettled : Object.Alike (Keyed.settled clause.options)
      (Keyed.settled (Object.keySorted clause.options)) := by
    obtain ⟨hkeys, hsorted, -⟩ := Object.alike_iff.1 halike
    rwa [Keyed.settled_of_nodup hkeys, Keyed.settled_of_nodup hsorted]
  obtain ⟨family, mode, kind, field, value, body, options, nested⟩ := clause
  refine ⟨rfl, hobject, hpayload, hsettled, ?_⟩
  cases nested with
  | none => exact .none
  | some child => exact .some (hnested child rfl _)

end ClauseSpec

namespace Spec

variable {spec : Spec}

theorem occurs_clause {clause : ClauseSpec} (h : clause ∈ spec.clauses) :
    (Value.object clause.toObject).Occurs (.object spec.toObject) := by
  have hlist := (get?_toObject spec).2.2.2.2.2.2.2
  exact .entry (Keyed.mem_of_get? hlist) (.item (List.mem_map_of_mem h) .here)

theorem occurs_child {clause : ClauseSpec} {child : Spec} (hclause : clause ∈ spec.clauses)
    (hchild : clause.nested = some child) :
    (Value.object child.toObject).Occurs (.object spec.toObject) := by
  have hnested : Keyed.get? clause.toObject "nested" = some (.object child.toObject) := by
    rw [(ClauseSpec.get?_toObject clause).2.2.2.2.2.2.2, hchild, Option.map_some]
  exact (Value.occurs_of_get? hnested).trans (occurs_clause hclause)

/-- What is written for a spec in the tree of another one is written inside that one. -/
theorem Holds.occurs {node : Spec} (h : spec.Holds node) :
    (Value.object node.toObject).Occurs (.object spec.toObject) := by
  induction h with
  | self => exact .here
  | carried hclause hchild _ ih => exact ih.trans (occurs_child hclause hchild)

theorem sort_keySorted (spec : Spec) : spec.keySorted.sort = spec.sort := by
  cases spec
  rfl

theorem clauses_keySorted (spec : Spec) :
    spec.keySorted.clauses = spec.clauses.map ClauseSpec.keySorted := by
  cases spec
  exact clausesKeySorted_eq_map _

theorem base_declared (spec : Spec) (placement : Placement) :
    (spec.declared placement).base = spec.base.getD [] := by
  cases spec
  rfl

theorem rawOptions_declared (spec : Spec) (placement : Placement) :
    (spec.declared placement).rawOptions = spec.raw := by
  cases spec
  rfl

theorem get_clauses_declared (spec : Spec) (placement : Placement) (family : Family)
    (mode : Mode) : ((spec.declared placement).clauses family).get mode =
      Addition.group (spec.clauses.map ClauseSpec.addition) family mode := by
  obtain ⟨base, size, offset, queryThreshold, filterThreshold, sort, raw, clauses⟩ := spec
  rw [← additions_eq_map]
  cases family <;> cases mode <;> rfl

section Settings

variable (h : (Value.object spec.toObject).Distinct)

include h

theorem alike_base : Object.Alike (spec.base.getD []) (spec.keySorted.base.getD []) := by
  obtain ⟨hbase, -⟩ := get?_toObject spec
  obtain ⟨base, size, offset, queryThreshold, filterThreshold, sort, raw, clauses⟩ := spec
  cases base with
  | none => exact Object.alike_nil
  | some base =>
    exact (h.of_occurs (Value.occurs_of_get? hbase) : Object.Distinct base).alike_keySorted

theorem forall₂_raw : List.Forall₂ (fun x y => x.1 = y.1 ∧ x.2.Alike y.2) spec.raw
    spec.keySorted.raw := by
  obtain ⟨-, -, -, -, -, -, hraw, -⟩ := get?_toObject spec
  have hdistinct : ∀ option ∈ spec.raw, option.2.Distinct := by
    intro option hoption
    have hobject : (Value.object (rawOptionObject option)).Occurs (.object spec.toObject) :=
      .entry (Keyed.mem_of_get? hraw) (.item (List.mem_map_of_mem hoption) .here)
    exact (Value.distinct_object_iff.1 (h.of_occurs hobject)).2 ("value", option.2)
      (by simp [rawOptionObject])
  obtain ⟨base, size, offset, queryThreshold, filterThreshold, sort, raw, clauses⟩ := spec
  rw [keySorted, List.forall₂_map_right_iff, List.forall₂_same]
  exact fun option hoption => ⟨rfl, (hdistinct option hoption).alike_keySorted⟩

theorem sameSettings_declared (placement : Placement) :
    (spec.declared placement).sameSettings (spec.keySorted.declared placement) = true := by
  have hbase := (alike_base h).same
  have hraw : sameRawOptions spec.raw spec.keySorted.raw = true :=
    sameLists_iff.2 ((forall₂_raw h).imp fun x y hpair => by simp [hpair.1, hpair.2.same])
  obtain ⟨base, size, offset, queryThreshold, filterThreshold, sort, raw, clauses⟩ := spec
  simp only [keySorted] at hbase hraw ⊢
  simp [Draft.sameSettings, declared, Object.same, hbase, hraw]

end Settings

/-- What is declared with sorted keys is what is declared, up to the order of keys. By
induction over the tree of the spec. -/
theorem alike_declared (h : (Value.object spec.toObject).Distinct) (placement : Placement) :
    (spec.declared placement).Alike (spec.keySorted.declared placement) := by
  induction spec using tree_induction generalizing placement with
  | step spec ih =>
    refine Draft.alike_of_clauses (sameSettings_declared h placement) ?_ ?_ fun family mode => ?_
    · rw [base_declared, base_declared]
      exact alike_base h
    · rw [rawOptions_declared, rawOptions_declared]
      exact forall₂_raw h
    · rw [get_clauses_declared, get_clauses_declared, clauses_keySorted, List.map_map]
      refine Addition.forall₂_group ?_ family mode
      rw [List.forall₂_map_left_iff, List.forall₂_map_right_iff, List.forall₂_same]
      intro clause hclause
      have hwritten := h.of_occurs (occurs_clause hclause)
      have halike := ClauseSpec.alike_addition hwritten fun child hchild =>
        ih clause child hclause hchild (h.of_occurs (occurs_child hclause hchild))
      cases clause
      exact ⟨rfl, rfl, halike⟩

/-- The order of keys makes no fault. -/
theorem faults_keySorted (spec : Spec) : spec.keySorted.faults = spec.faults := by
  induction spec using tree_induction with
  | step spec ih =>
    rw [faults_eq, faults_eq, sort_keySorted, clauses_keySorted, List.flatMap_map]
    congr 1
    refine List.flatMap_congr fun clause hclause => ?_
    rw [ClauseSpec.payloadFaults_keySorted, ClauseSpec.nested_keySorted]
    cases hnested : clause.nested with
    | none => rfl
    | some child => exact congrArg _ (ih clause child hclause hnested)

end Spec

end SearchQuery
