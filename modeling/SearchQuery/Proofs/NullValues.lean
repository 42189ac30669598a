import SearchQuery.Proofs.Drafting

/-!
Null values in specs. A value that is there and null declares the same draft as no value at all,
but to be there is enough for a fault of the payload: beside a body, or without a field. So a
spec and the same spec without its null values are drafted alike, or the spec itself fails at a
null value that has no field.
-/
namespace SearchQuery

def presentValue : Option Value → Option Value
  | some .null => none
  | value => value

mutual

def Spec.withoutNulls : Spec → Spec
  | ⟨base, size, offset, queryThreshold, filterThreshold, sort, raw, clauses⟩ =>
    ⟨base, size, offset, queryThreshold, filterThreshold, sort, raw,
      clausesWithoutNulls clauses⟩

def clausesWithoutNulls : List ClauseSpec → List ClauseSpec
  | [] => []
  | clause :: rest => clause.withoutNulls :: clausesWithoutNulls rest

def ClauseSpec.withoutNulls : ClauseSpec → ClauseSpec
  | ⟨family, mode, kind, field, value, body, options, nested⟩ =>
    ⟨family, mode, kind, field, presentValue value, body, options, carriedWithoutNulls nested⟩

def carriedWithoutNulls : Option Spec → Option Spec
  | none => none
  | some spec => some spec.withoutNulls

end

theorem clausesWithoutNulls_eq_map (clauses : List ClauseSpec) :
    clausesWithoutNulls clauses = clauses.map ClauseSpec.withoutNulls := by
  induction clauses with
  | nil => rfl
  | cons clause rest ih => simp [clausesWithoutNulls, ih]

namespace ClauseSpec

def HasLoneNull (clause : ClauseSpec) : Prop := clause.value = some .null ∧ clause.field = none

def loneValueFault (clause : ClauseSpec) : SpecError :=
  if clause.body.isSome then .conflictingPayload clause.kind else .valueWithoutField clause.kind

theorem payload_withoutNulls (clause : ClauseSpec) :
    clause.withoutNulls.payload = clause.payload := by
  obtain ⟨family, mode, kind, field, value, body, options, nested⟩ := clause
  cases body with
  | some body => rfl
  | none =>
    cases field with
    | none => rfl
    | some field =>
      cases value with
      | none => rfl
      | some value => cases value <;> rfl

/-- To leave a null value out changes the faults of a payload only where it has no field, and
there it is one of them. -/
theorem payloadFaults_withoutNulls (clause : ClauseSpec) :
    clause.withoutNulls.payloadFaults = clause.payloadFaults ∨
      clause.HasLoneNull ∧ clause.payloadFaults = [clause.loneValueFault] := by
  obtain ⟨family, mode, kind, field, value, body, options, nested⟩ := clause
  by_cases hnull : value = some .null
  · subst hnull
    cases field with
    | none =>
      right
      exact ⟨⟨rfl, rfl⟩, by cases body <;> rfl⟩
    | some field =>
      left
      cases body <;> rfl
  · left
    have hvalue : presentValue value = value := by
      unfold presentValue
      split
      · exact absurd rfl hnull
      · rfl
    rw [withoutNulls, hvalue]
    rfl

theorem nested_withoutNulls (clause : ClauseSpec) :
    clause.withoutNulls.nested = clause.nested.map Spec.withoutNulls := by
  obtain ⟨family, mode, kind, field, value, body, options, _ | child⟩ := clause <;> rfl

/-- A clause declares the same without null values, if the spec that it carries does. -/
theorem addition_withoutNulls {clause : ClauseSpec}
    (hchild : ∀ child, clause.nested = some child → ∀ placement,
      child.withoutNulls.declared placement = child.declared placement) :
    clause.withoutNulls.addition = clause.addition := by
  have hpayload := payload_withoutNulls clause
  obtain ⟨family, mode, kind, field, value, body, options, nested⟩ := clause
  have hnested : declaredChild family (carriedWithoutNulls nested) =
      declaredChild family nested := by
    cases nested with
    | none => rfl
    | some child => exact congrArg some (hchild child rfl (.below family))
  rw [withoutNulls] at hpayload ⊢
  rw [addition, addition, hnested]
  exact congrArg (fun payload => Addition.mk family mode
    { kind, payload, options := Keyed.settled options, nested := declaredChild family nested })
    hpayload

end ClauseSpec

section Heads

variable {α : Type} {P : SpecError → Prop}

/-- Whether two lists of faults have the same first fault, or the first one of the second list
is excepted. -/
def SameHead (P : SpecError → Prop) (faults others : List SpecError) : Prop :=
  faults.head? = others.head? ∨ ∃ e, others.head? = some e ∧ P e

theorem SameHead.append {faults others more rest : List SpecError} (h : SameHead P faults others)
    (hrest : SameHead P more rest) : SameHead P (faults ++ more) (others ++ rest) := by
  rcases h with h | ⟨e, he, hexcepted⟩
  · unfold SameHead
    rw [List.head?_append, List.head?_append, h]
    cases others.head? with
    | none => exact hrest
    | some e => exact .inl rfl
  · exact .inr ⟨e, by rw [List.head?_append, he, Option.some_or], hexcepted⟩

theorem SameHead.flatMap {items : List α} {f g : α → List SpecError}
    (h : ∀ item ∈ items, SameHead P (f item) (g item)) :
    SameHead P (items.flatMap f) (items.flatMap g) := by
  induction items with
  | nil => exact .inl rfl
  | cons item rest ih =>
    rw [List.forall_mem_cons] at h
    exact h.1.append (ih h.2)

theorem unlessFaulty_congr {faults others : List SpecError} (h : faults.head? = others.head?)
    (a : α) : unlessFaulty faults a = unlessFaulty others a := by
  cases faults <;> cases others <;> simp_all [unlessFaulty]

end Heads

namespace Spec

/-- A spec declares the same draft without its null values. -/
theorem declared_withoutNulls (spec : Spec) (placement : Placement) :
    spec.withoutNulls.declared placement = spec.declared placement := by
  induction spec using tree_induction generalizing placement with
  | step spec ih =>
    have hadditions : spec.clauses.map (ClauseSpec.addition ∘ ClauseSpec.withoutNulls) =
        spec.clauses.map ClauseSpec.addition :=
      List.map_congr_left fun clause hclause =>
        ClauseSpec.addition_withoutNulls fun child hchild => ih clause child hclause hchild
    obtain ⟨base, size, offset, queryThreshold, filterThreshold, sort, raw, clauses⟩ := spec
    simp only [withoutNulls, declared, clausesWithoutNulls_eq_map, additions_eq_map, List.map_map,
      hadditions]

theorem clauses_withoutNulls (spec : Spec) :
    spec.withoutNulls.clauses = spec.clauses.map ClauseSpec.withoutNulls := by
  cases spec
  exact clausesWithoutNulls_eq_map _

/-- Whether an error is the fault of a clause in the tree of a spec that has a null value and no
field for it. -/
def FailsAtNull (spec : Spec) (error : SpecError) : Prop :=
  ∃ node clause, spec.Holds node ∧ clause ∈ node.clauses ∧ clause.HasLoneNull ∧
    error = clause.loneValueFault

/-- The first fault of a spec stays the first one without the null values, unless it is that of
a null value. -/
theorem sameHead_withoutNulls (spec : Spec) :
    SameHead spec.FailsAtNull spec.withoutNulls.faults spec.faults := by
  induction spec using tree_induction with
  | step spec ih =>
    have hsort : spec.withoutNulls.sort = spec.sort := by cases spec; rfl
    rw [faults_eq, faults_eq, clauses_withoutNulls, List.flatMap_map, hsort]
    refine SameHead.append (.inl rfl) (SameHead.flatMap fun clause hclause => ?_)
    refine SameHead.append ?_ ?_
    · rcases clause.payloadFaults_withoutNulls with hsame | ⟨hnull, hfault⟩
      · exact .inl (congrArg List.head? hsame)
      · exact .inr ⟨clause.loneValueFault, by rw [hfault]; rfl,
          spec, clause, .self spec, hclause, hnull, rfl⟩
    · rw [clause.nested_withoutNulls]
      cases hnested : clause.nested with
      | none => exact .inl rfl
      | some child =>
        refine (ih clause child hclause hnested).imp_right ?_
        rintro ⟨e, he, node, owner, hnode, howner⟩
        exact ⟨e, he, node, owner, .carried hclause hnested hnode, howner⟩

def NullsHaveFields (spec : Spec) : Prop :=
  ∀ node, spec.Holds node → ∀ clause ∈ node.clauses, ¬ clause.HasLoneNull

/-- A spec is drafted as without its null values, or its error is the fault of a null value that
has no field: it stands beside a body, or it is a value without its field. Where there is a draft
without the null values, it is the draft of the spec exactly if every null value has a field. -/
theorem draft_withoutNulls (spec : Spec) :
    (spec.withoutNulls.draft = spec.draft ∨
        ∃ error, spec.draft = .error error ∧ spec.FailsAtNull error) ∧
      ∀ draft, spec.withoutNulls.draft = .ok draft →
        (spec.draft = .ok draft ↔ spec.NullsHaveFields) := by
  have hdraft : ∀ spec : Spec, spec.draft = unlessFaulty spec.faults (spec.declared .root) :=
    addTo_fresh .root
  have hcases : spec.withoutNulls.draft = spec.draft ∨
      ∃ error, spec.draft = .error error ∧ spec.FailsAtNull error := by
    rw [hdraft, hdraft, declared_withoutNulls]
    rcases spec.sameHead_withoutNulls with hsame | ⟨error, herror, hnull⟩
    · exact .inl (unlessFaulty_congr hsame _)
    · exact .inr ⟨error, unlessFaulty_eq_error.2 herror, hnull⟩
  refine ⟨hcases, fun draft hwithout => ⟨fun hok => ?_, fun hfields => ?_⟩⟩
  · rw [hdraft, unlessFaulty_eq_ok, faults_eq_nil_iff] at hok
    rintro node hnode clause hclause ⟨hvalue, hfield⟩
    exact (hok.1 node hnode).values clause hclause (by simp [hvalue]) hfield
  · rcases hcases with hsame | ⟨error, -, node, clause, hnode, hclause, hnull, -⟩
    · rw [← hsame, hwithout]
    · exact absurd hnull (hfields node hnode clause hclause)

def carriedNull : Spec :=
  { clauses := [{ kind := "nested", nested := some {
      clauses := [{ kind := "exists", field := some "a", value := some .null }] } }] }

theorem draft_withoutNulls_carriedNull :
    ∃ draft, carriedNull.withoutNulls.draft = .ok draft ∧ carriedNull.NullsHaveFields ∧
      carriedNull.draft = .ok draft := by
  obtain ⟨-, hdrafted⟩ := draft_withoutNulls carriedNull
  have hfields : carriedNull.NullsHaveFields := by
    intro node hnode clause hclause
    cases hnode with
    | self =>
      obtain rfl := List.mem_singleton.1 hclause
      simp [ClauseSpec.HasLoneNull]
    | carried howner hchild hnode =>
      obtain rfl := List.mem_singleton.1 howner
      obtain rfl := Option.some.inj hchild
      cases hnode with
      | self =>
        obtain rfl := List.mem_singleton.1 hclause
        simp [ClauseSpec.HasLoneNull]
      | carried howner hchild =>
        obtain rfl := List.mem_singleton.1 howner
        simp at hchild
  exact ⟨_, rfl, hfields, (hdrafted _ rfl).2 hfields⟩

/-- A null value alone, without a field and without a body, keeps a spec from being drafted. -/
theorem draft_not_always_withoutNulls :
    ¬ ∀ spec : Spec, spec.withoutNulls.draft = spec.draft := by
  intro h
  have hspec := h { clauses := [{ kind := "exists", value := some .null }] }
  have hok : ({ clauses := [{ kind := "exists" }] } : Spec).draft =
      .ok { queries := ⟨[{ kind := "exists" }], [], []⟩ } := rfl
  have herror : ({ clauses := [{ kind := "exists", value := some .null }] } : Spec).draft =
      .error (.valueWithoutField "exists") := rfl
  rw [herror] at hspec
  cases hok.symm.trans hspec

end Spec

end SearchQuery
