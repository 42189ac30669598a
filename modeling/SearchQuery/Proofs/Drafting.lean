import SearchQuery.Proofs.Additions
import SearchQuery.Proofs.Entries
import SearchQuery.Spec.Drafting

/-!
Which draft a spec declares, and when it declares one. A spec is drafted exactly if no
node of its tree has a fault of its own, and then every group of the draft holds the
declared clauses of that group in order, at every depth. Otherwise the error is the first
fault: those of the sort fields come first, then those of the clauses, and for each clause
its own fault before those of the spec that it carries.
-/
namespace SearchQuery

def sameLetters (s t : String) : Bool := s.toList.map Char.toLower == t.toList.map Char.toLower

namespace Direction

def named? (text : String) : Option Direction :=
  [Direction.asc, Direction.desc].find? fun direction => sameLetters text direction.name

def unnamed (text : String) : DraftError :=
  .invalidArgument ("direction must be 'asc' or 'desc', got '" ++ text ++ "'")

theorem toLower_eq_iff {text word : String}
    (h : word.toList.map Char.toLower = word.toList) :
    text.toLower = word ↔ sameLetters text word = true := by
  rw [sameLetters, h, beq_iff_eq, ← String.toList_map, String.toList_inj]
  rfl

/-- A text is read as the direction that it names. -/
theorem parse_eq (text : String) :
    Direction.parse text = match named? text with
      | some direction => .ok direction
      | none => .error (unnamed text) := by
  have hasc : text.toLower = "asc" ↔ sameLetters text "asc" = true :=
    toLower_eq_iff (by decide)
  have hdesc : text.toLower = "desc" ↔ sameLetters text "desc" = true :=
    toLower_eq_iff (by decide)
  simp only [Direction.parse, named?, name, List.find?_cons, List.find?_nil, hasc, hdesc]
  cases sameLetters text "asc" <;> cases sameLetters text "desc" <;> rfl

theorem isSome_named?_iff {text : String} :
    (named? text).isSome = true ↔ sameLetters text "asc" = true ∨ sameLetters text "desc" = true := by
  simp [named?, name]

theorem named?_name (direction : Direction) : named? direction.name = some direction := by
  cases direction <;> decide

end Direction

namespace SortSpec

def directionText (field : SortSpec) : String := field.direction.getD Direction.default.name

def declared (field : SortSpec) : String × Direction :=
  (field.field, (Direction.named? field.directionText).getD Direction.default)

def faults (field : SortSpec) : List SpecError :=
  if (Direction.named? field.directionText).isSome then []
  else [.draft (Direction.unnamed field.directionText)]

end SortSpec

namespace ClauseSpec

def payload (spec : ClauseSpec) : Payload :=
  match spec.body, spec.field, spec.value with
  | some body, _, _ => .body body
  | none, none, _ => .empty
  | none, some field, none => .field field
  | none, some field, some .null => .field field
  | none, some field, some value => .fieldValue field value

def payloadFaults (spec : ClauseSpec) : List SpecError :=
  if spec.body.isSome && (spec.field.isSome || spec.value.isSome) then
    [.conflictingPayload spec.kind]
  else if spec.value.isSome && spec.field.isNone then [.valueWithoutField spec.kind]
  else []

end ClauseSpec

mutual

/-- The draft that a spec declares at a place. The groups hold the declared clauses in
order, and the sort fields are settled: each in its first place with its last direction. -/
def Spec.declared (placement : Placement) : Spec → Draft
  | ⟨base, size, offset, queryThreshold, filterThreshold, sort, raw, clauses⟩ =>
    { base := base.getD [], placement
      filters := Addition.groups (additions clauses) .filter
      queries := Addition.groups (additions clauses) .query
      rawOptions := raw, sort := Keyed.settled (sort.map SortSpec.declared), size, offset,
      filterThreshold, queryThreshold }

def additions : List ClauseSpec → List Addition
  | [] => []
  | spec :: rest => spec.addition :: additions rest

def ClauseSpec.addition : ClauseSpec → Addition
  | ⟨family, mode, kind, field, value, body, options, nested⟩ =>
    { family, mode
      clause :=
        { kind
          payload := ClauseSpec.payload ⟨family, mode, kind, field, value, body, options, none⟩
          options := Keyed.settled options
          nested := declaredChild family nested } }

def declaredChild (family : Family) : Option Spec → Option Draft
  | none => none
  | some spec => some (spec.declared (.below family))

end

mutual

def Spec.faults : Spec → List SpecError
  | ⟨_, _, _, _, _, sort, _, clauses⟩ => sort.flatMap SortSpec.faults ++ clausesFaults clauses

def clausesFaults : List ClauseSpec → List SpecError
  | [] => []
  | spec :: rest => spec.faults ++ clausesFaults rest

def ClauseSpec.faults : ClauseSpec → List SpecError
  | ⟨family, mode, kind, field, value, body, options, nested⟩ =>
    ClauseSpec.payloadFaults ⟨family, mode, kind, field, value, body, options, none⟩ ++
      carriedFaults nested

def carriedFaults : Option Spec → List SpecError
  | none => []
  | some spec => spec.faults

end

theorem additions_eq_map (specs : List ClauseSpec) :
    additions specs = specs.map ClauseSpec.addition := by
  induction specs with
  | nil => rfl
  | cons spec rest ih => simp [additions, ih]

theorem clausesFaults_eq_flatMap (specs : List ClauseSpec) :
    clausesFaults specs = specs.flatMap ClauseSpec.faults := by
  induction specs with
  | nil => rfl
  | cons spec rest ih => simp [clausesFaults, ih]

section Faulty

variable {α β : Type}

def unlessFaulty (faults : List SpecError) (a : α) : Except SpecError α :=
  match faults with
  | [] => .ok a
  | e :: _ => .error e

/-- The faults of what is done first come first. -/
theorem unlessFaulty_bind {faults more : List SpecError} {a : α} {b : β}
    {f : α → Except SpecError β} (h : f a = unlessFaulty more b) :
    (unlessFaulty faults a >>= f) = unlessFaulty (faults ++ more) b := by
  cases faults with
  | nil => exact h
  | cons e rest => rfl

theorem unlessFaulty_eq_ok {faults : List SpecError} {a b : α} :
    unlessFaulty faults a = .ok b ↔ faults = [] ∧ a = b := by
  cases faults <;> simp [unlessFaulty]

theorem unlessFaulty_eq_error {faults : List SpecError} {a : α} {e : SpecError} :
    unlessFaulty faults a = .error e ↔ faults.head? = some e := by
  cases faults <;> simp [unlessFaulty]

end Faulty

namespace ClauseSpec

/-- Without what it carries, a clause is drafted unless its payload has a fault. -/
theorem clause_eq (spec : ClauseSpec) :
    spec.clause = unlessFaulty spec.payloadFaults
      { kind := spec.kind, payload := spec.payload, options := Keyed.settled spec.options } := by
  obtain ⟨family, mode, kind, field, value, body, options, nested⟩ := spec
  rw [← Keyed.distinct_eq_settled]
  cases body with
  | some body => cases field <;> cases value <;> rfl
  | none =>
    cases field with
    | none => cases value <;> rfl
    | some field =>
      cases value with
      | none => rfl
      | some value => cases value <;> rfl

end ClauseSpec

namespace Spec

theorem addSort_eq (draft : Draft) (field : SortSpec) :
    addSort draft field = unlessFaulty field.faults
      (draft.sortBy field.declared.1 field.declared.2) := by
  have htext : field.direction.getD Direction.default.name = field.directionText := rfl
  unfold addSort SortSpec.faults SortSpec.declared
  rw [htext, Direction.parse_eq]
  cases Direction.named? field.directionText <;> rfl

theorem addSorts_eq (draft : Draft) (fields : List SortSpec) :
    fields.foldlM addSort draft = unlessFaulty (fields.flatMap SortSpec.faults)
      { draft with sort := draft.sort.extend (fields.map SortSpec.declared) } := by
  induction fields generalizing draft with
  | nil =>
    cases draft
    rfl
  | cons field rest ih =>
    rw [List.foldlM_cons, addSort_eq, List.flatMap_cons]
    exact unlessFaulty_bind (ih _)

theorem addRaw_eq (draft : Draft) (raw : List (String × Value)) :
    raw.foldl (fun draft option => draft.withRawOption option.1 option.2) draft =
      { draft with rawOptions := draft.rawOptions ++ raw } := by
  induction raw generalizing draft with
  | nil =>
    cases draft
    simp
  | cons option rest ih =>
    rw [List.foldl_cons, ih]
    simp [Draft.withRawOption]

theorem withSettings_eq (spec : Spec) (placement : Placement) :
    spec.withSettings (Draft.fresh placement) = unlessFaulty (spec.sort.flatMap SortSpec.faults)
      { base := spec.base.getD [], placement, rawOptions := spec.raw,
        sort := Keyed.settled (spec.sort.map SortSpec.declared), size := spec.size,
        offset := spec.offset, filterThreshold := spec.filterThreshold,
        queryThreshold := spec.queryThreshold } := by
  obtain ⟨base, size, offset, queryThreshold, filterThreshold, sort, raw, clauses⟩ := spec
  rw [← Keyed.distinct_eq_settled, ← List.append_nil (List.flatMap _ _)]
  simp only [withSettings, addSorts_eq, addRaw_eq]
  apply unlessFaulty_bind
  cases base <;> cases size <;> cases offset <;> cases queryThreshold <;>
    cases filterThreshold <;> rfl

end Spec

mutual

/-- A spec is drafted at a place as it declares, unless there is a fault in its tree. -/
theorem Spec.addTo_fresh (placement : Placement) : (spec : Spec) →
    Spec.addTo (Draft.fresh placement) spec =
      unlessFaulty spec.faults (spec.declared placement)
  | ⟨base, size, offset, queryThreshold, filterThreshold, sort, raw, clauses⟩ => by
    rw [Spec.addTo, Spec.withSettings_eq, Spec.faults]
    apply unlessFaulty_bind
    rw [Spec.addClauses_eq _ clauses, Draft.addAll_eq]
    rfl

theorem Spec.addClauses_eq (draft : Draft) : (specs : List ClauseSpec) →
    Spec.addClauses draft specs =
      unlessFaulty (clausesFaults specs) (draft.addAll (additions specs))
  | [] => rfl
  | spec :: rest => by
    rw [Spec.addClauses, Spec.addClause_eq draft spec, clausesFaults]
    exact unlessFaulty_bind (Spec.addClauses_eq _ rest)

theorem Spec.addClause_eq (draft : Draft) : (spec : ClauseSpec) →
    Spec.addClause draft spec = unlessFaulty spec.faults
      (draft.add spec.addition.family spec.addition.mode spec.addition.clause)
  | ⟨family, mode, kind, field, value, body, options, nested⟩ => by
    rw [Spec.addClause, ClauseSpec.clause_eq, ClauseSpec.faults, ← List.append_nil (_ ++ _),
      List.append_assoc]
    apply unlessFaulty_bind
    rw [Spec.carried_eq family nested]
    apply unlessFaulty_bind
    cases nested <;> rfl

theorem Spec.carried_eq (family : Family) : (nested : Option Spec) →
    Spec.carried family nested =
      unlessFaulty (carriedFaults nested) (declaredChild family nested)
  | none => rfl
  | some spec => by
    rw [Spec.carried, Spec.addTo_fresh (.below family) spec, carriedFaults, declaredChild]
    cases spec.faults <;> rfl

end

namespace Spec

inductive Holds : Spec → Spec → Prop
  | self (spec : Spec) : Holds spec spec
  | carried {spec child node : Spec} {clause : ClauseSpec} (hclause : clause ∈ spec.clauses)
      (hchild : clause.nested = some child) (hnode : Holds child node) : Holds spec node

/-- A spec has nothing of its own that keeps it from being drafted. Directions are left out
or named, and the payload of each clause is declared in one way and in full. -/
structure Faultless (spec : Spec) : Prop where
  directions : ∀ field ∈ spec.sort, ∀ text, field.direction = some text →
    sameLetters text "asc" = true ∨ sameLetters text "desc" = true
  bodies : ∀ clause ∈ spec.clauses, clause.body ≠ none →
    clause.field = none ∧ clause.value = none
  values : ∀ clause ∈ spec.clauses, clause.value ≠ none → clause.field ≠ none

/-- The spec of a declaration is smaller than the spec with that declaration. -/
theorem sizeOf_child_lt {spec child : Spec} {clause : ClauseSpec}
    (hclause : clause ∈ spec.clauses) (hchild : clause.nested = some child) :
    sizeOf child < sizeOf spec := by
  have hmem := List.sizeOf_lt_of_mem hclause
  obtain ⟨_, _, _, _, _, _, _, clauses⟩ := spec
  obtain ⟨_, _, _, _, _, _, _, nested⟩ := clause
  obtain rfl : nested = some child := hchild
  simp only [ClauseSpec.mk.sizeOf_spec, Option.some.sizeOf_spec] at hmem
  simp only [mk.sizeOf_spec]
  omega

/-- Induction over the tree of a spec, from the specs that the clauses carry upwards. -/
theorem tree_induction {P : Spec → Prop}
    (step : ∀ spec : Spec, (∀ clause child, clause ∈ spec.clauses →
      clause.nested = some child → P child) → P spec) (spec : Spec) : P spec :=
  step spec fun _ child hclause hchild =>
    have := sizeOf_child_lt hclause hchild
    tree_induction step child
termination_by sizeOf spec

theorem sortFaults_eq_nil_iff {field : SortSpec} :
    field.faults = [] ↔ ∀ text, field.direction = some text →
      sameLetters text "asc" = true ∨ sameLetters text "desc" = true := by
  unfold SortSpec.faults SortSpec.directionText
  rw [ite_eq_left_iff]
  simp only [reduceCtorEq, imp_false, Classical.not_not, Direction.isSome_named?_iff]
  cases field.direction with
  | none =>
    constructor
    · intro _ text htext
      simp at htext
    · intro _
      exact .inl (by decide)
  | some text => simp

theorem payloadFaults_eq_nil_iff {clause : ClauseSpec} :
    clause.payloadFaults = [] ↔
      (clause.body ≠ none → clause.field = none ∧ clause.value = none) ∧
        (clause.value ≠ none → clause.field ≠ none) := by
  unfold ClauseSpec.payloadFaults
  cases clause.body <;> cases clause.field <;> cases clause.value <;> simp

theorem faults_eq (spec : Spec) :
    spec.faults = spec.sort.flatMap SortSpec.faults ++
      spec.clauses.flatMap fun clause =>
        clause.payloadFaults ++ clause.nested.elim [] Spec.faults := by
  obtain ⟨base, size, offset, queryThreshold, filterThreshold, sort, raw, clauses⟩ := spec
  rw [faults, clausesFaults_eq_flatMap]
  congr 2
  funext clause
  obtain ⟨family, mode, kind, field, value, body, options, _ | child⟩ := clause <;> rfl

/-- There is no fault in the tree of a spec exactly if none of its nodes has one. -/
theorem faults_eq_nil_iff {spec : Spec} :
    spec.faults = [] ↔ ∀ node, spec.Holds node → node.Faultless := by
  induction spec using tree_induction with
  | step spec ih =>
    have hchild : ∀ clause ∈ spec.clauses, clause.nested.elim [] Spec.faults = [] ↔
        ∀ child, clause.nested = some child → ∀ node, child.Holds node → node.Faultless := by
      intro clause hclause
      cases hnested : clause.nested with
      | none => simp
      | some child => simpa using ih clause child hclause hnested
    simp only [faults_eq, List.append_eq_nil_iff, List.flatMap_eq_nil_iff,
      sortFaults_eq_nil_iff, payloadFaults_eq_nil_iff]
    constructor
    · rintro ⟨hsort, hclauses⟩ node hnode
      cases hnode with
      | self =>
        exact ⟨hsort, fun clause hclause => (hclauses clause hclause).1.1,
          fun clause hclause => (hclauses clause hclause).1.2⟩
      | @carried _ child _ clause hclause hnested hnode =>
        exact (hchild clause hclause).1 (hclauses clause hclause).2 child hnested node hnode
    · intro hnodes
      have hself := hnodes spec (.self spec)
      refine ⟨hself.directions, fun clause hclause =>
        ⟨⟨hself.bodies clause hclause, hself.values clause hclause⟩, ?_⟩⟩
      refine (hchild clause hclause).2 fun child hnested node hnode => ?_
      exact hnodes node (.carried hclause hnested hnode)

/-- A spec is drafted exactly if no node of its tree has a fault. It is then drafted as the
draft that it declares at the root, and otherwise its first fault is the error. -/
theorem drafted_as_declared (spec : Spec) :
    ((∃ draft, spec.draft = .ok draft) ↔ ∀ node, spec.Holds node → node.Faultless) ∧
      (∀ draft, spec.draft = .ok draft → draft = spec.declared .root) ∧
      ∀ e, spec.draft = .error e → spec.faults.head? = some e := by
  have hdraft : spec.draft = unlessFaulty spec.faults (spec.declared .root) :=
    addTo_fresh .root spec
  rw [hdraft, ← faults_eq_nil_iff]
  refine ⟨?_, ?_, ?_⟩
  · simp [unlessFaulty_eq_ok]
  · intro draft h
    exact (unlessFaulty_eq_ok.1 h).2.symm
  · intro e h
    exact unlessFaulty_eq_error.1 h

end Spec

end SearchQuery
