import SearchQuery.Proofs.SortedReading
import SearchQuery.Spec.Place

/-!
Reading specs without a bound. What is found in a record is nested less deep than the record, so
the bound on the depth never ends the reading of a spec: a spec is read by its own reader wherever
a clause carries one.
-/
namespace SearchQuery

namespace Datum

variable {α : Type}

theorem depth_lt_of_mem {items : List Datum} {datum : Datum} (h : datum ∈ items) :
    datum.depth < (Datum.array items).depth :=
  Nat.lt_add_one_iff.2 (depths_le_iff.1 (Nat.le_refl _) datum h)

theorem depth_lt_of_mem_entries {entries : List (String × Datum)} {entry : String × Datum}
    (h : entry ∈ entries) : entry.2.depth < (Datum.object entries).depth :=
  Nat.lt_add_one_iff.2 (entryDepths_le_iff.1 (Nat.le_refl _) entry h)

/-- A field of a record is nested less deep than the record. -/
theorem depth_lt_of_record? {keys : List String} {mayStopEarly : Bool} {datum found : Datum}
    {fields : List (String × Datum)} (hfields : datum.record? keys mayStopEarly = some fields)
    {key : String} (h : fields.lookup key = some found) : found.depth < datum.depth := by
  have hmem : (key, found) ∈ fields := Keyed.mem_of_get? h
  cases datum with
  | object entries =>
    rw [record?] at hfields
    obtain ⟨-, hsome⟩ := Option.ite_none_right_eq_some.1 hfields
    obtain rfl := Option.some.inj hsome
    exact depth_lt_of_mem_entries hmem
  | array items =>
    rw [record?] at hfields
    obtain ⟨-, hsome⟩ := Option.ite_none_right_eq_some.1 hfields
    obtain rfl := Option.some.inj hsome
    exact depth_lt_of_mem (List.of_mem_zip hmem).2
  | _ => simp [record?] at hfields

theorem optional_congr {read other : Datum → Option α} {field : Option Datum}
    (h : ∀ datum, field = some datum → read datum = other datum) :
    optional read field = optional other field := by
  cases field with
  | none => rfl
  | some datum =>
    by_cases hnull : datum = .null
    · rw [hnull]
      rfl
    · rw [optional_some read hnull, optional_some other hnull, h datum rfl]

theorem defaulting_congr {read other : Datum → Option α} {default : α} {field : Option Datum}
    (h : ∀ datum, field = some datum → read datum = other datum) :
    defaulting default read field = defaulting default other field := by
  cases field with
  | none => rfl
  | some datum => exact h datum rfl

theorem list?_congr {read other : Datum → Option α} {datum : Datum}
    (h : ∀ found, found.depth < datum.depth → read found = other found) :
    list? read datum = list? other datum := by
  cases datum with
  | array items =>
    have hitems : items.map read = items.map other :=
      List.map_congr_left fun found hfound => h found (depth_lt_of_mem hfound)
    refine Option.ext fun found => ?_
    rw [list?_eq_some, list?_eq_some, hitems]
  | _ => rfl

theorem oneOrMany?_congr {one item one' item' : Datum → Option α} {datum : Datum}
    (hone : one datum = one' datum)
    (hitem : ∀ found, found.depth < datum.depth → item found = item' found) :
    oneOrMany? one item datum = oneOrMany? one' item' datum := by
  rw [oneOrMany?, oneOrMany?, hone, list?_congr hitem]

end Datum

/-- A clause is read alike by two readers that read alike what it carries. -/
theorem ClauseSpec.readWith?_congr {spec? other? : Datum → Option Spec} {datum : Datum}
    (h : ∀ found, found.depth < datum.depth → spec? found = other? found) (inList : Bool) :
    readWith? spec? inList datum = readWith? other? inList datum := by
  rw [readWith?, readWith?]
  refine Option.bind_congr fun fields hfields => ?_
  have hnested : Datum.optional spec? (fields.lookup "nested") =
      Datum.optional other? (fields.lookup "nested") :=
    Datum.optional_congr fun found hfound => h found (Datum.depth_lt_of_record? hfields hfound)
  rw [hnested]

namespace Spec

/-- A spec is read alike by two readers that read alike what is under its clauses. -/
theorem readWith?_congr {clauses? other? : Datum → Option (List ClauseSpec)} {datum : Datum}
    (h : ∀ found, found.depth < datum.depth → clauses? found = other? found) :
    readWith? clauses? datum = readWith? other? datum := by
  rw [readWith?, readWith?]
  refine Option.bind_congr fun fields hfields => ?_
  have hclauses : Datum.defaulting [] clauses? (fields.lookup "clause") =
      Datum.defaulting [] other? (fields.lookup "clause") :=
    Datum.defaulting_congr fun found hfound => h found (Datum.depth_lt_of_record? hfields hfound)
  rw [hclauses]

/-- Two bounds that a datum keeps to are as good as each other. By induction on the first one:
the specs inside are nested less deep. -/
theorem readTo?_eq_readTo? {bound other : Nat} {datum : Datum} (hbound : datum.depth < bound)
    (hother : datum.depth < other) : readTo? bound datum = readTo? other datum := by
  induction bound generalizing other datum with
  | zero => omega
  | succ bound ih =>
    obtain ⟨other, rfl⟩ : ∃ n, other = n + 1 := ⟨other - 1, by omega⟩
    refine readWith?_congr fun found hfound => ?_
    have hclause : ∀ inner inList, Datum.depth inner ≤ found.depth →
        ClauseSpec.readWith? (readTo? bound) inList inner =
          ClauseSpec.readWith? (readTo? other) inList inner := fun inner inList hinner =>
      ClauseSpec.readWith?_congr (fun child hchild => ih (by omega) (by omega)) inList
    exact Datum.oneOrMany?_congr (hclause found false (Nat.le_refl _)) fun inner hinner =>
      hclause inner true (Nat.le_of_lt hinner)

/-- A spec is a record whose clauses carry specs. -/
theorem ofDatum?_eq (datum : Datum) :
    ofDatum? datum = readWith? (Place.read .clauses) datum := by
  refine readWith?_congr fun found hfound => ?_
  have hclause : ∀ inner inList, Datum.depth inner ≤ found.depth →
      ClauseSpec.readWith? (readTo? datum.depth) inList inner =
        ClauseSpec.ofDatum? inList inner := fun inner inList hinner =>
    ClauseSpec.readWith?_congr
      (fun child hchild => readTo?_eq_readTo? (by omega) (Nat.lt_succ_self _)) inList
  exact Datum.oneOrMany?_congr (hclause found false (Nat.le_refl _)) fun inner hinner =>
    hclause inner true (Nat.le_of_lt hinner)

end Spec

end SearchQuery
