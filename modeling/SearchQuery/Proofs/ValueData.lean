import SearchQuery.Datum
import SearchQuery.Proofs.Alike

/-!
Values as data. Every value is said by a datum without faults, and where its numbers fit and
the keys of its objects are distinct, the datum stands for that value again. What is true of
every value from the same fact about its items and entries is shown by one induction.
-/
namespace SearchQuery

namespace Keyed

variable {α β : Type}

theorem get?_map (f : α → β) (entries : Keyed α) (key : String) :
    get? (entries.map fun entry => (entry.1, f entry.2)) key = (entries.get? key).map f := by
  induction entries with
  | nil => rfl
  | cons entry rest ih =>
    rw [List.map_cons, get?_cons, get?_cons, ih]
    split <;> rfl

theorem keys_map (f : α → β) (entries : Keyed α) :
    keys (entries.map fun entry => (entry.1, f entry.2)) = entries.keys := by
  simp [keys]

end Keyed

namespace Value

/-- Induction over values, from the items and the entries upwards. -/
@[elab_as_elim]
theorem parts_induction {P : Value → Prop} (null : P .null) (bool : ∀ b, P (.bool b))
    (int : ∀ n, P (.int n)) (float : ∀ x, P (.float x)) (string : ∀ s, P (.string s))
    (array : ∀ values : List Value, (∀ value ∈ values, P value) → P (.array values))
    (object : ∀ o : Object, (∀ entry ∈ o, P entry.2) → P (.object o)) : ∀ value, P value
  | .null => null
  | .bool b => bool b
  | .int n => int n
  | .float x => float x
  | .string s => string s
  | .array values => array values fun item _ =>
    parts_induction null bool int float string array object item
  | .object o => object o fun entry _ =>
    parts_induction null bool int float string array object entry.2
termination_by value => sizeOf value
decreasing_by
  · have := List.sizeOf_lt_of_mem ‹item ∈ values›
    simp only [Value.array.sizeOf_spec]
    omega
  · have := List.sizeOf_lt_of_mem ‹entry ∈ o›
    obtain ⟨key, inner⟩ := entry
    simp only [Value.object.sizeOf_spec, Prod.mk.sizeOf_spec] at this ⊢
    omega

theorem forall_occurs_scalar_iff {Q : Value → Prop} {value : Value}
    (harray : ∀ values, value ≠ .array values) (hobject : ∀ o, value ≠ .object o) :
    (∀ part : Value, part.Occurs value → Q part) ↔ Q value := by
  refine ⟨fun h => h value .here, fun h part hpart => ?_⟩
  cases hpart with
  | here => exact h
  | item => exact absurd rfl (harray _)
  | entry => exact absurd rfl (hobject _)

theorem forall_occurs_array_iff {Q : Value → Prop} {values : List Value} :
    (∀ part : Value, part.Occurs (.array values) → Q part) ↔
      Q (.array values) ∧ ∀ value ∈ values, ∀ part : Value, part.Occurs value → Q part := by
  constructor
  · intro h
    exact ⟨h _ .here, fun value hvalue part hpart => h part (.item hvalue hpart)⟩
  · rintro ⟨hself, hitems⟩ part hpart
    cases hpart with
    | here => exact hself
    | item hmem hinner => exact hitems _ hmem part hinner

theorem forall_occurs_object_iff {Q : Value → Prop} {o : Object} :
    (∀ part : Value, part.Occurs (.object o) → Q part) ↔
      Q (.object o) ∧ ∀ entry ∈ o, ∀ part : Value, part.Occurs entry.2 → Q part := by
  constructor
  · intro h
    exact ⟨h _ .here, fun entry hentry part hpart => h part (.entry hentry hpart)⟩
  · rintro ⟨hself, hentries⟩ part hpart
    cases hpart with
    | here => exact hself
    | entry hmem hinner => exact hentries _ hmem part hinner

mutual

def datum : Value → Datum
  | .null => .null
  | .bool b => .bool b
  | .int n => .int n
  | .float x => .float x
  | .string s => .string s
  | .array values => .array (itemsData values)
  | .object entries => .object (entriesData entries)

def itemsData : List Value → List Datum
  | [] => []
  | value :: rest => value.datum :: itemsData rest

def entriesData : List (String × Value) → List (String × Datum)
  | [] => []
  | (key, value) :: rest => (key, value.datum) :: entriesData rest

end

def depth (value : Value) : Nat := value.datum.depth

/-- Whether a value, apart from its parts, is no floating-point number and no whole number
beyond 64 bits, signed or unsigned. -/
def fits : Value → Bool
  | .float _ => false
  | .int n => -Int.pow 2 63 ≤ n ∧ n < Int.pow 2 64
  | _ => true

def Whole (value : Value) : Prop := ∀ part : Value, part.Occurs value → part.fits = true

@[simp] theorem whole_array_iff {values : List Value} :
    (Value.array values).Whole ↔ ∀ value ∈ values, value.Whole :=
  forall_occurs_array_iff.trans (and_iff_right rfl)

@[simp] theorem whole_object_iff {o : Object} :
    (Value.object o).Whole ↔ ∀ entry ∈ o, entry.2.Whole :=
  forall_occurs_object_iff.trans (and_iff_right rfl)

@[simp] theorem whole_null : Value.null.Whole :=
  (forall_occurs_scalar_iff (by simp) (by simp)).2 rfl

@[simp] theorem whole_bool (b : Bool) : (Value.bool b).Whole :=
  (forall_occurs_scalar_iff (by simp) (by simp)).2 rfl

@[simp] theorem whole_string (s : String) : (Value.string s).Whole :=
  (forall_occurs_scalar_iff (by simp) (by simp)).2 rfl

theorem whole_int_iff {n : Int} :
    (Value.int n).Whole ↔ -Int.pow 2 63 ≤ n ∧ n < Int.pow 2 64 :=
  (forall_occurs_scalar_iff (by simp) (by simp)).trans decide_eq_true_iff

@[simp] theorem whole_int_iff_bounds {n : Int} :
    (Value.int n).Whole ↔ -9223372036854775808 ≤ n ∧ n < 18446744073709551616 := by
  have hlow : Int.pow 2 63 = 9223372036854775808 := by decide
  have hhigh : Int.pow 2 64 = 18446744073709551616 := by decide
  rw [whole_int_iff, hlow, hhigh]

def NullFree (value : Value) : Prop := ∀ part : Value, part.Occurs value → part ≠ .null

@[simp] theorem nullFree_array_iff {values : List Value} :
    (Value.array values).NullFree ↔ ∀ value ∈ values, value.NullFree :=
  forall_occurs_array_iff.trans (and_iff_right Value.noConfusion)

@[simp] theorem nullFree_object_iff {o : Object} :
    (Value.object o).NullFree ↔ ∀ entry ∈ o, entry.2.NullFree :=
  forall_occurs_object_iff.trans (and_iff_right Value.noConfusion)

@[simp] theorem nullFree_bool (b : Bool) : (Value.bool b).NullFree :=
  (forall_occurs_scalar_iff (by simp) (by simp)).2 (by simp)

@[simp] theorem nullFree_int (n : Int) : (Value.int n).NullFree :=
  (forall_occurs_scalar_iff (by simp) (by simp)).2 (by simp)

@[simp] theorem nullFree_string (s : String) : (Value.string s).NullFree :=
  (forall_occurs_scalar_iff (by simp) (by simp)).2 (by simp)

theorem itemsData_eq_map (values : List Value) : itemsData values = values.map datum := by
  induction values with
  | nil => rfl
  | cons value rest ih => simp [itemsData, ih]

theorem entriesData_eq_map (entries : List (String × Value)) :
    entriesData entries = entries.map fun entry => (entry.1, entry.2.datum) := by
  induction entries with
  | nil => rfl
  | cons entry rest ih => simp [entriesData, ih]

theorem datum_array (values : List Value) :
    (Value.array values).datum = .array (values.map datum) := by
  rw [datum, itemsData_eq_map]

theorem datum_object (o : Object) :
    (Value.object o).datum = .object (o.map fun entry => (entry.1, entry.2.datum)) := by
  rw [datum, entriesData_eq_map]

end Value

namespace Datum

theorem depths_le_iff {data : List Datum} {n : Nat} :
    depths data ≤ n ↔ ∀ datum ∈ data, datum.depth ≤ n := by
  induction data with
  | nil => simp [depths]
  | cons datum rest ih => rw [depths, Nat.max_le, ih, List.forall_mem_cons]

theorem entryDepths_le_iff {entries : List (String × Datum)} {n : Nat} :
    entryDepths entries ≤ n ↔ ∀ entry ∈ entries, entry.2.depth ≤ n := by
  induction entries with
  | nil => simp [entryDepths]
  | cons entry rest ih => rw [entryDepths, Nat.max_le, ih, List.forall_mem_cons]

theorem areSound_iff {data : List Datum} :
    areSound data = true ↔ ∀ datum ∈ data, datum.isSound = true := by
  induction data with
  | nil => simp [areSound]
  | cons datum rest ih => simp [areSound, ih]

theorem entriesSound_iff {entries : List (String × Datum)} :
    entriesSound entries = true ↔ ∀ entry ∈ entries, entry.2.isSound = true := by
  induction entries with
  | nil => simp [entriesSound]
  | cons entry rest ih => simp [entriesSound, ih]

theorem values?_map {α : Type} {f : α → Datum} {g : α → Value} {items : List α}
    (h : ∀ item ∈ items, (f item).value? = some (g item)) :
    values? (items.map f) = some (items.map g) := by
  induction items with
  | nil => rfl
  | cons item rest ih =>
    rw [List.forall_mem_cons] at h
    simp [values?, h.1, ih h.2]

theorem valueEntries?_map {α : Type} {f : α → Datum} {g : α → Value} {entries : List (String × α)}
    (h : ∀ entry ∈ entries, (f entry.2).value? = some (g entry.2)) :
    valueEntries? (entries.map fun entry => (entry.1, f entry.2)) =
      some (entries.map fun entry => (entry.1, g entry.2)) := by
  induction entries with
  | nil => rfl
  | cons entry rest ih =>
    rw [List.forall_mem_cons] at h
    simp [valueEntries?, h.1, ih h.2]

end Datum

namespace Value

theorem depth_array_pos (values : List Value) : 0 < (Value.array values).depth :=
  Nat.succ_pos _

theorem depth_object_pos (o : Object) : 0 < (Value.object o).depth :=
  Nat.succ_pos _

theorem depth_array_le_iff {values : List Value} {n : Nat} :
    (Value.array values).depth ≤ n + 1 ↔ ∀ value ∈ values, value.depth ≤ n := by
  rw [depth, datum_array, Datum.depth, Nat.add_le_add_iff_right, Datum.depths_le_iff,
    List.forall_mem_map]
  rfl

theorem depth_object_le_iff {o : Object} {n : Nat} :
    (Value.object o).depth ≤ n + 1 ↔ ∀ entry ∈ o, entry.2.depth ≤ n := by
  rw [depth, datum_object, Datum.depth, Nat.add_le_add_iff_right, Datum.entryDepths_le_iff,
    List.forall_mem_map]
  rfl

/-- An item is nested less deep than its array. -/
theorem depth_item_lt {values : List Value} {value : Value} (h : value ∈ values) :
    value.depth < (Value.array values).depth :=
  Nat.lt_add_one_iff.2 (depth_array_le_iff.1 (Nat.le_refl _) value h)

/-- A value is nested less deep than an object with it under a key. -/
theorem depth_entry_lt {o : Object} {entry : String × Value} (h : entry ∈ o) :
    entry.2.depth < (Value.object o).depth :=
  Nat.lt_add_one_iff.2 (depth_object_le_iff.1 (Nat.le_refl _) entry h)

theorem depth_lt_of_get? {o : Object} {key : String} {value : Value}
    (h : o.get? key = some value) : value.depth < (Value.object o).depth :=
  depth_entry_lt (Keyed.mem_of_get? h)

theorem isSound_datum (value : Value) : value.datum.isSound = true := by
  induction value using parts_induction with
  | array values ih =>
    rw [datum_array, Datum.isSound, Datum.areSound_iff, List.forall_mem_map]
    exact ih
  | object o ih =>
    rw [datum_object, Datum.isSound, Datum.entriesSound_iff, List.forall_mem_map]
    exact ih
  | _ => rfl

/-- The datum of a value stands for the value. -/
theorem value?_datum {value : Value} (hdistinct : value.Distinct) (hwhole : value.Whole) :
    value.datum.value? = some value := by
  induction value using parts_induction with
  | int n => exact if_pos (whole_int_iff.1 hwhole)
  | float x => exact absurd (hwhole _ .here) (by simp [fits])
  | array values ih =>
    rw [distinct_array_iff] at hdistinct
    have hitems := whole_array_iff.1 hwhole
    have hvalues : Datum.values? (values.map datum) = some (values.map id) :=
      Datum.values?_map fun item hitem => ih item hitem (hdistinct item hitem) (hitems item hitem)
    rw [datum_array, Datum.value?, hvalues, List.map_id]
    rfl
  | object o ih =>
    obtain ⟨hkeys, hdistinct⟩ := distinct_object_iff.1 hdistinct
    have hentries := whole_object_iff.1 hwhole
    have hvalues : Datum.valueEntries? (o.map fun entry => (entry.1, entry.2.datum)) =
        some (o.map fun entry => (entry.1, id entry.2)) :=
      Datum.valueEntries?_map fun entry hentry =>
        ih entry hentry (hdistinct entry hentry) (hentries entry hentry)
    have hself : Keyed.distinct o = o := Keyed.nil_extend hkeys
    simp [datum_object, Datum.value?, hvalues, hself]
  | _ => rfl

end Value

end SearchQuery
