import SearchQuery.Proofs.SortedKeys
import SearchQuery.Proofs.SpecReading

/-!
Reading data with sorted keys. The readers look fields up by their keys, so what they read from
a value with sorted keys is what they read from the value, with sorted keys. This goes from the
readers of single fields over records and lists to specs at every depth.
-/
namespace SearchQuery

theorem Value.Exact.keySorted {value : Value} (h : value.Exact) : value.keySorted.Exact where
  distinct := h.distinct.keySorted
  whole := h.whole.keySorted

namespace Datum

variable {α : Type} {read : Datum → Option α} {sort : α → α}

/-- Whether a reader reads the same thing from a value with sorted keys, but that the keys in it
are sorted. -/
def ReadsSorted (read : Datum → Option α) (sort : α → α) : Prop :=
  ∀ value : Value, value.Exact → read value.keySorted.datum = (read value.datum).map sort

/-- A reader of things without keys fails on arrays and objects. -/
theorem readsSorted_of_scalar (harray : ∀ items, read (.array items) = none)
    (hobject : ∀ entries, read (.object entries) = none) : ReadsSorted read id := by
  intro value _
  rw [Option.map_id_fun, id]
  cases value with
  | array values => rw [Value.keySorted_array, Value.datum_array, Value.datum_array, harray, harray]
  | object o => rw [Value.keySorted_object, Value.datum_object, Value.datum_object, hobject, hobject]
  | _ => rfl

theorem readsSorted_text? : ReadsSorted text? id :=
  readsSorted_of_scalar (fun _ => rfl) fun _ => rfl

theorem readsSorted_unsigned? : ReadsSorted unsigned? id :=
  readsSorted_of_scalar (fun _ => rfl) fun _ => rfl

theorem readsSorted_signed? : ReadsSorted signed? id :=
  readsSorted_of_scalar (fun _ => rfl) fun _ => rfl

theorem readsSorted_value? : ReadsSorted value? Value.keySorted := by
  intro value h
  rw [h.value?_datum, h.keySorted.value?_datum]
  rfl

theorem readsSorted_object? : ReadsSorted object? Object.keySorted := by
  intro value h
  rw [object?, object?, h.value?_datum, h.keySorted.value?_datum]
  cases value <;> rfl

section Choice

variable (name : α → String) (choices : List α) (mayBeEmpty : Bool)

theorem choice?_of_length_ne {entries : List (String × Datum)} (h : entries.length ≠ 1) :
    choice? name choices mayBeEmpty (.object entries) = none := by
  match entries with
  | [] => rfl
  | [_] => exact absurd rfl h
  | _ :: _ :: _ => simp [choice?]

theorem choice?_of_ne_nil (key : String) {entries : List (String × Datum)} (h : entries ≠ []) :
    choice? name choices mayBeEmpty (.object [(key, .object entries)]) = none := by
  cases entries with
  | nil => exact absurd rfl h
  | cons entry rest => rfl

theorem readsSorted_choice? : ReadsSorted (choice? name choices mayBeEmpty) id := by
  intro value _
  rw [Option.map_id_fun, id]
  cases value with
  | object o =>
    rw [Value.keySorted_object, Value.datum_object, Value.datum_object]
    match o with
    | [] => rfl
    | [(key, .object inner)] =>
      cases inner with
      | nil => rfl
      | cons entry rest =>
        have hinner : Object.keySorted (entry :: rest) ≠ [] := by
          rw [← List.length_pos_iff, (Object.keySorted_perm _).length_eq]
          simp
        have hsorted : Object.keySorted [(key, .object (entry :: rest))] =
            [(key, .object (Object.keySorted (entry :: rest)))] := rfl
        rw [hsorted, List.map_singleton, List.map_singleton, Value.datum_object,
          Value.datum_object, choice?_of_ne_nil, choice?_of_ne_nil]
        · simp
        · simpa using hinner
    | [(key, .null)] | [(key, .bool _)] | [(key, .int _)] | [(key, .float _)]
    | [(key, .string _)] | [(key, .array _)] => rfl
    | first :: second :: rest =>
      rw [choice?_of_length_ne, choice?_of_length_ne]
      · simp
      · simp [(Object.keySorted_perm _).length_eq]
  | _ => rfl

end Choice

theorem readsSorted_list? (hread : ReadsSorted read sort) :
    ReadsSorted (list? read) (List.map sort) := by
  intro value h
  cases value with
  | array values =>
    have hitems : ∀ value ∈ values, read value.keySorted.datum = (read value.datum).map sort :=
      fun value hvalue => hread value (h.item hvalue)
    clear h
    rw [Value.keySorted_array, Value.datum_array, Value.datum_array, list?, list?]
    induction values with
    | nil => rfl
    | cons value rest ih =>
      rw [List.forall_mem_cons] at hitems
      simp only [List.map_cons, List.mapM_cons, hitems.1, ih hitems.2]
      cases read value.datum with
      | none => rfl
      | some first => cases List.mapM read (rest.map Value.datum) <;> rfl
  | object o => rfl
  | _ => rfl

theorem readsSorted_oneOrMany? {item : Datum → Option α} (hread : ReadsSorted read sort)
    (hitem : ReadsSorted item sort) : ReadsSorted (oneOrMany? read item) (List.map sort) := by
  intro value h
  rw [oneOrMany?, oneOrMany?, Value.isSound_datum, Value.isSound_datum, hread value h,
    readsSorted_list? hitem value h]
  cases read value.datum <;> rfl

/-- The fields of a record and of the same record with sorted keys: under each key stands a
value, once as it is and once with sorted keys, or nothing. -/
def SortedFields (fields sorted : List (String × Datum)) : Prop :=
  ∀ key, ∃ found : Option Value, (∀ value, found = some value → value.Exact) ∧
    fields.lookup key = found.map Value.datum ∧
    sorted.lookup key = found.map fun value => value.keySorted.datum

theorem sortedFields_entryData {o : Object} (h : (Value.object o).Exact) :
    SortedFields (Value.entryData o) (Value.entryData o.keySorted) := by
  intro key
  have hkeys := (Value.distinct_object_iff.1 h.distinct).1
  refine ⟨o.get? key, fun value => h.of_get?, Value.lookup_entryData o key, ?_⟩
  rw [Value.lookup_entryData, Object.get?_keySorted hkeys, Option.map_map]
  rfl

theorem sortedFields_zip (keys : List String) {values : List Value}
    (h : (Value.array values).Exact) :
    SortedFields (keys.zip (values.map Value.datum))
      (keys.zip ((values.map Value.keySorted).map Value.datum)) := by
  intro key
  have hzip : ∀ f : Value → Datum, (keys.zip (values.map f)).lookup key =
      ((keys.zip values).lookup key).map f := by
    intro f
    have hmap : keys.zip (values.map f) = (keys.zip values).map fun entry => (entry.1, f entry.2) :=
      List.zip_map_right
    rw [hmap]
    exact Keyed.get?_map f (keys.zip values) key
  refine ⟨(keys.zip values).lookup key, fun value hvalue => ?_, hzip _, ?_⟩
  · exact h.item (List.of_mem_zip (Keyed.mem_of_get? hvalue)).2
  · rw [List.map_map]
    exact hzip _

/-- A value is a record just where it is one with sorted keys. -/
theorem record?_keySorted (keys : List String) (mayStopEarly : Bool) {value : Value}
    (h : value.Exact) :
    Option.Rel SortedFields (value.datum.record? keys mayStopEarly)
      (value.keySorted.datum.record? keys mayStopEarly) := by
  cases value with
  | array values =>
    rw [Value.keySorted_array, Value.datum_array, Value.datum_array, record?, record?,
      List.length_map, List.length_map, List.length_map]
    split
    · exact .some (sortedFields_zip keys h)
    · exact .none
  | object o =>
    have hsorted := h.keySorted
    rw [Value.keySorted_object] at hsorted ⊢
    rw [h.record?_datum, hsorted.record?_datum]
    exact .some (sortedFields_entryData h)
  | _ => exact .none

/-- A record is read from its fields. -/
theorem readsSorted_record {keys : List String} {mayStopEarly : Bool}
    {fields? : List (String × Datum) → Option α}
    (h : ∀ fields sorted, SortedFields fields sorted →
      fields? sorted = (fields? fields).map sort) :
    ReadsSorted (fun datum => (datum.record? keys mayStopEarly).bind fields?) sort := by
  intro value hvalue
  have hrecord := record?_keySorted keys mayStopEarly hvalue
  simp only
  generalize value.datum.record? keys mayStopEarly = fields at hrecord ⊢
  generalize value.keySorted.datum.record? keys mayStopEarly = sorted at hrecord ⊢
  cases hrecord with
  | none => rfl
  | some hfields => exact h _ _ hfields

namespace SortedFields

variable {fields sorted : List (String × Datum)} (h : SortedFields fields sorted)
  (hread : ReadsSorted read sort) (key : String)

include h hread

theorem required : Datum.required read (sorted.lookup key) =
    (Datum.required read (fields.lookup key)).map sort := by
  obtain ⟨found, hexact, hfield, hsorted⟩ := h key
  rw [hfield, hsorted]
  cases found with
  | none => rfl
  | some value => exact hread value (hexact value rfl)

theorem defaulting {default : α} (hdefault : sort default = default) :
    Datum.defaulting default read (sorted.lookup key) =
      (Datum.defaulting default read (fields.lookup key)).map sort := by
  obtain ⟨found, hexact, hfield, hsorted⟩ := h key
  rw [hfield, hsorted]
  cases found with
  | none => exact congrArg some hdefault.symm
  | some value => exact hread value (hexact value rfl)

theorem optional : Datum.optional read (sorted.lookup key) =
    (Datum.optional read (fields.lookup key)).map (Option.map sort) := by
  obtain ⟨found, hexact, hfield, hsorted⟩ := h key
  rw [hfield, hsorted]
  cases found with
  | none => rfl
  | some value =>
    have hvalue := hread value (hexact value rfl)
    rw [Option.map_some, Option.map_some]
    by_cases hnull : value = .null
    · rw [hnull]
      rfl
    · have hdatum : value.datum ≠ .null ∧ value.keySorted.datum ≠ .null := by
        cases value <;> simp [Value.datum, Value.keySorted] at hnull ⊢
      rw [optional_some read hdatum.1, optional_some read hdatum.2, hvalue, Option.map_map,
        Option.map_map]
      rfl

end SortedFields

end Datum

def rawKeySorted (option : String × Value) : String × Value := (option.1, option.2.keySorted)

theorem SortSpec.readsSorted_read? : Datum.ReadsSorted SortSpec.read? id := by
  refine Datum.readsSorted_record fun fields sorted h => ?_
  simp only [h.required Datum.readsSorted_text?, h.optional Datum.readsSorted_text?,
    Option.map_id_fun, id]

theorem readsSorted_readRawOption? : Datum.ReadsSorted readRawOption? rawKeySorted := by
  refine Datum.readsSorted_record fun fields sorted h => ?_
  simp only [h.required Datum.readsSorted_text?, h.required Datum.readsSorted_value?,
    Option.map_id_fun, id, Option.bind_eq_bind, Option.bind_map, Option.map_bind,
    Function.comp_def, Option.pure_def, Option.map_some, rawKeySorted]

theorem carriedKeySorted_eq_map (nested : Option Spec) :
    carriedKeySorted nested = nested.map Spec.keySorted := by
  cases nested <;> rfl

theorem clausesKeySorted_eq_map (clauses : List ClauseSpec) :
    clausesKeySorted clauses = clauses.map ClauseSpec.keySorted := by
  induction clauses with
  | nil => rfl
  | cons clause rest ih => simp [clausesKeySorted, ih]

/-- A clause is read with sorted keys where the spec that it carries is. -/
theorem ClauseSpec.readsSorted_readWith? {spec? : Datum → Option Spec}
    (hspec : Datum.ReadsSorted spec? Spec.keySorted) (inList : Bool) :
    Datum.ReadsSorted (ClauseSpec.readWith? spec? inList) ClauseSpec.keySorted := by
  refine Datum.readsSorted_record fun fields sorted h => ?_
  have hfamily : Datum.ReadsSorted (Family.read? inList) id := Datum.readsSorted_choice? _ _ _
  have hmode : Datum.ReadsSorted (Mode.read? inList) id := Datum.readsSorted_choice? _ _ _
  have hempty : Object.keySorted [] = [] := rfl
  simp only [h.defaulting hfamily _ rfl, h.defaulting hmode _ rfl,
    h.required Datum.readsSorted_text?, h.optional Datum.readsSorted_text?,
    h.optional Datum.readsSorted_value?, h.optional Datum.readsSorted_object?,
    h.defaulting Datum.readsSorted_object? _ hempty, h.optional hspec,
    Option.map_id_fun, id, Option.bind_eq_bind, Option.bind_map, Option.map_bind,
    Function.comp_def, Option.pure_def, Option.map_some, ClauseSpec.keySorted,
    carriedKeySorted_eq_map]

namespace Spec

theorem readsSorted_readWith? {clauses? : Datum → Option (List ClauseSpec)}
    (hclauses : Datum.ReadsSorted clauses? (List.map ClauseSpec.keySorted)) :
    Datum.ReadsSorted (readWith? clauses?) Spec.keySorted := by
  refine Datum.readsSorted_record fun fields sorted h => ?_
  have hsort := Datum.readsSorted_oneOrMany? SortSpec.readsSorted_read? SortSpec.readsSorted_read?
  have hraw := Datum.readsSorted_list? readsSorted_readRawOption?
  simp only [h.optional Datum.readsSorted_object?, h.optional Datum.readsSorted_unsigned?,
    h.optional Datum.readsSorted_signed?, h.defaulting hsort _ List.map_nil,
    h.defaulting hraw _ List.map_nil, h.defaulting hclauses _ List.map_nil, List.map_id_fun,
    Option.map_id_fun, id, Option.bind_eq_bind, Option.bind_map, Option.map_bind,
    Function.comp_def, Option.pure_def, Option.map_some, Spec.keySorted, clausesKeySorted_eq_map]
  rfl

/-- At every depth a spec is read from a value with sorted keys as from the value, with sorted
keys. -/
theorem readsSorted_readTo? (bound : Nat) : Datum.ReadsSorted (readTo? bound) Spec.keySorted := by
  induction bound with
  | zero => exact fun _ _ => rfl
  | succ bound ih =>
    exact readsSorted_readWith? (Datum.readsSorted_oneOrMany?
      (ClauseSpec.readsSorted_readWith? ih false) (ClauseSpec.readsSorted_readWith? ih true))

theorem readsSorted_ofDatum? : Datum.ReadsSorted ofDatum? Spec.keySorted := by
  intro value h
  have hdepth : value.keySorted.datum.depth = value.datum.depth := value.depth_keySorted
  rw [ofDatum?, ofDatum?, hdepth]
  exact readsSorted_readTo? _ value h

end Spec

end SearchQuery
