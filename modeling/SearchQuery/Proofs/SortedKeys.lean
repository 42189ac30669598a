import SearchQuery.Proofs.ValueData
import SearchQuery.Spec.KeySorted

/-!
Objects with sorted keys. Sorting moves the entries of an object and changes none of them, so
a value with sorted keys is nested as deep as before, has the same numbers in it, and is equal
to the value up to the order of keys.
-/
namespace SearchQuery

namespace Keyed

variable {α β : Type}

theorem orderedInsert_perm (entry : String × α) (entries : Keyed α) :
    (orderedInsert entry entries).Perm (entry :: entries) := by
  induction entries with
  | nil => exact .refl _
  | cons head rest ih =>
    rw [orderedInsert]
    split
    · exact .refl _
    · exact (ih.cons head).trans (.swap entry head rest)

theorem sorted_perm (entries : Keyed α) : (sorted entries).Perm entries := by
  induction entries with
  | nil => exact .refl _
  | cons entry rest ih => exact (orderedInsert_perm entry _).trans (ih.cons entry)

/-- Where an entry goes depends on its key alone. -/
theorem sorted_map (f : α → β) (entries : Keyed α) :
    sorted (entries.map fun entry => (entry.1, f entry.2)) =
      (sorted entries).map fun entry => (entry.1, f entry.2) := by
  have hinsert : ∀ (entry : String × α) (others : Keyed α),
      orderedInsert (entry.1, f entry.2) (others.map fun entry => (entry.1, f entry.2)) =
        (orderedInsert entry others).map fun entry => (entry.1, f entry.2) := by
    intro entry others
    induction others with
    | nil => rfl
    | cons head rest ih =>
      simp only [List.map_cons, orderedInsert, ih]
      split <;> rfl
  induction entries with
  | nil => rfl
  | cons entry rest ih =>
    simp only [sorted, List.map_cons, List.foldr_cons] at ih ⊢
    rw [ih, hinsert]

/-- The order of entries does not matter to a key that is not repeated. -/
theorem get?_of_perm_of_count {entries others : Keyed α} (h : entries.Perm others) {key : String}
    (hcount : others.keys.count key ≤ 1) : entries.get? key = others.get? key := by
  induction h with
  | nil => rfl
  | cons entry _ ih =>
    rw [get?_cons, get?_cons, ih]
    rw [keys, List.map_cons, List.count_cons] at hcount
    exact Nat.le_trans (Nat.le_add_right _ _) hcount
  | swap first second rest =>
    simp only [get?_cons]
    split
    · next hsecond =>
      split
      · next hfirst =>
        simp [keys, hfirst, hsecond] at hcount
      · rfl
    · rfl
  | trans _ hperm ih ih' =>
    have hmiddle := (hperm.map (·.1)).count_eq key
    rw [ih (hmiddle ▸ hcount), ih' hcount]

theorem get?_of_perm {entries others : Keyed α} (h : entries.Perm others)
    (hkeys : others.keys.Nodup) (key : String) : entries.get? key = others.get? key :=
  get?_of_perm_of_count h (List.nodup_iff_count.1 hkeys key)

end Keyed

theorem Object.keySorted_eq (o : Object) :
    o.keySorted = Keyed.sorted (o.map fun entry => (entry.1, entry.2.keySorted)) := by
  have hentries : Value.keySortedEntries o = o.map fun entry => (entry.1, entry.2.keySorted) := by
    induction o with
    | nil => rfl
    | cons entry rest ih => simp [Value.keySortedEntries, ih]
  rw [keySorted, hentries]

/-- The entries of an object with sorted keys are those of the object, with sorted keys in
their values. -/
theorem Object.keySorted_perm (o : Object) :
    o.keySorted.Perm (o.map fun entry => (entry.1, entry.2.keySorted)) := by
  rw [keySorted_eq]
  exact Keyed.sorted_perm _

theorem Object.nodup_keys_keySorted {o : Object} (h : o.keys.Nodup) :
    (Keyed.keys o.keySorted).Nodup := by
  have hperm := (o.keySorted_perm.map (·.1)).nodup_iff
  rw [← Keyed.keys, ← Keyed.keys, Keyed.keys_map] at hperm
  exact hperm.2 h

theorem Object.get?_keySorted {o : Object} (h : o.keys.Nodup) (key : String) :
    Keyed.get? o.keySorted key = (o.get? key).map Value.keySorted := by
  rw [Keyed.get?_of_perm o.keySorted_perm (by rwa [Keyed.keys_map]), Keyed.get?_map]

theorem Object.forall_mem_keySorted_iff {P : Value → Prop} {o : Object} :
    (∀ entry ∈ o.keySorted, P entry.2) ↔ ∀ entry ∈ o, P entry.2.keySorted := by
  simp only [o.keySorted_perm.mem_iff, List.forall_mem_map]

namespace Value

theorem keySorted_array (values : List Value) :
    (Value.array values).keySorted = .array (values.map keySorted) := by
  have hitems : keySortedItems values = values.map keySorted := by
    induction values with
    | nil => rfl
    | cons value rest ih => simp [keySortedItems, ih]
  rw [keySorted, hitems]

theorem keySorted_object (o : Object) :
    (Value.object o).keySorted = .object o.keySorted := rfl

theorem Whole.keySorted {value : Value} (h : value.Whole) : value.keySorted.Whole := by
  induction value using parts_induction with
  | array values ih =>
    rw [keySorted_array, whole_array_iff, List.forall_mem_map]
    exact fun value hvalue => ih value hvalue (whole_array_iff.1 h value hvalue)
  | object o ih =>
    rw [keySorted_object, whole_object_iff, Object.forall_mem_keySorted_iff]
    exact fun entry hentry => ih entry hentry (whole_object_iff.1 h entry hentry)
  | _ => exact h

/-- A value whose objects have distinct keys is equal to itself with sorted keys, up to the
order of keys. -/
theorem Distinct.alike_keySorted {value : Value} (h : value.Distinct) :
    value.Alike value.keySorted := by
  induction value using parts_induction with
  | array values ih =>
    rw [keySorted_array, alike_array_iff, List.forall₂_map_right_iff, List.forall₂_same]
    exact fun value hvalue => ih value hvalue (distinct_array_iff.1 h value hvalue)
  | object o ih =>
    obtain ⟨hkeys, hvalues⟩ := distinct_object_iff.1 h
    rw [keySorted_object]
    refine Object.alike_iff.2 ⟨hkeys, Object.nodup_keys_keySorted hkeys, fun key => ?_⟩
    rw [Object.get?_keySorted hkeys]
    cases hget : o.get? key with
    | none => exact .none
    | some value =>
      have hmem : (key, value) ∈ o := Keyed.mem_of_get? hget
      exact .some (ih _ hmem (hvalues _ hmem))
  | _ => exact h.alike

theorem Distinct.keySorted {value : Value} (h : value.Distinct) : value.keySorted.Distinct :=
  h.alike_keySorted.right

/-- Sorting keys does not change how deep a value is nested. -/
theorem depth_keySorted (value : Value) : value.keySorted.depth = value.depth := by
  have hle : ∀ n, value.keySorted.depth ≤ n ↔ value.depth ≤ n := by
    induction value using parts_induction with
    | array values ih =>
      intro n
      rw [keySorted_array]
      cases n with
      | zero => simp [Nat.ne_of_gt (depth_array_pos _)]
      | succ n =>
        rw [depth_array_le_iff, depth_array_le_iff, List.forall_mem_map]
        exact forall₂_congr fun value hvalue => ih value hvalue n
    | object o ih =>
      intro n
      rw [keySorted_object]
      cases n with
      | zero => simp [Nat.ne_of_gt (depth_object_pos _)]
      | succ n =>
        rw [depth_object_le_iff, depth_object_le_iff]
        refine (Object.forall_mem_keySorted_iff (P := fun value => value.depth ≤ n)).trans ?_
        exact forall₂_congr fun entry hentry => ih entry hentry n
    | _ => exact fun _ => .rfl
  exact Nat.le_antisymm ((hle _).2 (Nat.le_refl _)) ((hle _).1 (Nat.le_refl _))

end Value

end SearchQuery
