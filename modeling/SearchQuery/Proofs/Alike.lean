import Mathlib.Data.List.Forall2
import Mathlib.Data.List.Perm.Subperm
import SearchQuery.Proofs.Occurrence
import SearchQuery.Value.Equivalence

/-!
Values and objects that are the same up to the order of keys. Where keys are distinct,
two objects are the same exactly if they have the same values under the same keys, so
everything that is read off an object or written into it by key keeps them the same.
-/
namespace SearchQuery

section Rel

variable {α β : Type} {r : α → β → Prop}

theorem rel_some_left {a : α} {y : Option β} (h : Option.Rel r (some a) y) :
    ∃ b, y = some b ∧ r a b := by
  cases h with
  | some h => exact ⟨_, rfl, h⟩

theorem rel_some_right {x : Option α} {b : β} (h : Option.Rel r x (some b)) :
    ∃ a, x = some a ∧ r a b := by
  cases h with
  | some h => exact ⟨_, rfl, h⟩

theorem isSome_eq_of_rel {x : Option α} {y : Option β} (h : Option.Rel r x y) :
    x.isSome = y.isSome := by
  cases h <;> rfl

end Rel

namespace Value

/-- Whether no object in a value has a key twice. -/
def Distinct (value : Value) : Prop :=
  ∀ inner : Object, (Value.object inner).Occurs value → inner.keys.Nodup

/-- Values with distinct keys that are the same up to the order of keys. -/
structure Alike (v w : Value) : Prop where
  left : v.Distinct
  right : w.Distinct
  same : v.same w = true

@[simp] theorem distinct_array_iff {values : List Value} :
    (Value.array values).Distinct ↔ ∀ value ∈ values, value.Distinct := by
  constructor
  · intro h value hvalue inner hinner
    exact h inner (.item hvalue hinner)
  · intro h inner hinner
    cases hinner with
    | item hmem hinner => exact h _ hmem inner hinner

@[simp] theorem distinct_object_iff {o : Object} :
    (Value.object o).Distinct ↔ o.keys.Nodup ∧ ∀ entry ∈ o, entry.2.Distinct := by
  constructor
  · intro h
    refine ⟨h o .here, fun entry hentry inner hinner => ?_⟩
    exact h inner (.entry hentry hinner)
  · rintro ⟨hkeys, hentries⟩ inner hinner
    cases hinner with
    | here => exact hkeys
    | entry hmem hinner => exact hentries _ hmem inner hinner

theorem distinct_of_scalar {value : Value} (harray : ∀ values, value ≠ .array values)
    (hobject : ∀ o, value ≠ .object o) : value.Distinct := by
  intro inner hinner
  cases hinner with
  | here => exact absurd rfl (hobject inner)
  | item => exact absurd rfl (harray _)
  | entry => exact absurd rfl (hobject _)

@[simp] theorem distinct_null : Value.null.Distinct :=
  distinct_of_scalar (by simp) (by simp)

@[simp] theorem distinct_bool (b : Bool) : (Value.bool b).Distinct :=
  distinct_of_scalar (by simp) (by simp)

@[simp] theorem distinct_int (n : Int) : (Value.int n).Distinct :=
  distinct_of_scalar (by simp) (by simp)

@[simp] theorem distinct_string (s : String) : (Value.string s).Distinct :=
  distinct_of_scalar (by simp) (by simp)

theorem sameItems_iff {xs ys : List Value} :
    sameItems xs ys = true ↔ List.Forall₂ (fun v w => v.same w = true) xs ys := by
  induction xs generalizing ys with
  | nil => cases ys <;> simp [sameItems]
  | cons x rest ih => cases ys <;> simp [sameItems, ih]

theorem sameEntries_iff {entries : List (String × Value)} {other : Object} :
    sameEntries entries other = true ↔
      ∀ entry ∈ entries, ∃ found, other.get? entry.1 = some found ∧ entry.2.same found = true := by
  induction entries with
  | nil => simp [sameEntries]
  | cons entry rest ih =>
    obtain ⟨key, value⟩ := entry
    rw [sameEntries, Bool.and_eq_true, ih, List.forall_mem_cons]
    cases other.get? key <;> simp

theorem alike_array_iff {xs ys : List Value} :
    (Value.array xs).Alike (.array ys) ↔ List.Forall₂ Alike xs ys := by
  constructor
  · rintro ⟨hleft, hright, hsame⟩
    rw [distinct_array_iff] at hleft hright
    rw [same, sameItems_iff] at hsame
    induction hsame with
    | nil => exact .nil
    | cons hhead _ ih =>
      rw [List.forall_mem_cons] at hleft hright
      exact .cons ⟨hleft.1, hright.1, hhead⟩ (ih hleft.2 hright.2)
  · intro h
    refine ⟨distinct_array_iff.2 ?_, distinct_array_iff.2 ?_, ?_⟩
    · induction h with
      | nil => simp
      | cons hhead _ ih => exact List.forall_mem_cons.2 ⟨hhead.left, ih⟩
    · induction h with
      | nil => simp
      | cons hhead _ ih => exact List.forall_mem_cons.2 ⟨hhead.right, ih⟩
    · rw [same, sameItems_iff]
      exact h.imp fun _ _ hpair => hpair.same

end Value

namespace Keyed

variable {α : Type}

/-- Where keys are distinct, the last value of a key is its only one. -/
theorem last?_of_nodup {entries : Keyed α} (h : entries.keys.Nodup) (key : String) :
    last? entries key = entries.get? key := by
  cases hget : entries.get? key with
  | none => exact last?_eq_none (get?_eq_none_iff.1 hget)
  | some value => exact last?_of_mem h (mem_of_get? hget)

theorem mem_keys_iff {entries : Keyed α} {key : String} :
    key ∈ entries.keys ↔ ∃ value, entries.get? key = some value := by
  rw [← contains_iff_mem_keys, contains, Option.isSome_iff_exists]

/-- Entries with distinct keys, all of them among as many other ones, have all their keys. -/
theorem keys_perm_of_subset {entries others : Keyed α} (hkeys : entries.keys.Nodup)
    (hsubset : entries.keys ⊆ others.keys) (hlength : others.length ≤ entries.length) :
    entries.keys.Perm others.keys := by
  refine (List.subperm_of_subset hkeys hsubset).perm_of_length_le ?_
  rw [keys, keys, List.length_map, List.length_map]
  exact hlength

end Keyed

namespace Object

def Alike (d e : Object) : Prop := (Value.object d).Alike (.object e)

theorem Alike.rel_get? {d e : Object} (h : d.Alike e) (key : String) :
    Option.Rel Value.Alike (d.get? key) (e.get? key) := by
  obtain ⟨hleft, hright, hsame⟩ := h
  obtain ⟨hd, hvalues⟩ := Value.distinct_object_iff.1 hleft
  obtain ⟨he, hothers⟩ := Value.distinct_object_iff.1 hright
  rw [Value.same, Bool.and_eq_true, beq_iff_eq, Value.sameEntries_iff] at hsame
  obtain ⟨hlength, hentries⟩ := hsame
  have hsubset : d.keys ⊆ e.keys := by
    intro other hother
    obtain ⟨value, hvalue⟩ := Keyed.mem_keys_iff.1 hother
    obtain ⟨found, hfound, -⟩ := hentries _ (Keyed.mem_of_get? hvalue)
    exact Keyed.mem_keys_iff.2 ⟨found, hfound⟩
  -- As many entries, and every key of the first object: no key of the second is left over.
  have hperm := Keyed.keys_perm_of_subset hd hsubset (Nat.le_of_eq hlength.symm)
  cases hget : d.get? key with
  | none =>
    rw [Keyed.get?_eq_none_iff, hperm.mem_iff, ← Keyed.get?_eq_none_iff] at hget
    rw [hget]
    exact .none
  | some value =>
    have hmem := Keyed.mem_of_get? hget
    obtain ⟨found, hfound, hpair⟩ := hentries _ hmem
    rw [hfound]
    exact .some ⟨hvalues _ hmem, hothers _ (Keyed.mem_of_get? hfound), hpair⟩

/-- Objects with distinct keys and related values under the same keys have as many entries. -/
theorem length_eq_of_rel {d e : Object} (hd : d.keys.Nodup) (he : e.keys.Nodup)
    (hget : ∀ key, Option.Rel Value.Alike (d.get? key) (e.get? key)) : d.length = e.length := by
  have hkeys : ∀ key, key ∈ d.keys ↔ key ∈ e.keys := by
    intro key
    rw [← Keyed.contains_iff_mem_keys, ← Keyed.contains_iff_mem_keys, Keyed.contains,
      Keyed.contains, isSome_eq_of_rel (hget key)]
  have hperm : d.keys.Perm e.keys := (List.perm_ext_iff_of_nodup hd he).2 hkeys
  simpa [Keyed.keys] using hperm.length_eq

theorem alike_of_rel {d e : Object} (hd : d.keys.Nodup) (he : e.keys.Nodup)
    (hget : ∀ key, Option.Rel Value.Alike (d.get? key) (e.get? key)) : d.Alike e := by
  have hleft : ∀ entry ∈ d, ∃ found, e.get? entry.1 = some found ∧ entry.2.Alike found := by
    intro entry hentry
    have hpair := hget entry.1
    rw [Keyed.get?_of_mem hd hentry] at hpair
    exact rel_some_left hpair
  have hright : ∀ entry ∈ e, ∃ found, d.get? entry.1 = some found ∧ found.Alike entry.2 := by
    intro entry hentry
    have hpair := hget entry.1
    rw [Keyed.get?_of_mem he hentry] at hpair
    exact rel_some_right hpair
  refine ⟨Value.distinct_object_iff.2 ⟨hd, ?_⟩, Value.distinct_object_iff.2 ⟨he, ?_⟩, ?_⟩
  · intro entry hentry
    obtain ⟨found, -, hpair⟩ := hleft entry hentry
    exact hpair.left
  · intro entry hentry
    obtain ⟨found, -, hpair⟩ := hright entry hentry
    exact hpair.right
  · rw [Value.same, Bool.and_eq_true, beq_iff_eq, Value.sameEntries_iff]
    refine ⟨length_eq_of_rel hd he hget, fun entry hentry => ?_⟩
    obtain ⟨found, hfound, hpair⟩ := hleft entry hentry
    exact ⟨found, hfound, hpair.same⟩

/-- Objects are alike exactly if they have distinct keys and, key by key, values that are
alike. -/
theorem alike_iff {d e : Object} :
    d.Alike e ↔ d.keys.Nodup ∧ e.keys.Nodup ∧
      ∀ key, Option.Rel Value.Alike (d.get? key) (e.get? key) := by
  constructor
  · intro h
    exact ⟨(Value.distinct_object_iff.1 h.left).1, (Value.distinct_object_iff.1 h.right).1,
      h.rel_get?⟩
  · rintro ⟨hd, he, hget⟩
    exact alike_of_rel hd he hget

theorem alike_nil : Object.Alike [] [] :=
  alike_iff.2 ⟨List.nodup_nil, List.nodup_nil, fun _ => .none⟩

theorem distinct_iff {o : Object} : o.Distinct ↔ (Value.object o).Distinct := Iff.rfl

theorem hasBoolKeys_iff {o : Object} :
    hasBoolKeys o = true ↔ ∃ key ∈ boolKeys, o.contains key = true := by
  simp only [hasBoolKeys, List.any_eq_true, List.contains_iff_mem, Keyed.contains_iff_mem_keys,
    and_comm]

end Object

namespace Value

/-- A value with distinct keys is alike itself. -/
theorem Distinct.alike {value : Value} (h : value.Distinct) : value.Alike value := by
  match value with
  | .null | .bool _ | .int _ | .string _ => exact ⟨h, h, by simp [Value.same]⟩
  | .float x => exact ⟨h, h, by simp [Value.same, Binary64.sameNumber]⟩
  | .array values =>
    refine alike_array_iff.2 (List.forall₂_same.2 fun item hitem => ?_)
    exact (distinct_array_iff.1 h item hitem).alike
  | .object o =>
    obtain ⟨hkeys, hentries⟩ := distinct_object_iff.1 h
    refine Object.alike_iff.2 ⟨hkeys, hkeys, fun key => ?_⟩
    cases hvalue : Keyed.get? o key with
    | none => exact .none
    | some found =>
      have hmem : (key, found) ∈ o := Keyed.mem_of_get? hvalue
      exact .some (hentries _ hmem).alike
termination_by sizeOf value
decreasing_by
  · have := List.sizeOf_lt_of_mem hitem
    simp only [Value.array.sizeOf_spec]
    omega
  · have := List.sizeOf_lt_of_mem hmem
    simp only [Value.object.sizeOf_spec, Prod.mk.sizeOf_spec] at this ⊢
    omega

inductive SameKind : Value → Value → Prop
  | null : SameKind .null .null
  | bool (b c : Bool) : SameKind (.bool b) (.bool c)
  | int (m n : Int) : SameKind (.int m) (.int n)
  | float (x y : Binary64) : SameKind (.float x) (.float y)
  | string (s t : String) : SameKind (.string s) (.string t)
  | array {xs ys : List Value} (hitems : List.Forall₂ Alike xs ys) :
      SameKind (.array xs) (.array ys)
  | object {d e : Object} (hobjects : d.Alike e) : SameKind (.object d) (.object e)

namespace Alike

variable {v w : Value} (h : v.Alike w)

include h

theorem sameKind : SameKind v w := by
  have hsame := h.same
  cases v <;> cases w <;> simp only [Value.same, Bool.false_eq_true] at hsame
  case null.null => exact .null
  case bool.bool b c => exact .bool b c
  case int.int m n => exact .int m n
  case float.float x y => exact .float x y
  case string.string s t => exact .string s t
  case array.array xs ys => exact .array (alike_array_iff.1 h)
  case object.object d e => exact .object h

theorem items : List.Forall₂ Alike v.items w.items := by
  cases h.sameKind with
  | array hitems => exact hitems
  | _ => exact .cons h .nil

theorem isArray_eq : v.isArray = w.isArray := by
  cases h.sameKind <;> rfl

end Alike

end Value

namespace Object

namespace Alike

variable {d e : Object} (h : d.Alike e)

include h

theorem contains_eq (key : String) : d.contains key = e.contains key :=
  isSome_eq_of_rel (h.rel_get? key)

theorem insert {v w : Value} (key : String) (hvalue : v.Alike w) :
    Object.Alike (d.insert key v) (e.insert key w) := by
  obtain ⟨hd, he, hget⟩ := alike_iff.1 h
  refine alike_iff.2 ⟨Keyed.nodup_keys_insert hd key v, Keyed.nodup_keys_insert he key w, ?_⟩
  intro other
  rw [Keyed.get?_insert, Keyed.get?_insert]
  split
  · exact .some hvalue
  · exact hget other

/-- Entries with alike values under the same keys, written one after the other. -/
theorem extend_list {more others : List (String × Value)}
    (hmore : List.Forall₂ (fun x y => x.1 = y.1 ∧ x.2.Alike y.2) more others) :
    Object.Alike (d.extend more) (e.extend others) := by
  induction hmore generalizing d e with
  | nil => exact h
  | @cons x y _ _ hhead _ ih =>
    have hinsert := h.insert x.1 hhead.2
    rw [hhead.1] at hinsert
    rw [Keyed.extend, Keyed.extend, List.foldl_cons, List.foldl_cons, hhead.1]
    exact ih hinsert

/-- An object that is alike another one may be written in its stead. -/
theorem extend {more others : Object} (hmore : more.Alike others) :
    Object.Alike (d.extend more) (e.extend others) := by
  obtain ⟨hd, he, hget⟩ := alike_iff.1 h
  obtain ⟨hkeys, hothers, hvalues⟩ := alike_iff.1 hmore
  refine alike_iff.2 ⟨Keyed.nodup_keys_extend hd more, Keyed.nodup_keys_extend he others, ?_⟩
  intro key
  rw [Keyed.get?_extend, Keyed.get?_extend, Keyed.last?_of_nodup hkeys,
    Keyed.last?_of_nodup hothers]
  have hvalue := hvalues key
  cases hmore : more.get? key with
  | none =>
    cases hother : others.get? key with
    | none => exact hget key
    | some w => simp [hmore, hother] at hvalue
  | some v =>
    cases hother : others.get? key with
    | none => simp [hmore, hother] at hvalue
    | some w => simpa [hmore, hother] using hvalue

theorem objectAt? (key : String) :
    Option.Rel Object.Alike (d.objectAt? key) (e.objectAt? key) := by
  have hvalue := h.rel_get? key
  unfold Object.objectAt?
  generalize d.get? key = x at hvalue ⊢
  generalize e.get? key = y at hvalue ⊢
  cases hvalue with
  | none => exact .some alike_nil
  | some hpair =>
    cases hpair.sameKind with
    | object hobjects => exact .some hobjects
    | _ => exact .none

theorem hasBoolKeys_eq : hasBoolKeys d = hasBoolKeys e := by
  rw [Bool.eq_iff_iff, hasBoolKeys_iff, hasBoolKeys_iff]
  simp only [h.contains_eq]

end Alike

/-- An object with the values of a distinct one, key by key, is alike it. -/
theorem alike_of_get? {d e : Object} (hd : d.keys.Nodup) (he : e.Distinct)
    (h : ∀ key, d.get? key = e.get? key) : d.Alike e := by
  refine alike_iff.2 ⟨hd, he.keys, fun key => ?_⟩
  rw [h]
  cases hvalue : e.get? key with
  | none => exact .none
  | some value =>
    have hmem := Keyed.mem_of_get? hvalue
    exact .some ((Value.distinct_object_iff.1 he).2 _ hmem).alike

theorem alike_single {v w : Value} (h : v.Alike w) (key : String) :
    Object.Alike (Keyed.single key v) (Keyed.single key w) :=
  alike_nil.insert key h

end Object

end SearchQuery
