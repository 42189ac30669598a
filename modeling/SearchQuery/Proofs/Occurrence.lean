import SearchQuery.Proofs.Writing

/-!
Where a value occurs inside another one, and objects whose keys are distinct at every
depth, which is what all objects from outside are. A value that stands in a slot of an
object occurs in it, and stays when the object is written over another one.
-/
namespace SearchQuery

namespace Value

inductive Occurs (value : Value) : Value → Prop
  | here : Occurs value value
  | item {values : List Value} {inner : Value} (hmem : inner ∈ values)
      (hinner : Occurs value inner) : Occurs value (.array values)
  | entry {entries : Object} {key : String} {inner : Value} (hmem : (key, inner) ∈ entries)
      (hinner : Occurs value inner) : Occurs value (.object entries)

def OccursIn (value : Value) (o : Object) : Prop :=
  ∃ entry ∈ o, value.Occurs entry.2

theorem Occurs.trans {a b c : Value} (hab : a.Occurs b) (hbc : b.Occurs c) : a.Occurs c := by
  induction hbc with
  | here => exact hab
  | item hmem _ ih => exact .item hmem ih
  | entry hmem _ ih => exact .entry hmem ih

theorem OccursIn.occurs {value : Value} {o : Object} (h : value.OccursIn o) :
    value.Occurs (.object o) := by
  obtain ⟨_, hmem, hinner⟩ := h
  exact .entry hmem hinner

end Value

namespace Keyed

variable {α : Type}

theorem mem_of_get? {entries : Keyed α} {key : String} {value : α}
    (h : entries.get? key = some value) : (key, value) ∈ entries := by
  induction entries with
  | nil => simp at h
  | cons entry rest ih =>
    rw [get?_cons] at h
    split at h
    · next hkey =>
      obtain rfl := Option.some.inj h
      rw [← hkey]
      exact List.mem_cons_self
    · exact List.mem_cons_of_mem _ (ih h)

theorem get?_of_mem {entries : Keyed α} (hkeys : entries.keys.Nodup) {key : String}
    {value : α} (h : (key, value) ∈ entries) : entries.get? key = some value := by
  induction entries with
  | nil => simp at h
  | cons entry rest ih =>
    obtain ⟨hnew, hrest⟩ := List.nodup_cons.1 hkeys
    rw [get?_cons]
    rcases List.mem_cons.1 h with rfl | hmem
    · simp
    · have hne : ¬ entry.1 = key := fun heq =>
        hnew (List.mem_map.2 ⟨(key, value), hmem, heq.symm⟩)
      rw [if_neg hne, ih hrest hmem]

/-- Of entries with distinct keys each one is the last for its key. -/
theorem last?_of_mem {entries : Keyed α} (hkeys : entries.keys.Nodup) {key : String}
    {value : α} (h : (key, value) ∈ entries) : last? entries key = some value := by
  refine get?_of_mem ?_ (List.mem_reverse.2 h)
  rw [keys, List.map_reverse]
  exact (List.reverse_perm _).nodup_iff.2 hkeys

end Keyed

namespace Object

def Distinct (o : Object) : Prop :=
  ∀ inner : Object, (Value.object inner).Occurs (.object o) → inner.keys.Nodup

theorem Distinct.keys {o : Object} (h : o.Distinct) : o.keys.Nodup := h o .here

theorem Distinct.inner {o inner : Object} (h : o.Distinct) {key : String}
    (hinner : o.get? key = some (.object inner)) : Distinct inner :=
  fun deeper hdeeper => h deeper (hdeeper.trans (.entry (Keyed.mem_of_get? hinner) .here))

theorem distinct_nil : Distinct [] := by
  intro inner h
  cases h with
  | here => exact List.nodup_nil
  | entry hmem => simp at hmem

theorem Distinct.single {o : Object} (h : o.Distinct) (key : String) :
    Distinct (Keyed.single key (.object o)) := by
  intro inner hinner
  cases hinner with
  | here => simp [Keyed.single, Keyed.keys]
  | entry hmem hinner =>
    obtain ⟨rfl, rfl⟩ := Prod.mk.inj (List.mem_singleton.1 hmem)
    exact h inner hinner

theorem Distinct.objectAt? {o inner : Object} (h : o.Distinct) {key : String}
    (hinner : o.objectAt? key = some inner) : Distinct inner := by
  unfold Object.objectAt? at hinner
  split at hinner
  · exact Option.some.inj hinner ▸ distinct_nil
  · next found hfound => exact h.inner (Option.some.inj hinner ▸ hfound)
  · simp at hinner

end Object

namespace Value

theorem OccursIn.of_get? {value inner : Value} {o : Object} {key : String}
    (h : o.get? key = some inner) (hinner : value.Occurs inner) : value.OccursIn o :=
  ⟨(key, inner), Keyed.mem_of_get? h, hinner⟩

theorem OccursIn.insert {value inner : Value} (h : value.Occurs inner) (o : Object)
    (key : String) : value.OccursIn (Keyed.insert o key inner) :=
  .of_get? (Keyed.get?_insert_self o key inner) h

/-- A clause in a slot of an object occurs in the object. -/
theorem OccursIn.of_itemsAt {value : Value} {o : Object} {key : String}
    (h : value ∈ o.itemsAt key) : value.OccursIn o := by
  unfold Object.itemsAt at h
  cases hget : o.get? key with
  | none => simp [hget] at h
  | some slot =>
    refine .of_get? hget ?_
    rw [hget] at h
    cases slot with
    | array values => exact .item h .here
    | _ => exact List.mem_singleton.1 h ▸ .here

/-- An object with distinct keys that is written over another one is kept in full. -/
theorem OccursIn.extend {value : Value} {more : Object} (hkeys : more.keys.Nodup)
    (h : value.OccursIn more) (o : Object) : value.OccursIn (o.extend more) := by
  obtain ⟨⟨key, inner⟩, hmem, hinner⟩ := h
  have hget : (o.extend more).get? key = some inner := by
    rw [Keyed.get?_extend, Keyed.last?_of_mem hkeys hmem, Option.some_or]
  exact .of_get? hget hinner

/-- Whether a value occurs in a clause of an object, under any key but the threshold. -/
def InSlot (value : Value) (o : Object) : Prop :=
  ∃ key, key ≠ "minimum_should_match" ∧ ∃ item ∈ o.itemsAt key, value.Occurs item

theorem InSlot.occursIn {value : Value} {o : Object} (h : value.InSlot o) :
    value.OccursIn o := by
  obtain ⟨key, -, item, hitem, hvalue⟩ := h
  obtain ⟨entry, hentry, hinner⟩ := OccursIn.of_itemsAt hitem
  exact ⟨entry, hentry, hvalue.trans hinner⟩

theorem InSlot.addGroups {value : Value} {o : Object} (h : value.InSlot o)
    (simpleFilter : Bool) (threshold : Option Int64) (groups : ByMode Object) :
    value.InSlot (addGroups simpleFilter threshold groups o) := by
  obtain ⟨key, hkey, item, hitem, hvalue⟩ := h
  exact ⟨key, hkey, item, itemsAt_subset_addGroups hkey _ _ _ _ hitem, hvalue⟩

/-- The clauses of a group stand in the object they are written into. -/
theorem InSlot.of_group {object : Object} {groups : ByMode Object} {mode : Mode}
    (h : object ∈ groups.get mode) (simpleFilter : Bool) (threshold : Option Int64)
    (target : Object) :
    (Value.object object).InSlot (SearchQuery.addGroups simpleFilter threshold groups target) := by
  refine ⟨mode.boolKey simpleFilter, mode.boolKey_ne_threshold _, .object object, ?_, .here⟩
  rw [itemsAt_addGroups]
  exact List.mem_append_right _ (List.mem_map_of_mem h)

end Value

end SearchQuery
