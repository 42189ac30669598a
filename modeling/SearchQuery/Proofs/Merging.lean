import SearchQuery.Draft.Render
import SearchQuery.Proofs.Entries

/-!
What the clauses of one family leave in the object that takes them. A slot of an object
is read as the list of clauses that it stands for, and a group of clauses is found behind
the clauses that were in its slot. A threshold is the only other thing that is written.
-/
namespace SearchQuery

namespace Object

def itemsAt (o : Object) (key : String) : List Value := (o.get? key).elim [] Value.items

theorem itemsAt_congr {o p : Object} {key : String} (h : o.get? key = p.get? key) :
    o.itemsAt key = p.itemsAt key := by
  rw [itemsAt, itemsAt, h]

theorem itemsAt_insert (o : Object) (key : String) (value : Value) :
    itemsAt (o.insert key value) key = value.items := by
  simp [itemsAt, Keyed.get?_insert_self]

end Object

def addGroup (key : String) (threshold : Option Int64) (objects : List Object)
    (target : Object) : Object :=
  if objects.isEmpty then target
  else raiseThreshold key threshold (mergeClauses key (Draft.collapse objects) target)

def addGroups (simpleFilter : Bool) (threshold : Option Int64) (groups : ByMode Object)
    (target : Object) : Object :=
  Mode.all.foldl (fun target mode =>
    addGroup (mode.boolKey simpleFilter) threshold (groups.get mode) target) target

theorem items_collapse (objects : List Object) :
    (Draft.collapse objects).items = objects.map Value.object := by
  match objects with
  | [] => rfl
  | [object] => rfl
  | _ :: _ :: _ => rfl

theorem get?_mergeClauses_of_ne {key other : String} (h : other ≠ key) (clauses : Value)
    (target : Object) : (mergeClauses key clauses target).get? other = target.get? other := by
  unfold mergeClauses
  split <;> exact Keyed.get?_insert_of_ne target _ h

def mergeSlot (present : Option Value) (objects : List Object) : Option Value :=
  if objects.isEmpty then present
  else match present with
    | none => some (Draft.collapse objects)
    | some value => some (.array (value.items ++ objects.map Value.object))

theorem items_mergeSlot (present : Option Value) (objects : List Object) :
    (mergeSlot present objects).elim [] Value.items =
      present.elim [] Value.items ++ objects.map Value.object := by
  unfold mergeSlot
  split
  · next h => simp [List.isEmpty_iff.1 h]
  · cases present with
    | none => exact items_collapse objects
    | some value => rfl

theorem get?_raiseThreshold_of_ne {key other : String} (h : other ≠ "minimum_should_match")
    (threshold : Option Int64) (target : Object) :
    (raiseThreshold key threshold target).get? other = target.get? other := by
  unfold raiseThreshold
  split
  · rfl
  · split
    · exact Keyed.get?_insert_of_ne target _ h
    · rfl

theorem get?_addGroup {key : String} (hkey : key ≠ "minimum_should_match")
    (threshold : Option Int64) (objects : List Object) (target : Object) :
    (addGroup key threshold objects target).get? key =
      mergeSlot (target.get? key) objects := by
  unfold addGroup mergeSlot
  split
  · rfl
  · rw [get?_raiseThreshold_of_ne hkey, mergeClauses]
    cases target.get? key with
    | none => exact Keyed.get?_insert_self ..
    | some present => simp only [Keyed.get?_insert_self, items_collapse]

/-- A group of clauses ends up behind the clauses that were in its slot. -/
theorem itemsAt_addGroup {key : String} (hkey : key ≠ "minimum_should_match")
    (threshold : Option Int64) (objects : List Object) (target : Object) :
    (addGroup key threshold objects target).itemsAt key =
      target.itemsAt key ++ objects.map Value.object := by
  rw [Object.itemsAt, get?_addGroup hkey, items_mergeSlot]
  rfl

theorem get?_addGroup_of_ne {key other : String} (hkey : other ≠ key)
    (hother : other ≠ "minimum_should_match") (threshold : Option Int64)
    (objects : List Object) (target : Object) :
    (addGroup key threshold objects target).get? other = target.get? other := by
  unfold addGroup
  split
  · rfl
  · rw [get?_raiseThreshold_of_ne hother, get?_mergeClauses_of_ne hkey]

theorem itemsAt_addGroup_of_ne {key other : String} (hkey : other ≠ key)
    (hother : other ≠ "minimum_should_match") (threshold : Option Int64)
    (objects : List Object) (target : Object) :
    (addGroup key threshold objects target).itemsAt other = target.itemsAt other :=
  Object.itemsAt_congr (get?_addGroup_of_ne hkey hother threshold objects target)

namespace Mode

theorem boolKey_ne_threshold (mode : Mode) (simpleFilter : Bool) :
    mode.boolKey simpleFilter ≠ "minimum_should_match" := by
  cases mode <;> cases simpleFilter <;> decide

theorem boolKey_injective {simpleFilter : Bool} {mode other : Mode}
    (h : mode.boolKey simpleFilter = other.boolKey simpleFilter) : mode = other := by
  revert h
  cases mode <;> cases other <;> cases simpleFilter <;> decide

end Mode

theorem addGroups_eq (simpleFilter : Bool) (threshold : Option Int64)
    (groups : ByMode Object) (target : Object) :
    addGroups simpleFilter threshold groups target =
      addGroup (Mode.not.boolKey simpleFilter) threshold groups.not
        (addGroup (Mode.or.boolKey simpleFilter) threshold groups.or
          (addGroup (Mode.and.boolKey simpleFilter) threshold groups.and target)) := rfl

/-- Each group of a family is merged into its slot, whatever the other groups are. -/
theorem get?_addGroups (simpleFilter : Bool) (threshold : Option Int64)
    (groups : ByMode Object) (target : Object) (mode : Mode) :
    (addGroups simpleFilter threshold groups target).get? (mode.boolKey simpleFilter) =
      mergeSlot (target.get? (mode.boolKey simpleFilter)) (groups.get mode) := by
  have hne : ∀ {m n : Mode}, m ≠ n → m.boolKey simpleFilter ≠ n.boolKey simpleFilter :=
    fun h heq => h (Mode.boolKey_injective heq)
  have hthr := fun m : Mode => m.boolKey_ne_threshold simpleFilter
  rw [addGroups_eq]
  cases mode with
  | and =>
    rw [get?_addGroup_of_ne (hne (by decide)) (hthr _),
      get?_addGroup_of_ne (hne (by decide)) (hthr _), get?_addGroup (hthr _)]
    rfl
  | or =>
    rw [get?_addGroup_of_ne (hne (by decide)) (hthr _), get?_addGroup (hthr _),
      get?_addGroup_of_ne (hne (by decide)) (hthr _)]
    rfl
  | not =>
    rw [get?_addGroup (hthr _), get?_addGroup_of_ne (hne (by decide)) (hthr _),
      get?_addGroup_of_ne (hne (by decide)) (hthr _)]
    rfl

/-- Each group of a family ends up behind the clauses that were in its slot. -/
theorem itemsAt_addGroups (simpleFilter : Bool) (threshold : Option Int64)
    (groups : ByMode Object) (target : Object) (mode : Mode) :
    (addGroups simpleFilter threshold groups target).itemsAt (mode.boolKey simpleFilter) =
      target.itemsAt (mode.boolKey simpleFilter) ++ (groups.get mode).map Value.object := by
  rw [Object.itemsAt, get?_addGroups, items_mergeSlot]
  rfl

/-- Writing the groups of a family touches its slots and the threshold only. -/
theorem get?_addGroups_of_ne {simpleFilter : Bool} {other : String}
    (hkeys : ∀ mode : Mode, other ≠ mode.boolKey simpleFilter)
    (hother : other ≠ "minimum_should_match") (threshold : Option Int64)
    (groups : ByMode Object) (target : Object) :
    (addGroups simpleFilter threshold groups target).get? other = target.get? other := by
  rw [addGroups_eq, get?_addGroup_of_ne (hkeys _) hother, get?_addGroup_of_ne (hkeys _) hother,
    get?_addGroup_of_ne (hkeys _) hother]

theorem get?_threshold_addGroup_of_ne {key : String} (hkey : key ≠ "should")
    (hthreshold : key ≠ "minimum_should_match") (threshold : Option Int64)
    (objects : List Object) (target : Object) :
    (addGroup key threshold objects target).get? "minimum_should_match" =
      target.get? "minimum_should_match" := by
  unfold addGroup raiseThreshold
  split
  · rfl
  · cases threshold <;> simp [hkey, get?_mergeClauses_of_ne hthreshold.symm]

theorem get?_threshold_addGroup (threshold : Option Int64) (objects : List Object)
    (target : Object) :
    (addGroup "should" threshold objects target).get? "minimum_should_match" =
      if objects ≠ [] ∧
          ((addGroup "should" threshold objects target).get? "should").any Value.isArray then
        (threshold.map fun count => Value.int count.toInt).or
          (target.get? "minimum_should_match")
      else target.get? "minimum_should_match" := by
  have hmerge := fun clauses => get?_mergeClauses_of_ne
    (by decide : "minimum_should_match" ≠ "should") clauses target
  have hslot : ∀ merged : Object,
      (raiseThreshold "should" threshold merged).get? "should" = merged.get? "should" :=
    fun merged => get?_raiseThreshold_of_ne (by decide) threshold merged
  unfold addGroup
  cases objects with
  | nil => simp
  | cons object rest =>
    simp only [List.isEmpty_cons, Bool.false_eq_true, if_false, hslot]
    cases threshold with
    | none => simp [raiseThreshold, hmerge]
    | some count =>
      by_cases harray : ((mergeClauses "should" (Draft.collapse (object :: rest)) target).get?
        "should").any Value.isArray
      · simp [raiseThreshold, harray, Keyed.get?_insert_self]
      · simp [raiseThreshold, harray, hmerge]

/-- Writing a family sets the threshold exactly where alternatives were merged and an array
of them is left. -/
theorem get?_threshold_addGroups (simpleFilter : Bool) (threshold : Option Int64)
    (groups : ByMode Object) (target : Object) :
    (addGroups simpleFilter threshold groups target).get? "minimum_should_match" =
      if groups.or ≠ [] ∧ ((addGroups simpleFilter threshold groups target).get?
          "should").any Value.isArray then
        (threshold.map fun count => Value.int count.toInt).or
          (target.get? "minimum_should_match")
      else target.get? "minimum_should_match" := by
  have hand : Mode.and.boolKey simpleFilter ≠ "should" := by cases simpleFilter <;> decide
  have hthreshold := fun mode : Mode => mode.boolKey_ne_threshold simpleFilter
  have hor : Mode.or.boolKey simpleFilter = "should" := rfl
  have hnot : Mode.not.boolKey simpleFilter = "must_not" := rfl
  rw [addGroups_eq, hnot, get?_addGroup_of_ne (by decide : "should" ≠ "must_not") (by decide),
    get?_threshold_addGroup_of_ne (by decide) (by decide), hor, get?_threshold_addGroup,
    get?_threshold_addGroup_of_ne hand (hthreshold _)]

/-- Writing a group takes no clause out of any slot. -/
theorem itemsAt_subset_addGroup {key : String} (hkey : key ≠ "minimum_should_match")
    {slot : String} (threshold : Option Int64) (objects : List Object) (target : Object) :
    target.itemsAt key ⊆ (addGroup slot threshold objects target).itemsAt key := by
  by_cases h : key = slot
  · subst h
    rw [itemsAt_addGroup hkey]
    exact List.subset_append_left ..
  · rw [itemsAt_addGroup_of_ne h hkey]
    exact List.Subset.refl _

theorem itemsAt_subset_addGroups {key : String} (hkey : key ≠ "minimum_should_match")
    (simpleFilter : Bool) (threshold : Option Int64) (groups : ByMode Object)
    (target : Object) :
    target.itemsAt key ⊆ (addGroups simpleFilter threshold groups target).itemsAt key := by
  rw [addGroups_eq]
  refine List.Subset.trans ?_ (itemsAt_subset_addGroup hkey ..)
  refine List.Subset.trans ?_ (itemsAt_subset_addGroup hkey ..)
  exact itemsAt_subset_addGroup hkey ..

theorem nodup_keys_addGroup {target : Object} (h : target.keys.Nodup) (key : String)
    (threshold : Option Int64) (objects : List Object) :
    (addGroup key threshold objects target).keys.Nodup := by
  have hmerge : ∀ clauses, (mergeClauses key clauses target).keys.Nodup := by
    intro clauses
    unfold mergeClauses
    split <;> exact Keyed.nodup_keys_insert h _ _
  unfold addGroup raiseThreshold
  split
  · exact h
  · split
    · exact hmerge _
    · split
      · exact Keyed.nodup_keys_insert (hmerge _) _ _
      · exact hmerge _

/-- Distinct keys stay distinct when the groups of a family are written. -/
theorem nodup_keys_addGroups {target : Object} (h : target.keys.Nodup)
    (simpleFilter : Bool) (threshold : Option Int64) (groups : ByMode Object) :
    (addGroups simpleFilter threshold groups target).keys.Nodup := by
  rw [addGroups_eq]
  exact nodup_keys_addGroup (nodup_keys_addGroup (nodup_keys_addGroup h _ _ _) _ _ _) _ _ _

end SearchQuery
