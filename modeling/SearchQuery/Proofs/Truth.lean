import SearchQuery.Proofs.Writing

/-!
What a rendered document says. The truth of the leaf documents is given, and so is how many
of several alternatives a threshold asks for. A bool clause is true if all that it
requires is true, nothing that it excludes is true, and enough of its alternatives are. It
needs one alternative if it has nothing else that it requires, and else none, unless it has
a threshold.
-/
namespace SearchQuery

/-- The truth of leaf documents, and how many of some alternatives a threshold asks for. -/
structure Reading where
  leaf : Object → Bool
  need : Value → Nat → Nat

namespace Reading

def required (r : Reading) (body : Object) (alternatives : Nat) : Nat :=
  match body.get? "minimum_should_match" with
  | some threshold => r.need threshold alternatives
  | none =>
    if body.contains "should" && !body.contains "must" && !body.contains "filter" then 1 else 0

def combine (r : Reading) (body : Object) (slots : Keyed (List Bool)) : Bool :=
  let slot (key : String) : List Bool := (slots.get? key).getD []
  (slot "must").all id && (slot "filter").all id && (slot "must_not").all not &&
    decide (r.required body (slot "should").length ≤ (slot "should").countP id)

end Reading

mutual

def Value.truth (r : Reading) : Value → Bool
  | .object [(key, body)] =>
    if key = "bool" then bodyTruth r body else r.leaf (Keyed.single key body)
  | .object entries => r.leaf entries
  | _ => false

def bodyTruth (r : Reading) : Value → Bool
  | .object body => r.combine body (slotTruths r body)
  | value => r.leaf (Keyed.single "bool" value)

def slotTruths (r : Reading) : List (String × Value) → Keyed (List Bool)
  | [] => []
  | (key, .array values) :: rest => (key, itemTruths r values) :: slotTruths r rest
  | (key, value) :: rest => (key, [value.truth r]) :: slotTruths r rest

def itemTruths (r : Reading) : List Value → List Bool
  | [] => []
  | value :: rest => value.truth r :: itemTruths r rest

end

theorem itemTruths_eq_map (r : Reading) (values : List Value) :
    itemTruths r values = values.map (Value.truth r) := by
  induction values with
  | nil => rfl
  | cons value rest ih => rw [itemTruths, ih, List.map_cons]

theorem get?_slotTruths (r : Reading) (body : Object) (key : String) :
    (slotTruths r body).get? key =
      (body.get? key).map fun value => value.items.map (Value.truth r) := by
  induction body with
  | nil => rfl
  | cons entry rest ih =>
    obtain ⟨first, value⟩ := entry
    have hcons : slotTruths r ((first, value) :: rest) =
        (first, value.items.map (Value.truth r)) :: slotTruths r rest := by
      cases value with
      | array values => rw [slotTruths, itemTruths_eq_map, Value.items]
      | _ => rfl
    rw [hcons, Keyed.get?_cons, Keyed.get?_cons, ih]
    by_cases h : first = key <;> simp [h]

def Reading.bool (r : Reading) (body : Object) : Bool :=
  (body.itemsAt "must").all (Value.truth r) && (body.itemsAt "filter").all (Value.truth r) &&
    (body.itemsAt "must_not").all (fun value => !value.truth r) &&
    decide (r.required body (body.itemsAt "should").length ≤
      (body.itemsAt "should").countP (Value.truth r))

theorem truth_bool (r : Reading) (body : Object) :
    (Value.object (Keyed.single "bool" (.object body))).truth r = r.bool body := by
  have hslot : ∀ key, ((slotTruths r body).get? key).getD [] =
      (body.itemsAt key).map (Value.truth r) := by
    intro key
    rw [get?_slotTruths, Object.itemsAt]
    cases body.get? key <;> rfl
  have hunfold : (Value.object (Keyed.single "bool" (.object body))).truth r =
      r.combine body (slotTruths r body) := by
    simp [Keyed.single, Value.truth, bodyTruth]
  rw [hunfold, Reading.combine, Reading.bool]
  simp only [hslot, List.length_map, List.all_map, List.countP_map, Function.id_comp]
  rfl

theorem truth_leaf (r : Reading) {key : String} (h : key ≠ "bool") (value : Value) :
    (Value.object (Keyed.single key value)).truth r = r.leaf (Keyed.single key value) := by
  simp [Keyed.single, Value.truth, h]

theorem bool_nil (r : Reading) : r.bool [] = true := by
  simp [Reading.bool, Reading.required, Object.itemsAt, Keyed.contains]

/-- How many of the alternatives of a family have to be true: what the threshold asks for if
there is one and it has several to choose from, or else one, if nothing is required beside
them. -/
def Reading.enough (r : Reading) (threshold : Option Int64) (alone : Bool) (count : Nat) : Nat :=
  match if 2 ≤ count then threshold else none with
  | some needed => r.need (.int needed.toInt) count
  | none => if alone && decide (0 < count) then 1 else 0

def Reading.family (r : Reading) (threshold : Option Int64) (alone : Bool)
    (truths : ByMode Bool) : Bool :=
  truths.and.all id && truths.not.all not &&
    decide (r.enough threshold alone truths.or.length ≤ truths.or.countP id)

def objectTruths (r : Reading) (objects : ByMode Object) : ByMode Bool :=
  objects.map fun object => (Value.object object).truth r

theorem family_empty (r : Reading) (threshold : Option Int64) (alone : Bool) :
    r.family threshold alone {} = true := by
  simp [Reading.family, Reading.enough]

theorem contains_mergeSlot {o : Object} {key : String} {objects : List Object}
    (h : o.get? key = mergeSlot none objects) : o.contains key = !objects.isEmpty := by
  rw [Keyed.contains, h, mergeSlot]
  cases objects <;> rfl

theorem any_isArray_mergeSlot (objects : List Object) :
    (mergeSlot none objects).any Value.isArray = decide (2 ≤ objects.length) := by
  match objects with
  | [] => rfl
  | [object] => rfl
  | _ :: _ :: _ => simp [mergeSlot, Draft.collapse, Value.isArray]

/-- The alternatives that a bool clause asks for, where its required clauses and its
alternatives are those of one family. -/
theorem required_eq (r : Reading) {body : Object} {threshold : Option Int64}
    {must should : List Object} (hmust : body.get? "must" = mergeSlot none must)
    (hshould : body.get? "should" = mergeSlot none should)
    (hthreshold : body.get? "minimum_should_match" =
      if 2 ≤ should.length then threshold.map fun count => .int count.toInt else none) :
    r.required body should.length =
      r.enough threshold (must.isEmpty && !body.contains "filter") should.length := by
  unfold Reading.required Reading.enough
  rw [hthreshold, contains_mergeSlot hmust, contains_mergeSlot hshould]
  match should with
  | [] => simp
  | [_] => simp
  | _ :: _ :: _ => cases threshold <;> simp

/-- A family that is written where none of its keys is taken adds its own truth to that of
what is there. -/
theorem bool_addGroups (r : Reading) {target : Object} (hmust : target.get? "must" = none)
    (hshould : target.get? "should" = none)
    (hthreshold : target.get? "minimum_should_match" = none) (threshold : Option Int64)
    (groups : ByMode Object) :
    r.bool (addGroups false threshold groups target) =
      ((target.itemsAt "filter").all (Value.truth r) &&
        (target.itemsAt "must_not").all (fun value => !value.truth r) &&
        r.family threshold (groups.and.isEmpty && !target.contains "filter")
          (objectTruths r groups)) := by
  let body := addGroups false threshold groups target
  have hslot := get?_addGroups false threshold groups target
  have hmustAfter : body.get? "must" = mergeSlot none groups.and := hmust ▸ hslot .and
  have hshouldAfter : body.get? "should" = mergeSlot none groups.or := hshould ▸ hslot .or
  have hfilterAfter : body.get? "filter" = target.get? "filter" :=
    get?_addGroups_of_ne (fun mode => by cases mode <;> decide) (by decide) ..
  have hthresholdAfter : body.get? "minimum_should_match" =
      if 2 ≤ groups.or.length then threshold.map fun count => .int count.toInt else none := by
    have hset := get?_threshold_addGroups false threshold groups target
    change body.get? "minimum_should_match" =
      if _ ∧ (body.get? "should").any Value.isArray = true then _ else _ at hset
    rw [hset, hshouldAfter, any_isArray_mergeSlot, hthreshold]
    match groups.or with
    | [] => rfl
    | [_] => rfl
    | _ :: _ :: _ => simp
  have hrequired := required_eq r hmustAfter hshouldAfter hthresholdAfter
  have hcontains : body.contains "filter" = target.contains "filter" := by
    rw [Keyed.contains, hfilterAfter, Keyed.contains]
  have hmustItems : body.itemsAt "must" = groups.and.map Value.object := by
    rw [Object.itemsAt, hmustAfter, items_mergeSlot]
    rfl
  have hshouldItems : body.itemsAt "should" = groups.or.map Value.object := by
    rw [Object.itemsAt, hshouldAfter, items_mergeSlot]
    rfl
  have hnotItems : body.itemsAt "must_not" =
      target.itemsAt "must_not" ++ groups.not.map Value.object :=
    itemsAt_addGroups false threshold groups target .not
  change r.bool body = _
  rw [Reading.bool, Reading.family, hmustItems, hshouldItems, hnotItems,
    Object.itemsAt_congr hfilterAfter, List.length_map, hrequired, hcontains]
  simp only [objectTruths, ByMode.map, List.all_map, List.all_append, List.countP_map,
    List.length_map]
  ac_rfl

end SearchQuery
