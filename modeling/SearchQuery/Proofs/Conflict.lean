import SearchQuery.Proofs.Writing

/-!
Which error stops the clauses of a draft from being written. The value that a slot meets
on its way decides whether there is a conflict, and neither the clauses nor an earlier
write can make a conflict or hide one: a write that succeeds leaves its slot open for
every later one. So the first error is found in the base and the clauses as they are.
-/
namespace SearchQuery

def failure? {α : Type} : Except DraftError α → Option DraftError
  | .ok _ => none
  | .error e => some e

theorem failure?_eq_some {α : Type} {x : Except DraftError α} {e : DraftError} :
    failure? x = some e ↔ x = .error e := by
  cases x <;> simp [failure?]

theorem failure?_eq_none {α : Type} {x : Except DraftError α} :
    failure? x = none ↔ ∃ a, x = .ok a := by
  cases x <;> simp [failure?]

theorem failure?_bind {α β : Type} (x : Except DraftError α) (f : α → Except DraftError β) :
    failure? (x >>= f) = match x with
      | .ok a => failure? (f a)
      | .error e => some e := by
  cases x <;> rfl

theorem failure?_map {α β : Type} (x : Except DraftError α) (f : α → β) :
    failure? (x.map f) = failure? x := by
  cases x <;> rfl

/-- The conflict at a path, or else what is in the way below the object under the key. -/
def conflictAt (path key : String) (below : Object → Option DraftError) (o : Object) :
    Option DraftError :=
  match o.objectAt? key with
  | some inner => below inner
  | none => some (.structuralConflict path)

theorem failure?_within (path key : String) (change : Object → Rendered) (parent : Object) :
    failure? (within path key change parent) =
      conflictAt path key (fun inner => failure? (change inner)) parent := by
  rw [within_eq, conflictAt]
  cases parent.objectAt? key with
  | none => rfl
  | some inner => exact failure?_map ..

theorem conflictAt_insert (path key : String) (below : Object → Option DraftError)
    (o inner : Object) :
    conflictAt path key below (o.insert key (.object inner)) = below inner := by
  have h := Object.objectAt?_insert o key inner
  simp [conflictAt, h]

namespace Slot

/-- What is in the way of a filter's own bool clause. An array of filters never is. -/
def filterConflict (body : Object) : Option DraftError :=
  match body.get? "filter" with
  | some (.array _) => none
  | _ =>
    conflictAt "query.bool.filter" "filter"
      (conflictAt "query.bool.filter.bool" "bool" fun _ => none) body

def conflict : Slot → Object → Option DraftError
  | .query => conflictAt "query" "query" fun _ => none
  | .queryBool => conflictAt "query" "query" (conflictAt "query.bool" "bool" fun _ => none)
  | .filterBool => conflictAt "query" "query" (conflictAt "query.bool" "bool" filterConflict)

theorem failure?_changeFilter (f : Object → Object) (body : Object) :
    failure? (changeFilter f body) = filterConflict body := by
  by_cases harray : ∃ values, body.get? "filter" = some (.array values)
  · obtain ⟨values, hvalues⟩ := harray
    have hnone : filterConflict body = none := by simp [filterConflict, hvalues]
    rw [changeFilter_array hvalues, hnone]
    rfl
  · have hother : ∀ values, body.get? "filter" ≠ some (.array values) :=
      fun values hvalues => harray ⟨values, hvalues⟩
    have hconflict : filterConflict body = conflictAt "query.bool.filter" "filter"
        (conflictAt "query.bool.filter.bool" "bool" fun _ => none) body := by
      unfold filterConflict
      split
      · next values hvalues => exact absurd hvalues (hother values)
      · rfl
    rw [changeFilter_object hother, hconflict]
    simp only [failure?_within]
    rfl

theorem failure?_change (slot : Slot) (f : Object → Object) (request : Object) :
    failure? (slot.change f request) = slot.conflict request := by
  cases slot with
  | query => exact failure?_within ..
  | queryBool =>
    simp only [change, failure?_within]
    rfl
  | filterBool =>
    simp only [change, failure?_within, failure?_changeFilter]
    rfl

def Covers : Slot → Slot → Prop
  | .filterBool, .queryBool => True
  | slot, other => slot = other

theorem Covers.conflict_eq_none {slot other : Slot} (h : slot.Covers other)
    {request : Object} (hnone : slot.conflict request = none) :
    other.conflict request = none := by
  have hbool : Slot.conflict .filterBool request = none →
      Slot.conflict .queryBool request = none := by
    simp only [conflict, conflictAt]
    intro hfilter
    cases hquery : request.objectAt? "query" with
    | none => simp [hquery] at hfilter
    | some query =>
      cases hbody : query.objectAt? "bool" with
      | none => simp [hquery, hbody] at hfilter
      | some body => simp [hbody]
  cases slot <;> cases other <;> simp only [Covers, reduceCtorEq] at h <;>
    first | exact hnone | exact hbool hnone

theorem filterConflict_changeFilter {f : Object → Object} {body result : Object}
    (h : changeFilter f body = .ok result) : filterConflict result = none := by
  unfold changeFilter at h
  split at h
  · obtain rfl := Except.ok.inj h
    simp [filterConflict, Keyed.get?_insert_self]
  · obtain ⟨outer, changed, -, hchanged, rfl⟩ := within_ok h
    obtain ⟨inner, _, -, -, rfl⟩ := within_ok hchanged
    simp only [filterConflict, Keyed.get?_insert_self, conflictAt_insert]

/-- A write that succeeds leaves its own slot open. -/
theorem conflict_change {slot : Slot} {f : Object → Object} {request result : Object}
    (h : slot.change f request = .ok result) : slot.conflict result = none := by
  obtain ⟨query, changed, -, hchanged, rfl⟩ := within_ok h
  cases slot with
  | query => exact conflictAt_insert ..
  | queryBool =>
    obtain ⟨body, _, -, -, rfl⟩ := within_ok hchanged
    simp only [conflict, conflictAt_insert]
  | filterBool =>
    obtain ⟨body, _, -, hbody, rfl⟩ := within_ok hchanged
    simp only [conflict, conflictAt_insert]
    exact filterConflict_changeFilter hbody

end Slot

namespace Draft

theorem failure?_collect (group : List Rendered) :
    failure? (collect group) = group.findSome? failure? := by
  unfold collect
  induction group with
  | nil => rfl
  | cons rendered rest ih =>
    rw [List.mapM_cons, failure?_bind, List.findSome?_cons]
    cases rendered with
    | error e => rfl
    | ok object =>
      simp only [id_eq, failure?, ← ih]
      cases List.mapM id rest <;> rfl

def groupFailure (draft : Draft) (request : Object) (family : Family)
    (group : List Rendered) : Option DraftError :=
  if group.isEmpty then none
  else (group.findSome? failure?).or ((draft.slot family).conflict request)

theorem failure?_writeGroup (draft : Draft) (family : Family) (mode : Mode)
    (group : List Rendered) (request : Object) :
    failure? (draft.writeGroup family mode group request) =
      draft.groupFailure request family group := by
  unfold writeGroup groupFailure
  split
  · rfl
  · rw [failure?_bind, ← failure?_collect]
    cases collect group with
    | error e => rfl
    | ok objects => exact Slot.failure?_change ..

/-- A group that was written leaves the way open for the groups that are written later. -/
theorem groupFailure_writeGroup {draft : Draft} {family later : Family} {mode : Mode}
    {group : List Rendered} {request result : Object}
    (hcovers : (draft.slot family).Covers (draft.slot later))
    (h : draft.writeGroup family mode group request = .ok result) (next : List Rendered) :
    draft.groupFailure result later next = draft.groupFailure request later next := by
  have hfailure := failure?_writeGroup draft family mode group request
  rw [h] at hfailure
  unfold writeGroup at h
  unfold groupFailure at hfailure ⊢
  by_cases hempty : group.isEmpty
  · rw [if_pos hempty] at h
    rw [Except.ok.inj h]
  · rw [if_neg hempty] at h hfailure
    cases hobjects : collect group with
    | error e => simp [hobjects, bind, Except.bind] at h
    | ok objects =>
      simp only [hobjects, bind, Except.bind] at h
      have hbefore := (Option.or_eq_none_iff.1 hfailure.symm).2
      rw [hcovers.conflict_eq_none (Slot.conflict_change h),
        hcovers.conflict_eq_none hbefore]

theorem slot_filter_covers (draft : Draft) (family : Family) :
    (draft.slot .filter).Covers (draft.slot family) := by
  unfold slot
  by_cases hplace : draft.placement = .inFilter
  · simp [hplace, Slot.Covers]
  · cases family <;> cases draft.simpleFilter <;> simp [hplace, Slot.Covers]

/-- In the order of writing, each group leaves the way open for all that follow. -/
theorem groups_pairwise (draft : Draft) :
    groups.Pairwise fun group later => (draft.slot group.1).Covers (draft.slot later.1) := by
  have hfilter := draft.slot_filter_covers
  have hself : (draft.slot .query).Covers (draft.slot .query) := by
    cases draft.slot .query <;> exact rfl
  simp [groups, Family.all, Mode.all, hfilter, hself]

/-- Writing some groups fails with the first error of a group on the base, if none of them
meets other conflicts in the request object than in the base. -/
theorem failure?_foldlM_writeGroup (draft : Draft) (clauses : RenderedClauses)
    {rest : List (Family × Mode)} {request : Object}
    (hpair : rest.Pairwise fun group later =>
      (draft.slot group.1).Covers (draft.slot later.1))
    (hbase : ∀ group ∈ rest, ∀ next, draft.groupFailure request group.1 next =
      draft.groupFailure draft.base group.1 next) :
    failure? (rest.foldlM (fun request (group : Family × Mode) =>
        draft.writeGroup group.1 group.2 (clauses.get group.1 group.2) request) request) =
      rest.findSome? fun group =>
        draft.groupFailure draft.base group.1 (clauses.get group.1 group.2) := by
  -- The request changes along the way. What is kept is that the groups still to be
  -- written meet the conflicts in it that they meet in the base.
  induction rest generalizing request with
  | nil => rfl
  | cons group rest ih =>
    obtain ⟨hcovers, hrest⟩ := List.pairwise_cons.1 hpair
    rw [List.foldlM_cons, failure?_bind, List.findSome?_cons,
      ← hbase group List.mem_cons_self, ← failure?_writeGroup _ _ group.2]
    cases hresult : draft.writeGroup group.1 group.2 (clauses.get group.1 group.2) request with
    | error e => rfl
    | ok result =>
      refine ih hrest fun later hlater next => ?_
      rw [groupFailure_writeGroup (hcovers later hlater) hresult,
        hbase later (List.mem_cons_of_mem _ hlater)]

/-- Writing all groups fails with the first error of a group on the untouched base. -/
theorem failure?_writeClauses (draft : Draft) (clauses : RenderedClauses) :
    failure? (draft.writeClauses clauses) =
      groups.findSome? fun group =>
        draft.groupFailure draft.base group.1 (clauses.get group.1 group.2) :=
  draft.failure?_foldlM_writeGroup clauses draft.groups_pairwise fun _ _ _ => rfl

end Draft

end SearchQuery
