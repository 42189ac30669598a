import SearchQuery.Proofs.Merging

/-!
How the groups of a draft come together in its request object. Writing group by group
through the slots is the same as going to the bool clause of the query once and writing
there: first the filters, the simple way or into a bool clause of their own, then the
queries. A draft below a filter writes its filters into the query object itself.
-/
namespace SearchQuery

/-- The object under a key: an empty one if the key is missing, and none if the value
there is no object. -/
def Object.objectAt? (o : Object) (key : String) : Option Object :=
  match o.get? key with
  | none => some []
  | some (.object inner) => some inner
  | some _ => none

theorem Object.objectAt?_insert (o : Object) (key : String) (inner : Object) :
    Object.objectAt? (o.insert key (.object inner)) key = some inner := by
  simp [objectAt?, Keyed.get?_insert_self]

def Object.inner? (o : Object) : List String → Option Object
  | [] => some o
  | key :: rest =>
    match o.get? key with
    | some (.object inner) => Object.inner? inner rest
    | _ => none

theorem Object.inner?_cons {o inner : Object} {key : String}
    (h : o.get? key = some (.object inner)) (rest : List String) :
    o.inner? (key :: rest) = Object.inner? inner rest := by
  simp [inner?, h]

/-- The object at the end of a path of keys, where what is missing counts as empty. -/
def Object.scope (o : Object) (path : List String) : Object := (o.inner? path).getD []

theorem Object.scope_congr {o p : Object} {key : String} (h : o.get? key = p.get? key)
    (rest : List String) : o.scope (key :: rest) = p.scope (key :: rest) := by
  rw [scope, scope, inner?, inner?, h]

theorem Object.scope_cons {o inner : Object} {key : String}
    (h : o.objectAt? key = some inner) (rest : List String) :
    o.scope (key :: rest) = Object.scope inner rest := by
  unfold objectAt? at h
  split at h
  · next hnone =>
    obtain rfl := Option.some.inj h
    have hempty : Object.scope [] rest = [] := by cases rest <;> rfl
    rw [hempty, scope, inner?, hnone]
    rfl
  · next found hfound =>
    obtain rfl := Option.some.inj h
    rw [scope, inner?_cons hfound]
    rfl
  · simp at h

theorem within_eq (path key : String) (change : Object → Except DraftError Object)
    (parent : Object) :
    within path key change parent =
      match parent.objectAt? key with
      | some inner => (change inner).map fun changed => parent.insert key (.object changed)
      | none => .error (.structuralConflict path) := by
  have hreturn : ∀ x : Rendered,
      (do return parent.insert key (.object (← x))) =
        x.map fun changed => parent.insert key (.object changed) := by
    intro x
    cases x <;> rfl
  unfold within Object.objectAt?
  cases parent.get? key with
  | none => exact hreturn _
  | some value =>
    cases value with
    | object inner => exact hreturn _
    | _ => rfl

/-- A change within an object that succeeds has put the changed object under the key. -/
theorem within_ok {path key : String} {change : Object → Except DraftError Object}
    {parent result : Object} (h : within path key change parent = .ok result) :
    ∃ inner changed, parent.objectAt? key = some inner ∧ change inner = .ok changed ∧
      result = parent.insert key (.object changed) := by
  rw [within_eq] at h
  cases hinner : parent.objectAt? key with
  | none => simp [hinner] at h
  | some inner =>
    cases hchange : change inner with
    | error e => simp [hinner, hchange, Except.map] at h
    | ok changed =>
      simp only [hinner, hchange, Except.map, Except.ok.injEq] at h
      exact ⟨inner, changed, rfl, hchange, h.symm⟩

/-- Changing the object under a key twice is one change after the other of that object. -/
theorem within_bind (path key : String) (first second : Object → Rendered)
    (parent : Object) :
    (within path key first parent >>= within path key second) =
      within path key (fun inner => first inner >>= second) parent := by
  rw [within_eq, within_eq]
  cases parent.objectAt? key with
  | none => rfl
  | some inner =>
    cases hfirst : first inner with
    | error e => simp [hfirst, Except.map, bind, Except.bind]
    | ok changed =>
      have hagain := Object.objectAt?_insert parent key changed
      simp only [hfirst, Except.map, bind, Except.bind, within_eq, hagain]
      cases second changed <;> simp [Keyed.insert_insert]

theorem bind_congr_ok {α β : Type} {x : Except DraftError α}
    {f g : α → Except DraftError β} (h : ∀ a, x = .ok a → f a = g a) :
    x >>= f = x >>= g := by
  cases x with
  | error e => rfl
  | ok a => exact h a rfl

def runAll (steps : List (Object → Rendered)) (o : Object) : Rendered :=
  steps.foldlM (fun o step => step o) o

theorem runAll_append (front back : List (Object → Rendered)) (o : Object) :
    runAll (front ++ back) o = runAll front o >>= runAll back :=
  List.foldlM_append

theorem runAll_pure (writes : List (Object → Object)) (o : Object) :
    runAll (writes.map fun write o => .ok (write o)) o =
      .ok (writes.foldl (fun o write => write o) o) := by
  induction writes generalizing o with
  | nil => rfl
  | cons write rest ih => exact ih (write o)

theorem runAll_within (path key : String) {steps : List (Object → Rendered)}
    (h : steps ≠ []) (parent : Object) :
    runAll (steps.map (within path key)) parent = within path key (runAll steps) parent := by
  induction steps generalizing parent with
  | nil => exact absurd rfl h
  | cons first rest ih =>
    have hcons : runAll ((first :: rest).map (within path key)) parent =
        within path key first parent >>= runAll (rest.map (within path key)) := rfl
    rw [hcons]
    -- The last step has nothing behind it that could be moved inside.
    cases rest with
    | nil =>
      have hpure : (runAll [first] : Object → Rendered) = first := by
        funext o
        exact bind_pure (first o)
      rw [hpure]
      exact bind_pure _
    | cons second rest =>
      have hrest : runAll ((second :: rest).map (within path key)) =
          within path key (runAll (second :: rest)) := by
        funext o
        exact ih (by simp) o
      rw [hrest, within_bind]
      rfl

def familyWrites (simpleFilter : Bool) (threshold : Option Int64) (groups : ByMode Object) :
    List (Object → Object) :=
  Mode.all.filterMap fun mode =>
    if (groups.get mode).isEmpty then none
    else some (addGroup (mode.boolKey simpleFilter) threshold (groups.get mode))

theorem foldl_familyWrites (simpleFilter : Bool) (threshold : Option Int64)
    (groups : ByMode Object) (target : Object) :
    (familyWrites simpleFilter threshold groups).foldl (fun o write => write o) target =
      addGroups simpleFilter threshold groups target := by
  rw [familyWrites, List.foldl_filterMap, addGroups]
  congr 1
  funext o mode
  by_cases h : (groups.get mode).isEmpty <;> simp [addGroup, h]

theorem familyWrites_eq_nil (simpleFilter : Bool) (threshold : Option Int64)
    (groups : ByMode Object) :
    familyWrites simpleFilter threshold groups = [] ↔ groups.toList = [] := by
  obtain ⟨and, or, not⟩ := groups
  cases and <;> cases or <;> cases not <;>
    simp [familyWrites, Mode.all, ByMode.get, ByMode.toList]

def filterElements (threshold : Option Int64) (filters : ByMode Object) : List Value :=
  (familyWrites false threshold filters).map fun write =>
    .object (Keyed.single "bool" (.object (write [])))

theorem mem_filterElements_iff {threshold : Option Int64} {filters : ByMode Object}
    {element : Value} :
    element ∈ filterElements threshold filters ↔ ∃ mode, filters.get mode ≠ [] ∧
      element = .object (Keyed.single "bool"
        (.object (addGroup (mode.boolKey false) threshold (filters.get mode) []))) := by
  unfold filterElements familyWrites
  constructor
  · intro h
    obtain ⟨write, hwrite, rfl⟩ := List.mem_map.1 h
    obtain ⟨mode, -, hmode⟩ := List.mem_filterMap.1 hwrite
    split at hmode
    · simp at hmode
    · next hsome =>
      obtain rfl := Option.some.inj hmode
      exact ⟨mode, by simpa using hsome, rfl⟩
  · rintro ⟨mode, hsome, rfl⟩
    have hall : mode ∈ Mode.all := by cases mode <;> decide
    exact List.mem_map.2 ⟨_, List.mem_filterMap.2 ⟨mode, hall, if_neg (by simpa using hsome)⟩, rfl⟩

namespace Slot

theorem changeFilter_array {body : Object} {values : List Value}
    (h : body.get? "filter" = some (.array values)) (f : Object → Object) :
    changeFilter f body = .ok (body.insert "filter"
      (.array (values ++ [.object (Keyed.single "bool" (.object (f [])))]))) := by
  simp [changeFilter, h]

theorem changeFilter_object {body : Object}
    (h : ∀ values, body.get? "filter" ≠ some (.array values)) (f : Object → Object) :
    changeFilter f body =
      within "query.bool.filter" "filter"
        (within "query.bool.filter.bool" "bool" fun inner => .ok (f inner)) body := by
  unfold changeFilter
  split
  · next values hvalues => exact absurd hvalues (h values)
  · rfl

theorem runAll_changeFilter_array {body : Object} {values : List Value}
    (h : body.get? "filter" = some (.array values)) {writes : List (Object → Object)}
    (hwrites : writes ≠ []) :
    runAll (writes.map changeFilter) body =
      .ok (body.insert "filter" (.array (values ++ writes.map fun write =>
        .object (Keyed.single "bool" (.object (write [])))))) := by
  induction writes generalizing body values with
  | nil => exact absurd rfl hwrites
  | cons write rest ih =>
    have hcons : runAll ((write :: rest).map changeFilter) body =
        changeFilter write body >>= runAll (rest.map changeFilter) := rfl
    rw [hcons, changeFilter_array h]
    cases rest with
    | nil => rfl
    | cons second rest =>
      have hget := Keyed.get?_insert_self body "filter"
        (Value.array (values ++ [.object (Keyed.single "bool" (.object (write [])))]))
      simp only [bind, Except.bind]
      rw [ih hget (by simp), Keyed.insert_insert]
      simp

theorem runAll_changeFilter_object {body : Object}
    (h : ∀ values, body.get? "filter" ≠ some (.array values))
    {writes : List (Object → Object)} (hwrites : writes ≠ []) :
    runAll (writes.map changeFilter) body =
      within "query.bool.filter" "filter" (within "query.bool.filter.bool" "bool"
        fun inner => .ok (writes.foldl (fun o write => write o) inner)) body := by
  induction writes generalizing body with
  | nil => exact absurd rfl hwrites
  | cons write rest ih =>
    have hcons : runAll ((write :: rest).map changeFilter) body =
        changeFilter write body >>= runAll (rest.map changeFilter) := rfl
    rw [hcons, changeFilter_object h]
    cases rest with
    | nil => exact bind_pure _
    | cons second rest =>
      have hrest : ∀ result, within "query.bool.filter" "filter"
          (within "query.bool.filter.bool" "bool" fun inner => .ok (write inner)) body =
            .ok result →
          runAll ((second :: rest).map changeFilter) result =
            within "query.bool.filter" "filter" (within "query.bool.filter.bool" "bool"
              fun inner => .ok ((second :: rest).foldl (fun o write => write o) inner)) result := by
        intro result hresult
        obtain ⟨_, changed, -, -, rfl⟩ := within_ok hresult
        exact ih (by simp [Keyed.get?_insert_self]) (by simp)
      rw [bind_congr_ok hrest, within_bind]
      congr 1
      funext outer
      exact within_bind ..

end Slot

def inBool (change : Object → Rendered) : Object → Rendered :=
  within "query" "query" (within "query.bool" "bool" change)

theorem runAll_inBool {steps : List (Object → Rendered)} (h : steps ≠ []) (o : Object) :
    runAll (steps.map inBool) o = inBool (runAll steps) o := by
  have houter : steps.map (within "query.bool" "bool") ≠ [] := by simpa using h
  have hinner : runAll (steps.map (within "query.bool" "bool")) =
      within "query.bool" "bool" (runAll steps) := by
    funext query
    exact runAll_within _ _ h query
  rw [inBool, ← hinner, ← runAll_within _ _ houter, List.map_map]
  rfl

namespace Draft

def noErrors (filters queries : ByMode Object) : RenderedClauses :=
  ⟨filters.map .ok, queries.map .ok⟩

def fillFilters (draft : Draft) (filters : ByMode Object) (body : Object) : Rendered :=
  if draft.simpleFilter then .ok (addGroups true draft.filterThreshold filters body)
  else if filters.toList.isEmpty then .ok body
  else
    match body.get? "filter" with
    | some (.array values) =>
      .ok (body.insert "filter"
        (.array (values ++ filterElements draft.filterThreshold filters)))
    | _ =>
      within "query.bool.filter" "filter" (within "query.bool.filter.bool" "bool"
        fun inner => .ok (addGroups false draft.filterThreshold filters inner)) body

def fillBool (draft : Draft) (filters queries : ByMode Object) (body : Object) : Rendered :=
  (draft.fillFilters filters body).map (addGroups false draft.queryThreshold queries)

/-- The bool clauses that the filters of a draft can leave, by the way they are written:
the simple way, not at all, at the end of an array, or into a bool clause of their own. -/
inductive Filtered (draft : Draft) (filters : ByMode Object) (body : Object) : Object → Prop
  | simple (hsimple : draft.simpleFilter = true) :
      Filtered draft filters body (addGroups true draft.filterThreshold filters body)
  | nothing (hsimple : draft.simpleFilter = false) (hfilters : filters.toList = []) :
      Filtered draft filters body body
  | array (values : List Value) (hsimple : draft.simpleFilter = false)
      (hfilters : filters.toList ≠ []) (hfilter : body.get? "filter" = some (.array values)) :
      Filtered draft filters body (body.insert "filter"
        (.array (values ++ filterElements draft.filterThreshold filters)))
  | object (outer inner : Object) (hsimple : draft.simpleFilter = false)
      (hfilters : filters.toList ≠ [])
      (harray : ∀ values, body.get? "filter" ≠ some (.array values))
      (houter : body.objectAt? "filter" = some outer)
      (hinner : outer.objectAt? "bool" = some inner) :
      Filtered draft filters body (body.insert "filter" (.object (outer.insert "bool"
        (.object (addGroups false draft.filterThreshold filters inner)))))

theorem fillFilters_ok {draft : Draft} {filters : ByMode Object} {body result : Object}
    (h : draft.fillFilters filters body = .ok result) : draft.Filtered filters body result := by
  unfold fillFilters at h
  split at h
  · next hsimple =>
    obtain rfl := Except.ok.inj h
    exact .simple hsimple
  next hsimple =>
  have hsimple : draft.simpleFilter = false := by simpa using hsimple
  split at h
  · next hempty =>
    obtain rfl := Except.ok.inj h
    exact .nothing hsimple (List.isEmpty_iff.1 hempty)
  next hsome =>
  have hfilters : filters.toList ≠ [] := by simpa using hsome
  split at h
  · next values hfilter =>
    obtain rfl := Except.ok.inj h
    exact .array values hsimple hfilters hfilter
  next harray =>
  obtain ⟨outer, _, houter, hchanged, rfl⟩ := within_ok h
  obtain ⟨inner, _, hinner, hwritten, rfl⟩ := within_ok hchanged
  obtain rfl := Except.ok.inj hwritten
  exact .object outer inner hsimple hfilters (fun values => harray values) houter hinner

theorem fillBool_ok {draft : Draft} {filters queries : ByMode Object} {body result : Object}
    (h : draft.fillBool filters queries body = .ok result) :
    ∃ filtered, draft.Filtered filters body filtered ∧
      result = addGroups false draft.queryThreshold queries filtered := by
  unfold fillBool at h
  cases hfiltered : draft.fillFilters filters body with
  | error e => simp [hfiltered, Except.map] at h
  | ok filtered =>
    rw [hfiltered] at h
    exact ⟨filtered, fillFilters_ok hfiltered, (Except.ok.inj h).symm⟩

theorem collect_ok (objects : List Object) :
    collect (objects.map (.ok : Object → Rendered)) = .ok objects := by
  induction objects with
  | nil => rfl
  | cons object rest ih =>
    rw [collect] at ih ⊢
    rw [List.map_cons, List.mapM_cons, ih]
    rfl

theorem writeGroup_ok (draft : Draft) (family : Family) (mode : Mode)
    (objects : List Object) (request : Object) :
    draft.writeGroup family mode (objects.map .ok) request =
      if objects.isEmpty then .ok request
      else (draft.slot family).change
        (addGroup (draft.key family mode) (draft.threshold family) objects) request := by
  unfold writeGroup
  rw [collect_ok, List.isEmpty_map]
  split
  · rfl
  · next h =>
    simp only [bind, Except.bind]
    congr 1
    funext target
    simp [addGroup, h]

def slotWrites (draft : Draft) (family : Family) (groups : ByMode Object) :
    List (Object → Rendered) :=
  (familyWrites (draft.simpleFilter && family == .filter) (draft.threshold family) groups).map
    (draft.slot family).change

theorem runAll_slotWrites (draft : Draft) (family : Family) (groups : ByMode Object)
    (request : Object) :
    runAll (draft.slotWrites family groups) request =
      Mode.all.foldlM (fun request mode =>
        draft.writeGroup family mode ((groups.get mode).map .ok) request) request := by
  rw [runAll, slotWrites, List.foldlM_map, familyWrites, List.foldlM_filterMap]
  congr 1
  funext request mode
  rw [writeGroup_ok]
  by_cases h : (groups.get mode).isEmpty <;> simp [h, key, pure, Except.pure]

theorem writeClauses_noErrors (draft : Draft) (filters queries : ByMode Object) :
    draft.writeClauses (noErrors filters queries) =
      runAll (draft.slotWrites .filter filters ++ draft.slotWrites .query queries)
        draft.base := by
  rw [runAll_append, runAll_slotWrites]
  have hqueries : runAll (draft.slotWrites .query queries) = fun request =>
      Mode.all.foldlM (fun request mode =>
        draft.writeGroup .query mode ((queries.get mode).map .ok) request) request := by
    funext request
    exact runAll_slotWrites ..
  rw [hqueries]
  unfold writeClauses groups Family.all
  simp only [List.flatMap_cons, List.flatMap_nil, List.append_nil, List.foldlM_append,
    List.foldlM_map, RenderedClauses.get, noErrors, ByMode.get_map]

def innerWrites (draft : Draft) (family : Family) (groups : ByMode Object) :
    List (Object → Rendered) :=
  (familyWrites (draft.simpleFilter && family == .filter) (draft.threshold family) groups).map
    fun write =>
      if family = .query ∨ draft.simpleFilter then fun o => .ok (write o)
      else Slot.changeFilter write

theorem slotWrites_eq_inBool {draft : Draft} (h : draft.placement ≠ .inFilter)
    (family : Family) (groups : ByMode Object) :
    draft.slotWrites family groups = (draft.innerWrites family groups).map inBool := by
  rw [slotWrites, innerWrites, List.map_map]
  congr 1
  funext write request
  by_cases hslot : family = .query ∨ draft.simpleFilter = true
  · simp only [slot, h, hslot, if_true, if_false, Function.comp_apply]
    rfl
  · simp only [slot, h, hslot, if_false, Function.comp_apply]
    rfl

theorem runAll_innerWrites_query (draft : Draft) (queries : ByMode Object) (body : Object) :
    runAll (draft.innerWrites .query queries) body =
      .ok (addGroups false draft.queryThreshold queries body) := by
  have hwrites : draft.innerWrites .query queries =
      (familyWrites false draft.queryThreshold queries).map fun write o => .ok (write o) := by
    have hfamily : (Family.query == Family.filter) = false := rfl
    simp [innerWrites, threshold, hfamily]
  rw [hwrites, runAll_pure, foldl_familyWrites]

theorem runAll_innerWrites_filter (draft : Draft) (filters : ByMode Object) (body : Object) :
    runAll (draft.innerWrites .filter filters) body = draft.fillFilters filters body := by
  cases hsimple : draft.simpleFilter with
  | true =>
    have hwrites : draft.innerWrites .filter filters =
        (familyWrites true draft.filterThreshold filters).map fun write o => .ok (write o) := by
      simp [innerWrites, threshold, hsimple]
    rw [hwrites, runAll_pure, foldl_familyWrites, fillFilters, if_pos hsimple]
  | false =>
    have hwrites : draft.innerWrites .filter filters =
        (familyWrites false draft.filterThreshold filters).map Slot.changeFilter := by
      simp [innerWrites, threshold, hsimple]
    rw [hwrites, fillFilters, if_neg (by simp [hsimple])]
    by_cases hempty : filters.toList = []
    · have hnil := (familyWrites_eq_nil false draft.filterThreshold filters).2 hempty
      simp [hnil, hempty, runAll, pure, Except.pure]
    · have hsome := mt (familyWrites_eq_nil false draft.filterThreshold filters).1 hempty
      rw [if_neg (by simpa using hempty)]
      split
      · next values hvalues => exact Slot.runAll_changeFilter_array hvalues hsome
      · next hvalues =>
        rw [Slot.runAll_changeFilter_object (fun values => hvalues values) hsome]
        simp only [foldl_familyWrites]

/-- A draft that is not below a filter writes all its clauses into the bool clause of its
query at once. -/
theorem writeClauses_eq_inBool {draft : Draft} (hplace : draft.placement ≠ .inFilter)
    {filters queries : ByMode Object}
    (hsome : filters.toList ≠ [] ∨ queries.toList ≠ []) :
    draft.writeClauses (noErrors filters queries) =
      inBool (draft.fillBool filters queries) draft.base := by
  have hne : draft.innerWrites .filter filters ++ draft.innerWrites .query queries ≠ [] := by
    simp only [innerWrites, ne_eq, List.append_eq_nil_iff, List.map_eq_nil_iff,
      familyWrites_eq_nil]
    exact fun hnone => hsome.elim (fun h => h hnone.1) (fun h => h hnone.2)
  rw [writeClauses_noErrors, slotWrites_eq_inBool hplace, slotWrites_eq_inBool hplace,
    ← List.map_append, runAll_inBool hne]
  congr 1
  funext body
  rw [runAll_append, runAll_innerWrites_filter, fillBool]
  cases draft.fillFilters filters body with
  | error e => rfl
  | ok body => exact runAll_innerWrites_query ..

/-- A draft below a filter writes its filters into the query object itself. -/
theorem writeClauses_eq_inQuery {draft : Draft} (hplace : draft.placement = .inFilter)
    {filters : ByMode Object} (hsome : filters.toList ≠ []) :
    draft.writeClauses (noErrors filters {}) =
      within "query" "query" (fun query =>
        .ok (addGroups draft.simpleFilter draft.filterThreshold filters query)) draft.base := by
  have hnone : draft.slotWrites .query {} = [] := by
    simp [slotWrites, familyWrites, Mode.all, ByMode.get]
  have hwrites : draft.slotWrites .filter filters =
      ((familyWrites draft.simpleFilter draft.filterThreshold filters).map
        fun write (o : Object) => (.ok (write o) : Rendered)).map (within "query" "query") := by
    rw [slotWrites, List.map_map]
    simp only [beq_self_eq_true, Bool.and_true, slot, hplace, if_true]
    rfl
  rw [writeClauses_noErrors, hnone, List.append_nil, hwrites,
    runAll_within _ _ (by simpa [familyWrites_eq_nil] using hsome)]
  congr 1
  funext query
  rw [runAll_pure, foldl_familyWrites]

theorem writeClauses_empty (draft : Draft) :
    draft.writeClauses (noErrors {} {}) = .ok draft.base := rfl

end Draft

end SearchQuery
