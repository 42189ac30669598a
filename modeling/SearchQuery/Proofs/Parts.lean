import SearchQuery.Proofs.Runs

/-!
The parts of a draft and the steps that touch them. A step changes a part by what is in that
part alone, and it leaves the parts alone that it does not touch. So what a part holds after
a run comes from the steps that touch it, in their order, and runs in which each part meets
the same steps leave the same draft, however the steps for different parts are mixed. A
reset leaves nothing of what came before it but the last base.
-/
namespace SearchQuery

inductive Part where
  | group (family : Family) (mode : Mode)
  | rawOptions
  | sort
  | size
  | offset
  | threshold (family : Family)
  | base
deriving DecidableEq

def Part.Content : Part → Type
  | .group _ _ => List Clause
  | .rawOptions => List (String × Value)
  | .sort => SortOrder
  | .size => Option UInt64
  | .offset => Option UInt64
  | .threshold _ => Option Int64
  | .base => Object

namespace Draft

def content (draft : Draft) : (part : Part) → part.Content
  | .group family mode => (draft.clauses family).get mode
  | .rawOptions => draft.rawOptions
  | .sort => draft.sort
  | .size => draft.size
  | .offset => draft.offset
  | .threshold family => draft.threshold family
  | .base => draft.base

/-- A draft is its place and what it holds in its parts. -/
theorem eq_of_content {d e : Draft} (hplace : d.placement = e.placement)
    (h : ∀ part, d.content part = e.content part) : d = e := by
  have hfilters : d.filters = e.filters := ByMode.eq_of_get fun mode => h (.group .filter mode)
  have hqueries : d.queries = e.queries := ByMode.eq_of_get fun mode => h (.group .query mode)
  have hbase := h .base
  have hraw := h .rawOptions
  have hsort := h .sort
  have hsize := h .size
  have hoffset := h .offset
  have hfilter := h (.threshold .filter)
  have hquery := h (.threshold .query)
  cases d
  cases e
  exact Draft.mk.injEq .. ▸
    ⟨hbase, hplace, hfilters, hqueries, hraw, hsort, hsize, hoffset, hfilter, hquery⟩

/-- A clause that is added goes to its own group and to no other part. -/
theorem content_add_of_ne {family : Family} {mode : Mode} {part : Part}
    (h : part ≠ .group family mode) (draft : Draft) (clause : Clause) :
    (draft.add family mode clause).content part = draft.content part := by
  cases part with
  | group other place =>
    refine (get_clauses_add draft family other mode place clause).trans (if_neg ?_)
    rintro ⟨rfl, rfl⟩
    exact h rfl
  | _ => cases family <;> rfl

theorem content_add_congr {d e : Draft} {family : Family} {mode : Mode}
    (h : d.content (.group family mode) = e.content (.group family mode)) (clause : Clause) :
    (d.add family mode clause).content (.group family mode) =
      (e.add family mode clause).content (.group family mode) := by
  have hlast : ∀ draft : Draft, (draft.add family mode clause).content (.group family mode) =
      (draft.clauses family).get mode ++ [clause] := fun draft =>
    (get_clauses_add draft family family mode mode clause).trans (if_pos ⟨rfl, rfl⟩)
  rw [hlast, hlast]
  exact congrArg (· ++ [clause]) h

end Draft

namespace Step

/-- Whether a step fails, whatever the draft: the steps inside it fail, or a text names no
direction. -/
def rejected : Step → Bool
  | .addNested family _ _ inner => !(run (Draft.fresh (.below family)) inner).isOk
  | .sortText _ text => !(Direction.parse text).isOk
  | _ => false

def concerns : Step → Part → Bool
  | .add family mode _, part => part == .group family mode
  | .addNested family mode _ _, part => part == .group family mode
  | .base _, part => part == .base
  | .rawOption _ _, part => part == .rawOptions
  | .sortText _ _, part => part == .sort
  | .sortBy _ _, part => part == .sort
  | .size _, part => part == .size
  | .offset _, part => part == .offset
  | .threshold family _, part => part == .threshold family
  | .reset, part => part != .base
  | .resetClauses family, part => Mode.all.any fun mode => part == .group family mode
  | .resetRawOptions, part => part == .rawOptions
  | .resetSort, part => part == .sort

/-- Whether a step touches a part. A step that is rejected touches none. -/
def touches (step : Step) (part : Part) : Bool := !step.rejected && step.concerns part

section Rejection

variable {family : Family} {mode : Mode} {clause : Clause} {inner : List Step}

theorem rejected_addNested {e : DraftError}
    (h : run (Draft.fresh (.below family)) inner = .error e) :
    (addNested family mode clause inner).rejected = true := by
  simp [rejected, h, Except.isOk, Except.toBool]

theorem exists_run_of_not_rejected (h : (addNested family mode clause inner).rejected = false) :
    ∃ child, run (Draft.fresh (.below family)) inner = .ok child := by
  cases hrun : run (Draft.fresh (.below family)) inner with
  | ok child => exact ⟨child, rfl⟩
  | error e => simp [rejected_addNested hrun] at h

theorem exists_direction_of_not_rejected {field text : String}
    (h : (sortText field text).rejected = false) :
    ∃ direction, Direction.parse text = .ok direction := by
  cases hparse : Direction.parse text with
  | ok direction => exact ⟨direction, rfl⟩
  | error e => simp [rejected, hparse, Except.isOk, Except.toBool] at h

theorem perform_addNested {child : Draft}
    (h : run (Draft.fresh (.below family)) inner = .ok child) (draft : Draft) :
    perform draft (.addNested family mode clause inner) =
      draft.add family mode (clause.owning child) := by
  simp [perform, apply, h, bind, Except.bind]

theorem perform_sortText {field text : String} {direction : Direction}
    (h : Direction.parse text = .ok direction) (draft : Draft) :
    perform draft (.sortText field text) = draft.sortBy field direction := by
  simp [perform, apply, h, bind, Except.bind]

/-- A step is rejected exactly if it fails, on one draft or on another. -/
theorem rejected_iff {step : Step} {draft : Draft} :
    step.rejected = true ↔ ∃ e, apply draft step = .error e := by
  cases step with
  | addNested family mode clause inner =>
    cases hrun : run (Draft.fresh (.below family)) inner <;>
      simp [rejected, apply, hrun, bind, Except.bind, Except.isOk, Except.toBool]
  | sortText field text =>
    cases hparse : Direction.parse text <;>
      simp [rejected, apply, hparse, bind, Except.bind, Except.isOk, Except.toBool]
  | _ => simp [rejected, apply]

theorem perform_of_rejected {step : Step} (h : step.rejected = true) (draft : Draft) :
    perform draft step = draft := by
  obtain ⟨e, he⟩ := rejected_iff.1 h
  rw [perform, he]

end Rejection

/-- A step leaves a draft at its place. -/
theorem placement_perform (draft : Draft) (step : Step) :
    (perform draft step).placement = draft.placement := by
  cases hstep : apply draft step with
  | ok changed =>
    rw [perform, hstep]
    exact (apply_ok hstep).placement
  | error e => rw [perform, hstep]

/-- A step leaves a part as it is that it does not touch. -/
theorem content_perform_untouched {step : Step} {part : Part} (h : step.touches part = false)
    (draft : Draft) : (perform draft step).content part = draft.content part := by
  cases hrejected : step.rejected with
  | true => rw [perform_of_rejected hrejected]
  | false =>
    have hother : step.concerns part = false := by simpa [touches, hrejected] using h
    cases step with
    | add family mode clause =>
      exact Draft.content_add_of_ne (by simpa [concerns] using hother) draft clause
    | addNested family mode clause inner =>
      obtain ⟨child, hchild⟩ := exists_run_of_not_rejected hrejected
      rw [perform_addNested hchild]
      exact Draft.content_add_of_ne (by simpa [concerns] using hother) draft _
    | sortText field text =>
      obtain ⟨direction, hdirection⟩ := exists_direction_of_not_rejected hrejected
      rw [perform_sortText hdirection]
      cases part <;> first | rfl | simp [concerns] at hother
    | threshold family count =>
      cases part with
      | threshold other =>
        cases family <;> cases other <;> first | rfl | simp [concerns] at hother
      | _ => cases family <;> rfl
    | resetClauses family =>
      cases part with
      | group other mode =>
        have hfamily : other ≠ family := by
          rintro rfl
          cases mode <;> simp [concerns, Mode.all] at hother
        exact (Draft.get_clauses_resetClauses draft family other mode).trans (if_neg hfamily)
      | _ => cases family <;> rfl
    | _ => cases part <;> first | rfl | simp [concerns] at hother

/-- What a step makes of a part depends on what is in that part alone. -/
theorem content_perform_congr {d e : Draft} {part : Part}
    (h : d.content part = e.content part) (step : Step) :
    (perform d step).content part = (perform e step).content part := by
  cases htouches : step.touches part with
  | false => rw [content_perform_untouched htouches, content_perform_untouched htouches, h]
  | true =>
    obtain ⟨hrejected, hpart⟩ : step.rejected = false ∧ step.concerns part = true := by
      simpa [touches] using htouches
    cases step with
    | add family mode clause =>
      obtain rfl : part = .group family mode := by simpa [concerns] using hpart
      exact Draft.content_add_congr h clause
    | addNested family mode clause inner =>
      obtain rfl : part = .group family mode := by simpa [concerns] using hpart
      obtain ⟨child, hchild⟩ := exists_run_of_not_rejected hrejected
      rw [perform_addNested hchild, perform_addNested hchild]
      exact Draft.content_add_congr h _
    | rawOption key value =>
      obtain rfl : part = .rawOptions := by simpa [concerns] using hpart
      exact congrArg (· ++ [(key, value)]) h
    | sortText field text =>
      obtain rfl : part = .sort := by simpa [concerns] using hpart
      obtain ⟨direction, hdirection⟩ := exists_direction_of_not_rejected hrejected
      rw [perform_sortText hdirection, perform_sortText hdirection]
      exact congrArg (SortOrder.set · field direction) h
    | sortBy field direction =>
      obtain rfl : part = .sort := by simpa [concerns] using hpart
      exact congrArg (SortOrder.set · field direction) h
    | threshold family count =>
      obtain rfl : part = .threshold family := by simpa [concerns] using hpart
      cases family <;> rfl
    | resetClauses family =>
      obtain ⟨mode, -, rfl⟩ : ∃ mode ∈ Mode.all, part = .group family mode := by
        simpa [concerns] using hpart
      cases family <;> cases mode <;> rfl
    | _ => cases part <;> first | rfl | simp [concerns] at hpart

section Run

theorem performAll_cons (draft : Draft) (step : Step) (rest : List Step) :
    performAll draft (step :: rest) = performAll (perform draft step) rest := rfl

theorem performAll_append (draft : Draft) (steps more : List Step) :
    performAll draft (steps ++ more) = performAll (performAll draft steps) more :=
  List.foldl_append

theorem placement_performAll (draft : Draft) (steps : List Step) :
    (performAll draft steps).placement = draft.placement := by
  induction steps generalizing draft with
  | nil => rfl
  | cons step rest ih => rw [performAll_cons, ih, placement_perform]

/-- What is in a part after a run is what the steps that touch it leave there. -/
theorem content_performAll {d e : Draft} {part : Part} (h : d.content part = e.content part)
    (steps : List Step) :
    (performAll d steps).content part =
      (performAll e (steps.filter (touches · part))).content part := by
  induction steps generalizing d e with
  | nil => exact h
  | cons step rest ih =>
    cases htouches : step.touches part with
    | true =>
      simp only [List.filter_cons, htouches, if_true, performAll_cons]
      exact ih (content_perform_congr h step)
    | false =>
      simp only [List.filter_cons, htouches, Bool.false_eq_true, if_false, performAll_cons]
      exact ih ((content_perform_untouched htouches d).trans h)

def newBase? : Step → Option Object
  | .base object => some object
  | _ => none

def lastBase (steps : List Step) : Object := (steps.filterMap newBase?).getLast?.getD []

theorem touches_base {step : Step} (h : step.newBase? = none) : step.touches .base = false := by
  cases step with
  | base object => simp [newBase?] at h
  | _ => simp [touches, concerns]

theorem base_perform (draft : Draft) (step : Step) :
    (perform draft step).base = step.newBase?.getD draft.base := by
  cases hbase : step.newBase? with
  | none => exact content_perform_untouched (touches_base hbase) draft
  | some object =>
    obtain rfl : step = .base object := by cases step <;> simp_all [newBase?]
    rfl

theorem base_performAll (draft : Draft) (steps : List Step) :
    (performAll draft steps).base = (steps.filterMap newBase?).getLast?.getD draft.base := by
  induction steps generalizing draft with
  | nil => rfl
  | cons step rest ih =>
    rw [performAll_cons, ih, base_perform, List.filterMap_cons]
    cases step.newBase? with
    | none => rfl
    | some object => simp [List.getLast?_cons]

/-- Two runs from fresh drafts leave the same draft, and so the same request or error, if
every part meets the same steps in the same order. A run that is cut by a reset leaves what
the steps behind the cut make of a fresh draft with the last base before it. -/
theorem performAll_by_parts (placement : Placement) :
    (∀ steps others : List Step,
      (∀ part, steps.filter (touches · part) = others.filter (touches · part)) →
        performAll (Draft.fresh placement) steps = performAll (Draft.fresh placement) others ∧
          (performAll (Draft.fresh placement) steps).render =
            (performAll (Draft.fresh placement) others).render) ∧
      ∀ before after : List Step,
        performAll (Draft.fresh placement) (before ++ .reset :: after) =
          performAll ((Draft.fresh placement).withBase (lastBase before)) after := by
  constructor
  · intro steps others hparts
    have hsame : performAll (Draft.fresh placement) steps =
        performAll (Draft.fresh placement) others := by
      refine Draft.eq_of_content (by simp only [placement_performAll]) fun part => ?_
      rw [content_performAll rfl steps, content_performAll rfl others, hparts part]
    exact ⟨hsame, by rw [hsame]⟩
  · intro before after
    have hcut : perform (performAll (Draft.fresh placement) before) .reset =
        (Draft.fresh placement).withBase (lastBase before) := by
      have hbase := base_performAll (Draft.fresh placement) before
      have hplace := placement_performAll (Draft.fresh placement) before
      change Draft.reset _ = _
      rw [Draft.reset, hbase, hplace]
      rfl
    rw [performAll_append, performAll_cons, hcut]

/-- A run with a base, two raw options and a size between the additions, and a direction
that is none in the steps of its own. -/
def scattered : List Step :=
  [.rawOption "a" (.int 1), .base (Keyed.single "b" .null), .sortText "day" "sideways",
    .addNested .filter .or { kind := "nested" } [.add .filter .and { kind := "exists" }],
    .size 5, .rawOption "a" (.int 2)]

def collected : List Step :=
  [.size 5, .addNested .query .and { kind := "bool" } [.sortText "day" "sideways"],
    .addNested .filter .or { kind := "nested" } [.add .filter .and { kind := "exists" }],
    .base (Keyed.single "b" .null), .rawOption "a" (.int 1), .rawOption "a" (.int 2)]

theorem performAll_by_parts_scattered :
    (∀ part, scattered.filter (touches · part) = collected.filter (touches · part)) ∧
      performAll (Draft.fresh .root) scattered = performAll (Draft.fresh .root) collected ∧
      performAll (Draft.fresh .root) (scattered ++ .reset :: collected) =
        performAll ((Draft.fresh .root).withBase (Keyed.single "b" .null)) collected := by
  have hparse : (Direction.parse "sideways").isOk = false := by decide +kernel
  have hwrong : ∀ part, touches (.sortText "day" "sideways") part = false := by
    simp [touches, rejected, hparse]
  have hinside : ∀ part, touches (.addNested .query .and { kind := "bool" }
      [.sortText "day" "sideways"]) part = false := by
    have hrejected : (sortText "day" "sideways").rejected = true := by simp [rejected, hparse]
    obtain ⟨e, he⟩ : ∃ e, apply (Draft.fresh .inQuery) (sortText "day" "sideways") = .error e :=
      rejected_iff.1 hrejected
    have hrun : run (Draft.fresh (.below .query)) [.sortText "day" "sideways"] = .error e := by
      simp [run, Placement.below, he, bind, Except.bind]
    intro part
    rw [touches, rejected_addNested hrun, Bool.not_true, Bool.false_and]
  have hparts : ∀ part,
      scattered.filter (touches · part) = collected.filter (touches · part) := by
    intro part
    simp only [scattered, collected, List.filter_cons, List.filter_nil, hwrong, hinside,
      Bool.false_eq_true, if_false]
    cases part with
    | group family mode => cases family <;> cases mode <;> rfl
    | threshold family => cases family <;> rfl
    | _ => rfl
  obtain ⟨hmixed, hreset⟩ := performAll_by_parts .root
  exact ⟨hparts, (hmixed scattered collected hparts).1, hreset scattered collected⟩

end Run

end Step

end SearchQuery
