import Mathlib.Data.List.Induction
import SearchQuery.Proofs.Drafting
import SearchQuery.Proofs.Parts
import SearchQuery.Proofs.RootEntries

/-!
What a run of steps leaves of the sort fields. A step gives one field a direction, takes all
fields back or leaves them alone, and a text that names no direction is an error and changes
nothing. So the fields after a run are those that were set after they were last taken back, in
the order in which they were first set, each with the direction that it was given last. A root
request shows them in this order.
-/
namespace SearchQuery

namespace Step

def clearsSort : Step → Bool
  | .reset => true
  | .resetSort => true
  | _ => false

def sortSetting? : Step → Option (String × Direction)
  | .sortBy field direction => some (field, direction)
  | .sortText field text => (Direction.named? text).map fun direction => (field, direction)
  | _ => none

/-- The directions that are given after the sort fields were last taken back, in order. -/
def sortSettings (steps : List Step) : List (String × Direction) :=
  (steps.reverse.takeWhile fun step => !step.clearsSort).reverse.filterMap sortSetting?

theorem sortSettings_append_singleton (steps : List Step) (step : Step) :
    sortSettings (steps ++ [step]) =
      if step.clearsSort then [] else sortSettings steps ++ step.sortSetting?.toList := by
  rw [sortSettings, List.reverse_append, List.reverse_singleton, List.singleton_append,
    List.takeWhile_cons]
  cases step.clearsSort with
  | true => rfl
  | false =>
    cases hsetting : step.sortSetting? <;> simp [sortSettings, hsetting]

theorem apply_sortText (draft : Draft) (field text : String) :
    apply draft (.sortText field text) = match Direction.named? text with
      | some direction => .ok (draft.sortBy field direction)
      | none => .error (Direction.unnamed text) := by
  rw [apply, Direction.parse_eq]
  cases Direction.named? text <;> rfl

/-- A step takes the sort fields back, or writes the setting that it makes over them. -/
theorem sort_perform (draft : Draft) (step : Step) :
    (perform draft step).sort =
      if step.clearsSort then [] else Keyed.extend draft.sort step.sortSetting?.toList := by
  have huntouched : step.touches .sort = false → (perform draft step).sort = draft.sort :=
    fun h => content_perform_untouched h draft
  cases step with
  | sortText field text =>
    have hsetting : (sortText field text).sortSetting? =
        (Direction.named? text).map fun direction => (field, direction) := rfl
    rw [perform, apply_sortText, hsetting]
    cases Direction.named? text <;> rfl
  | sortBy field direction => rfl
  | reset => rfl
  | resetSort => rfl
  | _ => exact huntouched (by simp [touches, concerns])

/-- The sort fields after a run are its last settings of each field, in the order of the
first ones. -/
theorem sort_performAll_eq (placement : Placement) (steps : List Step) :
    (performAll (Draft.fresh placement) steps).sort = Keyed.settled (sortSettings steps) := by
  rw [← Keyed.distinct_eq_settled]
  induction steps using List.reverseRecOn with
  | nil => rfl
  | append_singleton steps step ih =>
    have hlast : performAll (Draft.fresh placement) (steps ++ [step]) =
        perform (performAll (Draft.fresh placement) steps) step := performAll_append _ _ _
    rw [hlast, sort_perform, sortSettings_append_singleton, ih]
    cases step.clearsSort with
    | true => rfl
    | false => exact (Keyed.extend_append [] (sortSettings steps) step.sortSetting?.toList).symm

end Step

theorem Direction.named?_eq_none {text : String} (hasc : sameLetters text "asc" = false)
    (hdesc : sameLetters text "desc" = false) : named? text = none := by
  rw [← Option.isNone_iff_eq_none, ← Option.isSome_eq_false_iff, ← Bool.not_eq_true,
    isSome_named?_iff, hasc, hdesc]
  simp

/-- A root request shows the sort fields of its draft, if there are any. -/
theorem Draft.get?_sort {draft : Draft} (hroot : draft.placement = .root) {object : Object}
    (h : draft.render = .ok object) (hsort : draft.sort ≠ []) :
    object.get? "sort" = some draft.sort.toValue := by
  obtain ⟨hasBool, request, -, -, -, hfinish⟩ := withClauses_of_render h
  rw [finish_root hroot] at hfinish
  obtain rfl := Except.ok.inj hfinish
  have hsetting : draft.setting? "sort" = some draft.sort.toValue := by
    rw [setting?, if_pos rfl, if_neg (by simpa using hsort)]
  rw [Keyed.extend_append, Keyed.get?_extend, last?_settings, hsetting, Option.some_or]

namespace Step

/-- Whatever the steps of a run, the sort fields that it leaves are distinct; they are those
that were set after they were last taken back, where they were first set and with the direction
that they were given last. A text that is neither of the two directions in any letter case is
an error and changes nothing. A root request shows the fields as an array of one object for
each. -/
theorem sort_performAll (placement : Placement) (steps : List Step) :
    let draft := performAll (Draft.fresh placement) steps
    draft.sort = Keyed.settled (sortSettings steps) ∧ (Keyed.keys draft.sort).Nodup ∧
      (∀ field text, sameLetters text "asc" = false → sameLetters text "desc" = false →
        apply draft (.sortText field text) = .error (.invalidArgument
          ("direction must be 'asc' or 'desc', got '" ++ text ++ "'")) ∧
        perform draft (.sortText field text) = draft) ∧
      (placement = .root → draft.sort ≠ [] → ∀ object, draft.render = .ok object →
        object.get? "sort" = some (.array (draft.sort.map fun field =>
          .object [(field.1, .string field.2.name)]))) := by
  intro draft
  have hsort : draft.sort = Keyed.settled (sortSettings steps) :=
    sort_performAll_eq placement steps
  refine ⟨hsort, ?_, ?_, ?_⟩
  · rw [hsort, ← Keyed.distinct_eq_settled]
    exact Keyed.nodup_keys_distinct _
  · intro field text hasc hdesc
    have happly : apply draft (.sortText field text) = .error (Direction.unnamed text) := by
      rw [apply_sortText, Direction.named?_eq_none hasc hdesc]
    exact ⟨happly, by rw [perform, happly]⟩
  · intro hroot hsome object hobject
    have hplace : draft.placement = .root := (placement_performAll _ _).trans hroot
    exact Draft.get?_sort hplace hobject hsome

def sortedAgain : List Step :=
  [.sortBy "day" .asc, .sortBy "id" .asc, .resetSort, .sortText "id" "DESC",
    .sortText "id" "down", .sortBy "day" .desc, .sortText "id" "Asc"]

theorem sort_performAll_sortedAgain :
    (performAll (Draft.fresh .root) sortedAgain).sort = [("id", .asc), ("day", .desc)] ∧
      perform (Draft.fresh .root) (.sortText "id" "down") = Draft.fresh .root ∧
      ∃ object, (performAll (Draft.fresh .root) sortedAgain).render = .ok object ∧
        object.get? "sort" = some (.array [.object [("id", .string "asc")],
          .object [("day", .string "desc")]]) := by
  have hnamed : Direction.named? "DESC" = some .desc ∧ Direction.named? "Asc" = some .asc ∧
      Direction.named? "down" = none := by decide
  have hdraft : performAll (Draft.fresh .root) sortedAgain =
      { sort := [("id", .asc), ("day", .desc)] } := by
    simp only [sortedAgain, performAll, List.foldl_cons, List.foldl_nil, perform, apply_sortText,
      hnamed]
    rfl
  obtain ⟨hsort, -, -, hshown⟩ := sort_performAll .root sortedAgain
  obtain ⟨-, -, hrejected, -⟩ := sort_performAll .root []
  have hfields : Keyed.settled (sortSettings sortedAgain) = [("id", .asc), ("day", .desc)] := by
    decide
  rw [hfields] at hsort
  refine ⟨hsort, (hrejected "id" "down" (by decide) (by decide)).2, ?_⟩
  obtain ⟨object, hobject⟩ : ∃ object,
      (performAll (Draft.fresh .root) sortedAgain).render = .ok object := ⟨_, by rw [hdraft]; rfl⟩
  have hget := hshown rfl (by rw [hsort]; simp) object hobject
  rw [hsort] at hget
  exact ⟨object, hobject, hget⟩

end Step

end SearchQuery
