import SearchQuery.Proofs.Alike
import SearchQuery.Proofs.Assembly
import SearchQuery.Proofs.Nesting

/-!
Writing clauses into objects that are the same up to the order of keys. Every step from
the base of a draft to its request object takes alike objects to alike ones, or stops with
the same error on both sides.
-/
namespace SearchQuery

section Agree

variable {α β γ δ : Type} {r : α → β → Prop} {s : γ → δ → Prop}

def Agree (r : α → β → Prop) : Except DraftError α → Except DraftError β → Prop
  | .ok a, .ok b => r a b
  | .error e, .error f => e = f
  | _, _ => False

theorem Agree.bind {x : Except DraftError α} {y : Except DraftError β}
    {f : α → Except DraftError γ} {g : β → Except DraftError δ} (h : Agree r x y)
    (hnext : ∀ a b, r a b → Agree s (f a) (g b)) : Agree s (x >>= f) (y >>= g) := by
  cases x with
  | error e =>
    cases y with
    | error f => exact h
    | ok b => exact absurd h id
  | ok a =>
    cases y with
    | error f => exact absurd h id
    | ok b => exact hnext a b h

theorem Agree.map {x : Except DraftError α} {y : Except DraftError β} {f : α → γ} {g : β → δ}
    (h : Agree r x y) (hnext : ∀ a b, r a b → s (f a) (g b)) :
    Agree s (x.map f) (y.map g) := by
  cases x with
  | error e =>
    cases y with
    | error f => exact h
    | ok b => exact absurd h id
  | ok a =>
    cases y with
    | error f => exact absurd h id
    | ok b => exact hnext a b h

/-- Steps that keep the results related, made one after the other. -/
theorem Agree.foldlM {ι : Type} {f : α → ι → Except DraftError α}
    {g : β → ι → Except DraftError β}
    (hstep : ∀ i a b, r a b → Agree r (f a i) (g b i)) (items : List ι) {a : α} {b : β}
    (h : r a b) : Agree r (items.foldlM f a) (items.foldlM g b) := by
  induction items generalizing a b with
  | nil => exact h
  | cons i rest ih =>
    rw [List.foldlM_cons, List.foldlM_cons]
    exact (hstep i a b h).bind fun _ _ hnext => ih hnext

theorem agree_iff {x : Except DraftError α} {y : Except DraftError β} :
    Agree r x y ↔ (∃ a b, x = .ok a ∧ y = .ok b ∧ r a b) ∨ ∃ e, x = .error e ∧ y = .error e := by
  cases x <;> cases y <;> simp [Agree, eq_comm]

end Agree

theorem agree_within {path key : String} {change other : Object → Rendered}
    {parent another : Object} (h : parent.Alike another)
    (hchange : ∀ inner found, Object.Alike inner found →
      Agree Object.Alike (change inner) (other found)) :
    Agree Object.Alike (within path key change parent) (within path key other another) := by
  rw [within_eq, within_eq]
  have hinner := h.objectAt? key
  generalize parent.objectAt? key = x at hinner ⊢
  generalize another.objectAt? key = y at hinner ⊢
  cases hinner with
  | none => rfl
  | some hpair => exact (hchange _ _ hpair).map fun _ _ hchanged => h.insert key hchanged

namespace Slot

variable {f g : Object → Object} (hwrite : ∀ d e, Object.Alike d e → Object.Alike (f d) (g e))

include hwrite

theorem agree_changeFilter {body other : Object} (h : body.Alike other) :
    Agree Object.Alike (changeFilter f body) (changeFilter g other) := by
  have hfilter := h.rel_get? "filter"
  by_cases harray : ∃ values, body.get? "filter" = some (.array values)
  · obtain ⟨values, hvalues⟩ := harray
    rw [hvalues] at hfilter
    obtain ⟨value, hvalue, hpair⟩ := rel_some_left hfilter
    cases hpair.sameKind with
    | array hitems =>
      have hbody := Object.alike_single (hwrite [] [] Object.alike_nil) "bool"
      rw [changeFilter_array hvalues, changeFilter_array hvalue]
      exact h.insert "filter"
        (Value.alike_array_iff.2 (List.rel_append hitems (.cons hbody .nil)))
  · have hleft : ∀ values, body.get? "filter" ≠ some (.array values) :=
      fun values hvalues => harray ⟨values, hvalues⟩
    have hright : ∀ values, other.get? "filter" ≠ some (.array values) := by
      intro values hvalues
      rw [hvalues] at hfilter
      obtain ⟨value, hvalue, hpair⟩ := rel_some_right hfilter
      cases hpair.sameKind with
      | array => exact harray ⟨_, hvalue⟩
    rw [changeFilter_object hleft, changeFilter_object hright]
    refine agree_within h fun outer found houter => ?_
    exact agree_within houter fun inner another hinner => hwrite inner another hinner

theorem agree_change (slot : Slot) {request other : Object} (h : request.Alike other) :
    Agree Object.Alike (slot.change f request) (slot.change g other) := by
  refine agree_within h fun query found hquery => ?_
  cases slot with
  | query => exact hwrite query found hquery
  | queryBool => exact agree_within hquery fun body another hbody => hwrite body another hbody
  | filterBool =>
    exact agree_within hquery fun body another hbody => agree_changeFilter hwrite hbody

end Slot

theorem alike_collapse {objects others : List Object}
    (h : List.Forall₂ Object.Alike objects others) :
    (Draft.collapse objects).Alike (Draft.collapse others) := by
  have harray : (Value.array (objects.map .object)).Alike (.array (others.map .object)) := by
    rw [Value.alike_array_iff, List.forall₂_map_left_iff, List.forall₂_map_right_iff]
    exact h
  match h with
  | .nil => exact harray
  | .cons hone .nil => exact hone
  | .cons _ (.cons _ _) => exact harray

theorem alike_mergeClauses (key : String) {clauses added : Value} (hclauses : clauses.Alike added)
    {target other : Object} (h : target.Alike other) :
    (mergeClauses key clauses target).Alike (mergeClauses key added other) := by
  unfold mergeClauses
  have hpresent := h.rel_get? key
  generalize target.get? key = x at hpresent ⊢
  generalize other.get? key = y at hpresent ⊢
  cases hpresent with
  | none => exact h.insert key hclauses
  | some hpair =>
    exact h.insert key (Value.alike_array_iff.2 (List.rel_append hpair.items hclauses.items))

theorem alike_raiseThreshold (key : String) (threshold : Option Int64) {target other : Object}
    (h : target.Alike other) :
    (raiseThreshold key threshold target).Alike (raiseThreshold key threshold other) := by
  have harray : (target.get? "should").any Value.isArray =
      (other.get? "should").any Value.isArray := by
    have hshould := h.rel_get? "should"
    generalize target.get? "should" = x at hshould ⊢
    generalize other.get? "should" = y at hshould ⊢
    cases hshould with
    | none => rfl
    | some hpair => exact hpair.isArray_eq
  unfold raiseThreshold
  cases threshold with
  | none => exact h
  | some count =>
    simp only [harray]
    split
    · exact h.insert "minimum_should_match" (Value.distinct_int count.toInt).alike
    · exact h

namespace Draft

theorem agree_collect {group others : List Rendered}
    (h : List.Forall₂ (Agree Object.Alike) group others) :
    Agree (List.Forall₂ Object.Alike) (collect group) (collect others) := by
  unfold collect
  induction h with
  | nil => exact .nil
  | cons hhead _ ih =>
    rw [List.mapM_cons, List.mapM_cons]
    refine hhead.bind fun object other hobject => ?_
    exact ih.bind fun objects others hobjects => .cons hobject hobjects

end Draft

namespace Clause

theorem alike_nestedBody (kind : String) {child other : Object} (h : child.Alike other) :
    (nestedBody kind child).Alike (nestedBody kind other) := by
  by_cases hkind : kind = "bool"
  · subst hkind
    have hinner := h.rel_get? "bool"
    unfold nestedBody
    simp only [if_true]
    generalize child.get? "bool" = x at hinner ⊢
    generalize other.get? "bool" = y at hinner ⊢
    cases hinner with
    | none => exact h
    | some hpair =>
      cases hpair.sameKind with
      | object hobjects => exact hobjects
      | _ => exact h
  · rw [nestedBody_of_ne hkind, nestedBody_of_ne hkind, h.hasBoolKeys_eq]
    split
    · exact Object.alike_single (Object.alike_single h "bool") "query"
    · exact Object.alike_single h "query"

end Clause

namespace Draft

theorem agree_nestedResult {request other : Object} (h : request.Alike other) :
    Agree Object.Alike (nestedResult request) (nestedResult other) := by
  unfold nestedResult
  have hquery := h.rel_get? "query"
  generalize request.get? "query" = x at hquery ⊢
  generalize other.get? "query" = y at hquery ⊢
  cases hquery with
  | none => exact h
  | some hpair =>
    cases hpair.sameKind with
    | object hobjects => exact hobjects
    | _ => rfl

theorem baseHasBool_eq {base other : Object} (h : base.Alike other) :
    baseHasBool base = baseHasBool other := by
  unfold baseHasBool
  have hquery := h.rel_get? "query"
  generalize base.get? "query" = x at hquery ⊢
  generalize other.get? "query" = y at hquery ⊢
  cases hquery with
  | none => rfl
  | some hpair =>
    cases hpair.sameKind with
    | object hobjects => simp only [hobjects.contains_eq]
    | _ => rfl

end Draft

end SearchQuery
