import SearchQuery.Proofs.Occurrence
import SearchQuery.Spec.Schema

/-!
One thing and lists of things. A record of a sort field or of a clause starts, where it is an
array, with a text or with the name of a family, and these are no such records themselves. So no
datum is both one record and a list of records, although the two may be arrays of one length.
-/
namespace SearchQuery

namespace Datum

variable {α : Type} {one item : Datum → Option α}

/-- A list is read if all its items are. -/
theorem list?_eq_some {read : Datum → Option α} {items : List Datum} {found : List α} :
    list? read (.array items) = some found ↔ items.map read = found.map some := by
  rw [list?]
  induction items generalizing found with
  | nil => cases found <;> simp
  | cons first rest ih =>
    rw [List.mapM_cons]
    cases found with
    | nil => cases read first <;> cases List.mapM read rest <;> simp
    | cons one others =>
      simp only [List.map_cons, List.cons.injEq, ← ih]
      cases read first <;> cases List.mapM read rest <;> simp

/-- A list of items is read alike with items that are read alike. -/
theorem list?_item {read : Datum → Option α} {before after : Datum}
    (h : read after = read before) (front back : List Datum) :
    list? read (.array (front ++ after :: back)) =
      list? read (.array (front ++ before :: back)) := by
  refine Option.ext fun found => ?_
  rw [list?_eq_some, list?_eq_some]
  simp [h]

/-- An item of a list that is read is read. -/
theorem isSome_item {read : Datum → Option α} {items : List Datum}
    (h : (list? read (.array items)).isSome) {datum : Datum} (hmem : datum ∈ items) :
    (read datum).isSome := by
  obtain ⟨found, hfound⟩ := Option.isSome_iff_exists.1 h
  have hread : read datum ∈ found.map some := list?_eq_some.1 hfound ▸ List.mem_map_of_mem hmem
  obtain ⟨one, -, hone⟩ := List.mem_map.1 hread
  exact hone ▸ rfl

theorem list?_cons_of_none {first : Datum} (h : item first = none) (rest : List Datum) :
    list? item (.array (first :: rest)) = none := by
  rw [list?, List.mapM_cons, h]
  rfl

/-- One thing that stays the same thing is read alike. -/
theorem oneOrMany?_of_same_one {before after : Datum} (hone : (one before).isSome)
    (hsame : one after = one before) (hsound : after.isSound = before.isSound) :
    oneOrMany? one item after = oneOrMany? one item before := by
  obtain ⟨found, hfound⟩ := Option.isSome_iff_exists.1 hone
  rw [oneOrMany?, oneOrMany?, hsame, hsound, hfound]

theorem oneOrMany?_eq_none {datum : Datum} (hone : one datum = none)
    (hlist : list? item datum = none) : oneOrMany? one item datum = none := by
  rw [oneOrMany?, hone, hlist, ite_self]

/-- Whether one thing and a list of things are told apart: an array that is one thing starts with
an item that is none, and a thing that stands alone can be read in a list. -/
structure ToldApart (one item : Datum → Option α) : Prop where
  first : ∀ {items : List Datum}, (one (.array items)).isSome →
    ∃ first rest, items = first :: rest ∧ item first = none
  inList : ∀ {datum : Datum} {found : α}, one datum = some found → item datum = some found

namespace ToldApart

variable (h : ToldApart one item) {datum : Datum}

include h

/-- What is one thing is no list of things. -/
theorem list?_eq_none (hone : (one datum).isSome) : list? item datum = none := by
  cases datum with
  | array items =>
    obtain ⟨first, rest, rfl, hfirst⟩ := h.first hone
    exact list?_cons_of_none hfirst rest
  | _ => rfl

theorem one_eq_none (hlist : (list? item datum).isSome) : one datum = none := by
  refine Option.eq_none_iff_forall_ne_some.2 fun found hone => ?_
  rw [h.list?_eq_none (Option.isSome_of_eq_some hone)] at hlist
  cases hlist

/-- An array that starts with a thing of a list is no thing that stands alone. -/
theorem one_eq_none_of_item {first : Datum} (hfirst : (item first).isSome) (rest : List Datum) :
    one (.array (first :: rest)) = none := by
  refine Option.not_isSome_iff_eq_none.1 fun hone => ?_
  obtain ⟨found, others, hitems, hfound⟩ := h.first hone
  obtain ⟨rfl, -⟩ := List.cons.inj hitems
  rw [hfound] at hfirst
  cases hfirst

/-- A list is read item by item. -/
theorem oneOrMany?_of_list? (hlist : (list? item datum).isSome) (hsound : datum.isSound = true) :
    oneOrMany? one item datum = list? item datum := by
  rw [oneOrMany?, if_pos hsound, h.one_eq_none hlist]

/-- A list that stays the same list is read alike. -/
theorem oneOrMany?_of_same_list {after : Datum} (hlist : (list? item datum).isSome)
    (hsame : list? item after = list? item datum) (hsound : after.isSound = datum.isSound) :
    oneOrMany? one item after = oneOrMany? one item datum := by
  rw [oneOrMany?, oneOrMany?, h.one_eq_none hlist, h.one_eq_none (hsame ▸ hlist), hsame, hsound]

/-- It does not matter which is tried first. -/
theorem oneOrMany?_eq_or : oneOrMany? one item datum =
    if datum.isSound then (list? item datum).or ((one datum).map fun found => [found])
    else none := by
  rw [oneOrMany?]
  split
  · cases hone : one datum with
    | none => rw [Option.map_none, Option.or_none]
    | some found =>
      rw [h.list?_eq_none (Option.isSome_of_eq_some hone), Option.map_some, Option.none_or]
  · rfl

/-- One thing is read as a list of it is. -/
theorem oneOrMany?_singleton (hone : (one datum).isSome) :
    oneOrMany? one item (.array [datum]) = oneOrMany? one item datum := by
  obtain ⟨found, hfound⟩ := Option.isSome_iff_exists.1 hone
  have hlist : list? item (.array [datum]) = some [found] :=
    list?_eq_some.2 (by rw [List.map_singleton, List.map_singleton, h.inList hfound])
  have hsound : (Datum.array [datum]).isSound = datum.isSound := by
    rw [isSound, areSound, areSound, Bool.and_true]
  rw [oneOrMany?, oneOrMany?, hsound, h.one_eq_none (Option.isSome_of_eq_some hlist), hlist, hfound]

end ToldApart

end Datum

namespace SortSpec

theorem exists_items {items : List Datum} (h : (read? (.array items)).isSome) :
    ∃ field direction, items = [.string field, direction] := by
  match items with
  | [] | [_] | _ :: _ :: _ :: _ => simp [read?, Datum.record?, schemaKeys] at h
  | [field, direction] =>
    cases field with
    | string s => exact ⟨s, direction, rfl⟩
    | _ => simp [read?, Datum.record?, schemaKeys, Datum.required, Datum.text?] at h

/-- A sort field is no list of sort fields: it starts with a text. -/
theorem toldApart : Datum.ToldApart read? read? where
  first {items} h := by
    obtain ⟨field, direction, rfl⟩ := exists_items h
    exact ⟨.string field, [direction], rfl, rfl⟩
  inList h := h

end SortSpec

namespace Datum

variable {α : Type} {name : α → String} {choices : List α} {datum : Datum}

/-- A name stands alone or is the one key of an object, and is no text there. -/
theorem exists_name {mayBeEmpty : Bool} (h : (choice? name choices mayBeEmpty datum).isSome) :
    (∃ s, datum = .string s) ∨
      ∃ choice part, datum = .object [(name choice, part)] ∧ ∀ text, part ≠ .string text := by
  have hfind : ∀ {s : String}, (choices.find? fun choice => name choice == s).isSome →
      ∃ choice, name choice = s := by
    intro s hs
    obtain ⟨choice, hchoice⟩ := Option.isSome_iff_exists.1 hs
    exact ⟨choice, by simpa using List.find?_some hchoice⟩
  rw [choice?.eq_def] at h
  split at h
  · exact .inl ⟨_, rfl⟩
  · obtain ⟨choice, rfl⟩ := hfind h
    exact .inr ⟨choice, .null, rfl, by simp⟩
  · split at h
    · obtain ⟨choice, rfl⟩ := hfind h
      exact .inr ⟨choice, .object [], rfl, by simp⟩
    · cases h
  · cases h

/-- A name stands for the same thing where an empty object is allowed. -/
theorem choice?_of_false {found : α} (h : choice? name choices false datum = some found) :
    choice? name choices true datum = some found := by
  rw [choice?.eq_def] at h ⊢
  split at h <;> simp_all

theorem defaulting_of_false {default found : α} {field : Option Datum}
    (h : defaulting default (choice? name choices false) field = some found) :
    defaulting default (choice? name choices true) field = some found := by
  cases field with
  | none => exact h
  | some datum => exact choice?_of_false h

end Datum

namespace ClauseSpec

variable {spec? : Datum → Option Spec}

/-- A clause has a text for its type. -/
theorem exists_kind {inList : Bool} {datum : Datum} (h : (readWith? spec? inList datum).isSome) :
    ∃ fields kind, datum.record? schemaKeys false = some fields ∧
      fields.lookup "type" = some (.string kind) := by
  obtain ⟨clause, hclause⟩ := Option.isSome_iff_exists.1 h
  simp only [readWith?, Option.bind_eq_bind, Option.bind_eq_some_iff] at hclause
  obtain ⟨fields, hfields, family, -, mode, -, kind, hkind, -⟩ := hclause
  obtain ⟨found, hfound, htext⟩ := Option.bind_eq_some_iff.1 hkind
  cases found with
  | string s => exact ⟨fields, s, hfields, hfound⟩
  | _ => cases htext

/-- A clause that is an array starts with its family. -/
theorem exists_family {inList : Bool} {items : List Datum}
    (h : (readWith? spec? inList (.array items)).isSome) :
    ∃ first rest, items = first :: rest ∧ (Family.read? inList first).isSome := by
  obtain ⟨clause, hclause⟩ := Option.isSome_iff_exists.1 h
  simp only [readWith?, Option.bind_eq_bind, Option.bind_eq_some_iff] at hclause
  obtain ⟨fields, hfields, family, hfamily, -⟩ := hclause
  cases items with
  | nil => cases hfields
  | cons first rest =>
    obtain ⟨-, hsome⟩ := Option.ite_none_right_eq_some.1 hfields
    obtain rfl := Option.some.inj hsome
    have hfirst : (schemaKeys.zip (first :: rest)).lookup "family" = some first := rfl
    rw [hfirst, Datum.defaulting] at hfamily
    exact ⟨first, rest, rfl, hfamily ▸ rfl⟩

/-- The name of a family is no clause: it has no text for a type. -/
theorem readWith?_of_family {mayBeEmpty : Bool} {datum : Datum}
    (h : (Family.read? mayBeEmpty datum).isSome) (inList : Bool) :
    readWith? spec? inList datum = none := by
  refine Option.not_isSome_iff_eq_none.1 fun hclause => ?_
  obtain ⟨fields, kind, hfields, hkind⟩ := exists_kind hclause
  rcases Datum.exists_name h with ⟨s, rfl⟩ | ⟨family, part, rfl, hpart⟩
  · cases hfields
  · obtain ⟨-, hsome⟩ := Option.ite_none_right_eq_some.1 hfields
    obtain rfl := Option.some.inj hsome
    have hmem := Keyed.mem_of_get? hkind
    simp only [List.mem_singleton, Prod.mk.injEq] at hmem
    exact hpart kind hmem.2.symm

/-- A clause is no list of clauses: it starts with a family. -/
theorem toldApart (spec? : Datum → Option Spec) :
    Datum.ToldApart (readWith? spec? false) (readWith? spec? true) where
  first {items} h := by
    obtain ⟨first, rest, rfl, hfamily⟩ := exists_family h
    exact ⟨first, rest, rfl, readWith?_of_family hfamily true⟩
  inList {datum found} h := by
    simp only [readWith?, Option.bind_eq_bind, Option.bind_eq_some_iff] at h ⊢
    obtain ⟨fields, hfields, family, hfamily, mode, hmode, hrest⟩ := h
    exact ⟨fields, hfields, family, Datum.defaulting_of_false hfamily, mode,
      Datum.defaulting_of_false hmode, hrest⟩

end ClauseSpec

end SearchQuery
