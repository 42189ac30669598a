import SearchQuery.Proofs.TextEdits

/-!
One record and many records. Sort fields and clauses may be given alone or in a list, and records
may be written as arrays of their fields, so a list has the same outer shape as one record. Still
the two are never confused, and a record that stands alone may as well be the one item of a list,
wherever it is found in a spec or in its text.
-/
namespace SearchQuery

namespace Datum

variable {α : Type} {one item : Datum → Option α}

/-- Whether one thing and a list of things are never confused. Nothing can be read as both, so
that it does not matter which is tried first; a list of things that can be read is read as them,
however many they are; and one thing is read as the list of it. -/
structure NeverConfused (one item : Datum → Option α) : Prop where
  not_both : ∀ datum, ¬ ((one datum).isSome ∧ (list? item datum).isSome)
  either_first : ∀ datum, oneOrMany? one item datum =
    if datum.isSound then (list? item datum).or ((one datum).map fun found => [found]) else none
  item_by_item : ∀ items found, (Datum.array items).isSound → items.map item = found.map some →
    oneOrMany? one item (.array items) = some found
  same_in_list : ∀ datum found, one datum = some found → item datum = some found
  wrapped : ∀ datum, (one datum).isSome →
    oneOrMany? one item (.array [datum]) = oneOrMany? one item datum

theorem ToldApart.neverConfused (h : ToldApart one item) : NeverConfused one item where
  not_both datum := by
    rintro ⟨hone, hlist⟩
    rw [h.list?_eq_none hone] at hlist
    cases hlist
  either_first datum := h.oneOrMany?_eq_or
  item_by_item items found hsound hitems := by
    have hlist := list?_eq_some.2 hitems
    rw [h.oneOrMany?_of_list? (hlist ▸ rfl) hsound, hlist]
  same_in_list datum found := h.inList
  wrapped datum := h.oneOrMany?_singleton

inductive Wrapped : Place → Datum → Datum → Prop
  | wrap {place one : Place} {datum : Datum} : place.alone? = some one →
      (one.read datum).isSome → Wrapped place datum (.array [datum])

theorem Wrapped.sameAt {place : Place} {before after : Datum} (h : Wrapped place before after) :
    SameAt place before after := by
  obtain ⟨hone, hread⟩ := h
  refine ⟨?_, by simp, by simp [isSound, areSound], ?_⟩
  · rintro rfl
    cases place with
    | sorts | clauses =>
      obtain rfl := Option.some.inj hone
      cases hread
    | _ => cases hone
  · cases place with
    | sorts =>
      obtain rfl := Option.some.inj hone
      exact SortSpec.toldApart.oneOrMany?_singleton hread
    | clauses =>
      obtain rfl := Option.some.inj hone
      exact (ClauseSpec.toldApart Spec.ofDatum?).oneOrMany?_singleton hread
    | _ => cases hone

end Datum

namespace Json.Layout

open Datum

/-- What has no fault one level deeper is the same one level higher. -/
theorem datum_eq_of_isSound {layout : Layout} {depth : Nat}
    (h : (layout.datum (depth + 1)).isSound = true) :
    layout.datum depth = layout.datum (depth + 1) := by
  induction layout using parts_induction generalizing depth with
  | scalar token => rfl
  | array blanks items ih =>
    rw [datum_array, atDepth] at h
    split at h
    · next hdepth =>
      have hitems : items.map (datum (depth + 1)) = items.map (datum (depth + 1 + 1)) := by
        refine List.map_congr_left fun item hitem => ih item hitem ?_
        exact areSound_iff.1 h _ (List.mem_map_of_mem hitem)
      rw [datum_array, datum_array, hitems, atDepth, atDepth, if_pos hdepth,
        if_pos (Nat.lt_of_succ_lt hdepth)]
    · cases h
  | object blanks entries ih =>
    rw [datum_object, atDepth] at h
    split at h
    · next hdepth =>
      have hentries : entries.map (entryDatum (depth + 1)) =
          entries.map (entryDatum (depth + 1 + 1)) := by
        rcases exists_textEntries (entries.map (entryDatum (depth + 1 + 1))) with
          ⟨found, hfound⟩ | hnone
        · rw [hfound, objectOf_textEntry] at h
          refine List.map_congr_left fun entry hentry => ?_
          have hmem : entryDatum (depth + 1 + 1) entry ∈ found.map textEntry :=
            hfound ▸ List.mem_map_of_mem hentry
          obtain ⟨one, hone, hsame⟩ := List.mem_map.1 hmem
          have hsound := entriesSound_iff.1 h one hone
          have hdatum : one.2 = entry.2.datum (depth + 1 + 1) := (Prod.mk.inj hsame).2
          rw [entryDatum, entryDatum, ih entry hentry (hdatum ▸ hsound)]
        · rw [objectOf_of_none hnone] at h
          cases h
      rw [datum_object, datum_object, hentries, atDepth, atDepth, if_pos hdepth,
        if_pos (Nat.lt_of_succ_lt hdepth)]
    · cases h

inductive Wrapped : Place → Nat → Layout → Layout → Prop
  | wrap {place one : Place} {depth : Nat} {layout : Layout} (blanks : Blanks) :
      blanks.areBlank = true → place.alone? = some one → (one.read (layout.datum depth)).isSome →
      ((array blanks [layout]).datum depth).isSound →
      Wrapped place depth layout (.array blanks [layout])

theorem Wrapped.edit {place : Place} {depth : Nat} {before after : Layout}
    (h : Wrapped place depth before after) :
    (before.isWellFormed = true → after.isWellFormed = true) ∧
      ChangedOrRefused Datum.Wrapped place (before.datum depth) (after.datum depth) := by
  obtain ⟨blanks, hblanks, hone, hread, hsound⟩ := h
  refine ⟨fun hbefore => isWellFormed_array_iff.2 ⟨hblanks, by simpa using hbefore⟩, .inr ?_⟩
  rw [datum_array, List.map_singleton, atDepth] at hsound ⊢
  split at hsound
  · next hdepth =>
    have hitem : (before.datum (depth + 1)).isSound = true := by
      simpa [isSound, areSound] using hsound
    rw [if_pos hdepth, ← datum_eq_of_isSound hitem]
    exact .here (.wrap hone hread)
  · cases hsound

end Json.Layout

namespace Spec

open Json

/-- One record and many records are never confused, and it makes no difference to a spec whether
a record stands alone or in a list of its own. -/
theorem records_never_confused :
    Datum.NeverConfused SortSpec.read? SortSpec.read? ∧
      Datum.NeverConfused (ClauseSpec.ofDatum? false) (ClauseSpec.ofDatum? true) ∧
      (∀ before after, Datum.Changed Datum.Wrapped .spec before after →
        ofDatum? after = ofDatum? before) ∧
      ∀ before after : Layout, before.isWellFormed = true →
        Layout.Edited Layout.Wrapped .spec 0 before after →
        parse .json after.text = parse .json before.text := by
  have hclause := (ClauseSpec.toldApart ofDatum?).neverConfused
  refine ⟨SortSpec.toldApart.neverConfused, hclause, ?_, ?_⟩
  · intro before after hchanged
    exact (hchanged.sameAt Datum.Wrapped.sameAt).read
  · intro before after hbefore hedited
    exact parse_json_edited hbefore Layout.Wrapped.edit Datum.Wrapped.sameAt hedited

/-- A sort field as an array, which has as many items as a list of two sort fields. -/
def positionalSort : Layout := .array {} [.scalar (.bare "\"day\""), .scalar (.bare "null")]

def carryingSort (sort : Layout) : Layout :=
  .object {} [(.bare "\"clause\"", .array {} [.object {} [
    (.bare "\"type\"", .scalar (.bare "\"nested\"")),
    (.bare "\"nested\"", .object {} [(.bare "\"sort\"", sort)])]])]

theorem records_never_confused_positionalSort :
    parse .json (carryingSort (.array {} [positionalSort])).text =
        parse .json (carryingSort positionalSort).text ∧
      parse .json (carryingSort positionalSort).text =
        .ok { clauses := [{ kind := "nested", nested := some { sort := [⟨"day", none⟩] } }] } ∧
      Datum.oneOrMany? SortSpec.read? SortSpec.read? (.array [positionalSort.datum 0,
        positionalSort.datum 0]) = some [⟨"day", none⟩, ⟨"day", none⟩] := by
  obtain ⟨hsort, -, -, htext⟩ := records_never_confused
  have hbefore : (carryingSort positionalSort).isWellFormed = true := by decide
  refine ⟨htext _ _ hbefore ?_, ?_, hsort.item_by_item _ _ (by decide) rfl⟩
  · have hwrapped : Layout.Wrapped .sorts 4 positionalSort (.array {} [positionalSort]) :=
      .wrap {} rfl rfl (by decide) (by decide)
    exact .entry {} _ [] [] rfl rfl (.item {} [] [] rfl (by decide)
      (.entry {} _ [_] [] rfl rfl (.entry {} _ [] [] rfl rfl (.here hwrapped))))
  · rw [parse_json_text hbefore]
    rfl

end Spec

end SearchQuery
