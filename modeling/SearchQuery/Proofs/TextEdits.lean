import SearchQuery.Proofs.JsonLayouts
import SearchQuery.Proofs.RecordChanges

/-!
Edits of a text at a record of its spec. What an edited text says is what the text says with a
change at the record, if the record can be read at all: an object is no object if one of its keys
is no text or if it is nested too deep, whatever else is in it. So an edit that keeps the reading
of a record keeps that of the text, and one that has it refused has the text refused.
-/
namespace SearchQuery

namespace Json

/-- Either all keys of an object are texts, or one of them is none. -/
theorem exists_textEntries (entries : List (Option String × Datum)) :
    (∃ found : List (String × Datum), entries = found.map textEntry) ∨
      none ∈ entries.map (·.1) := by
  induction entries with
  | nil => exact .inl ⟨[], rfl⟩
  | cons entry rest ih =>
    obtain ⟨_ | key, datum⟩ := entry
    · exact .inr (by simp)
    · rcases ih with ⟨found, rfl⟩ | hnone
      · exact .inl ⟨(key, datum) :: found, rfl⟩
      · exact .inr (List.mem_cons_of_mem _ hnone)

theorem objectOf_of_none {entries : List (Option String × Datum)}
    (h : none ∈ entries.map (·.1)) : objectOf entries = .fault := by
  have hentries : entries.mapM (fun entry => entry.1.map fun key => (key, entry.2)) = none := by
    induction entries with
    | nil => cases h
    | cons entry rest ih =>
      obtain ⟨_ | key, datum⟩ := entry
      · rfl
      · simp [ih (by simpa using h)]
  rw [objectOf, hentries]

/-- Either the keys around some entries are all texts, and the object has the entries in their
middle, or it is a fault, whatever stands in the middle. -/
theorem objectOf_around (front back : List (Option String × Datum)) :
    (∃ front' back', front = front'.map textEntry ∧ back = back'.map textEntry ∧
      ∀ middle, objectOf (front ++ (middle.map textEntry ++ back)) =
        .object (front' ++ (middle ++ back'))) ∨
      ∀ middle, objectOf (front ++ (middle ++ back)) = .fault := by
  rcases exists_textEntries front with ⟨front', rfl⟩ | hnone
  · rcases exists_textEntries back with ⟨back', rfl⟩ | hnone
    · refine .inl ⟨front', back', rfl, rfl, fun middle => ?_⟩
      rw [← List.map_append, ← List.map_append, objectOf_textEntry]
    · refine .inr fun middle => objectOf_of_none ?_
      rw [List.map_append, List.map_append]
      exact List.mem_append_right _ (List.mem_append_right _ hnone)
  · refine .inr fun middle => objectOf_of_none ?_
    rw [List.map_append]
    exact List.mem_append_left _ hnone

end Json

open Datum Json

theorem Place.refusedAt_fault (place : Place) : RefusedAt place .fault where
  not_isWord := by rintro (h | h | h) <;> cases h
  read := by cases place <;> rfl

namespace Datum

variable {Change : Place → Datum → Datum → Prop} {place : Place}

/-- Whether what is said at a place is changed there, or is left as it is and cannot be read. -/
def ChangedOrRefused (Change : Place → Datum → Datum → Prop) (place : Place)
    (before after : Datum) : Prop :=
  after = before ∧ RefusedAt place before ∨ Changed Change place before after

theorem changedOrRefused_fault (place : Place) : ChangedOrRefused Change place .fault .fault :=
  .inl ⟨rfl, place.refusedAt_fault⟩

/-- What is nested too deep cannot be read. -/
theorem ChangedOrRefused.atDepth {before after : Datum}
    (h : ChangedOrRefused Change place before after) (depth : Nat) :
    ChangedOrRefused Change place (Json.atDepth depth before) (Json.atDepth depth after) := by
  rw [Json.atDepth, Json.atDepth]
  split
  · exact h
  · exact changedOrRefused_fault place

end Datum

namespace Json.Layout.Edited

variable {Edit : Place → Nat → Layout → Layout → Prop} {Change : Place → Datum → Datum → Prop}
  {place : Place} {depth : Nat} {before after : Layout}

/-- What an edited text says at a place is a change of what the text says, unless that cannot be
read. -/
theorem changedOrRefused
    (hedit : ∀ {place depth before after}, Edit place depth before after →
      ChangedOrRefused Change place (before.datum depth) (after.datum depth))
    (h : Edited Edit place depth before after) :
    ChangedOrRefused Change place (before.datum depth) (after.datum depth) := by
  induction h with
  | here h => exact hedit h
  | alone hone hread _ ih =>
    rcases ih with ⟨-, hrefused⟩ | hchanged
    · rw [hrefused.read] at hread
      cases hread
    · exact .inr (.alone hone hread hchanged)
  | @item place one depth blanks front back before after hitem hlist _ ih =>
    simp only [datum_array, List.map_append, List.map_cons] at hlist ⊢
    rw [atDepth] at hlist
    split at hlist
    · rcases ih with ⟨-, hrefused⟩ | hchanged
      · have hbefore := isSome_item hlist (show before.datum (depth + 1) ∈ _ by simp)
        rw [hrefused.read] at hbefore
        cases hbefore
      · exact ChangedOrRefused.atDepth (.inr (.item _ _ hitem hlist hchanged)) depth
    · cases hlist
  | @entry place part depth blanks token key front back before after hkey hpart _ ih =>
    have hentries : ∀ layout, (front ++ (token, layout) :: back).map (entryDatum (depth + 1)) =
        front.map (entryDatum (depth + 1)) ++
          (some key, layout.datum (depth + 1)) :: back.map (entryDatum (depth + 1)) := by
      simp [entryDatum, hkey]
    rw [datum_object, datum_object, hentries, hentries]
    refine ChangedOrRefused.atDepth ?_ depth
    rcases objectOf_around (front.map (entryDatum (depth + 1)))
      (back.map (entryDatum (depth + 1))) with ⟨front', back', -, -, hobject⟩ | hfault
    · have hentry := fun found => hobject [(key, found)]
      simp only [List.map_singleton, textEntry, List.singleton_append] at hentry
      rw [hentry, hentry]
      rcases ih with ⟨hsame, hrefused⟩ | hchanged
      · exact .inl ⟨by rw [hsame], (Place.under_entry hpart front' back').refusedAt hpart hrefused⟩
      · exact .inr (.entry key front' back' hpart hchanged)
    · have hentry := fun found => hfault [(some key, found)]
      simp only [List.singleton_append] at hentry
      rw [hentry, hentry]
      exact changedOrRefused_fault place
  | @field place part depth blanks key front back before after hkey hpart _ ih =>
    simp only [datum_array, List.map_append, List.map_cons]
    refine ChangedOrRefused.atDepth ?_ depth
    have hkey' : place.keys[(front.map (datum (depth + 1))).length]? = some key := by
      rwa [List.length_map]
    rcases ih with ⟨hsame, hrefused⟩ | hchanged
    · exact .inl ⟨by rw [hsame], (Place.under_field hkey' _).refusedAt hpart hrefused⟩
    · exact .inr (.field key _ _ hkey' hpart hchanged)

/-- An edited text is a text, where the edit keeps the grammar. -/
theorem isWellFormed
    (hedit : ∀ {place depth before after}, Edit place depth before after →
      before.isWellFormed = true → after.isWellFormed = true)
    (h : Edited Edit place depth before after) (hbefore : before.isWellFormed = true) :
    after.isWellFormed = true := by
  induction h with
  | here h => exact hedit h hbefore
  | alone _ _ _ ih => exact ih hbefore
  | item blanks front back _ _ _ ih =>
    simp only [isWellFormed_array_iff, List.forall_mem_append, List.forall_mem_cons] at hbefore ⊢
    exact ⟨hbefore.1, hbefore.2.1, ih hbefore.2.2.1, hbefore.2.2.2⟩
  | entry blanks token front back _ _ _ ih =>
    simp only [isWellFormed_object_iff, List.forall_mem_append, List.forall_mem_cons] at hbefore ⊢
    exact ⟨hbefore.1, hbefore.2.1, ⟨hbefore.2.2.1.1, ih hbefore.2.2.1.2⟩, hbefore.2.2.2⟩
  | field blanks front back _ _ _ ih =>
    simp only [isWellFormed_array_iff, List.forall_mem_append, List.forall_mem_cons] at hbefore ⊢
    exact ⟨hbefore.1, hbefore.2.1, ih hbefore.2.2.1, hbefore.2.2.2⟩

end Json.Layout.Edited

namespace Spec

/-- The spec of a text is that of what its layout says. -/
theorem parse_json_text {layout : Layout} (h : layout.isWellFormed = true) :
    parse .json layout.text =
      match ofDatum? (layout.datum 0) with
      | some spec => .ok spec
      | none => .error (.malformed .json) := by
  cases hspec : ofDatum? (layout.datum 0) <;> simp [parse, Layout.datum?_text h, hspec]

variable {Edit : Place → Nat → Layout → Layout → Prop} {Change : Place → Datum → Datum → Prop}
  {before after : Layout}

/-- An edit that keeps the reading of a record keeps that of the text. -/
theorem parse_json_edited (hbefore : before.isWellFormed = true)
    (hedit : ∀ {place depth before after}, Edit place depth before after →
      (before.isWellFormed = true → after.isWellFormed = true) ∧
        ChangedOrRefused Change place (before.datum depth) (after.datum depth))
    (hchange : ∀ {place before after}, Change place before after → SameAt place before after)
    (h : Layout.Edited Edit .spec 0 before after) :
    parse .json after.text = parse .json before.text := by
  have hafter := h.isWellFormed (fun h => (hedit h).1) hbefore
  have hread : ofDatum? (after.datum 0) = ofDatum? (before.datum 0) := by
    rcases h.changedOrRefused (fun h => (hedit h).2) with ⟨hsame, -⟩ | hchanged
    · rw [hsame]
    · exact (hchanged.sameAt hchange).read
  rw [parse_json_text hafter, parse_json_text hbefore, hread]

/-- An edit that has a record refused has the text refused. -/
theorem parse_json_refused (hbefore : before.isWellFormed = true)
    (hedit : ∀ {place depth before after}, Edit place depth before after →
      (before.isWellFormed = true → after.isWellFormed = true) ∧
        ChangedOrRefused Change place (before.datum depth) (after.datum depth))
    (hchange : ∀ {place before after}, Change place before after →
      (∃ entries, after = .object entries) ∧ RefusedAt place after)
    (h : Layout.Edited Edit .spec 0 before after) :
    parse .json after.text = .error (.malformed .json) := by
  have hafter := h.isWellFormed (fun h => (hedit h).1) hbefore
  have hread : ofDatum? (after.datum 0) = none := by
    rcases h.changedOrRefused (fun h => (hedit h).2) with ⟨hsame, hrefused⟩ | hchanged
    · rw [hsame]
      exact hrefused.read
    · exact (hchanged.refusedAt hchange).read
  rw [parse_json_text hafter, hread]

end Spec

end SearchQuery
