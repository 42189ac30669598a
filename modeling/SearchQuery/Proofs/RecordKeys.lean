import SearchQuery.Proofs.SortedKeys
import SearchQuery.Proofs.TextEdits

/-!
The keys of records. The readers look fields up by their keys, so the order of the entries of a
record does not matter, nor do entries under other keys; but a known key that is repeated is an
error. This holds for every record of a spec wherever it is found, up to the text of the spec.
-/
namespace SearchQuery

namespace Datum

/-- Whether the entries of a record are put in another order, or a datum without faults is
inserted under a key that the record does not know. -/
inductive Rearranged : Place → Datum → Datum → Prop
  | permute {place : Place} {before after : List (String × Datum)} : place.isRecord →
      before.Perm after → Rearranged place (.object before) (.object after)
  | insert {place : Place} {key : String} (front back : List (String × Datum)) {found : Datum} :
      place.isRecord → key ∉ place.keys → found.isSound →
      Rearranged place (.object (front ++ back)) (.object (front ++ (key, found) :: back))

inductive Doubled : Place → Datum → Datum → Prop
  | insert {place : Place} {key : String} (front back : List (String × Datum)) {found : Datum} :
      key ∈ place.keys → key ∈ (front ++ back).map (·.1) →
      Doubled place (.object (front ++ back)) (.object (front ++ (key, found) :: back))

variable {place : Place} {before after : List (String × Datum)}

/-- Objects with the same fields are the same record. -/
theorem read_object (hrecord : place.isRecord)
    (hcount : ∀ key ∈ place.keys, (after.map (·.1)).count key = (before.map (·.1)).count key)
    (hlookup : ∀ key ∈ place.keys, (before.map (·.1)).count key ≤ 1 →
      after.lookup key = before.lookup key) :
    place.read (.object after) = place.read (.object before) := by
  have hkeys : (place.keys.all fun key => (after.map (·.1)).count key ≤ 1) =
      place.keys.all fun key => (before.map (·.1)).count key ≤ 1 := by
    rw [Bool.eq_iff_iff, List.all_eq_true, List.all_eq_true]
    exact forall₂_congr fun key hkey => by rw [hcount key hkey]
  refine Place.read_congr hrecord ?_
  rw [Place.fields?, record?, record?, hkeys]
  split
  · next hall =>
    refine .some fun key hkey => .inl (hlookup key hkey ?_)
    simpa using List.all_eq_true.1 hall key hkey
  · exact .none

theorem Rearranged.sameAt {before after : Datum} (h : Rearranged place before after) :
    SameAt place before after := by
  cases h with
  | @permute before after hrecord hperm =>
    refine ⟨by simp, by simp, ?_, ?_⟩
    · rw [Bool.eq_iff_iff, isSound, isSound, entriesSound_iff, entriesSound_iff]
      simp only [hperm.mem_iff]
    · refine read_object hrecord (fun key _ => (hperm.map (·.1)).symm.count_eq key) ?_
      exact fun key _ hcount => Keyed.get?_of_perm_of_count hperm.symm hcount
  | @insert key front back found hrecord hkey hfound =>
    refine ⟨by simp, by simp, ?_, ?_⟩
    · rw [Bool.eq_iff_iff, isSound, isSound, entriesSound_iff, entriesSound_iff]
      simp only [List.forall_mem_append, List.forall_mem_cons, hfound, true_and]
    · have hother : ∀ other ∈ place.keys, key ≠ other := fun other hmem hsame =>
        hkey (hsame ▸ hmem)
      refine read_object hrecord (fun other hmem => ?_) fun other hmem _ => ?_
      · simp [List.count_cons_of_ne (hother other hmem)]
      · have hne : (other == key) = false := beq_eq_false_iff_ne.2 (hother other hmem).symm
        simp [List.lookup_append, List.lookup_cons, hne]

theorem Doubled.refusedAt {before after : Datum} (h : Doubled place before after) :
    RefusedAt place after := by
  cases h with
  | @insert key front back found hkey hmem =>
    have hmiddle : (key, found) ∈ front ++ (key, found) :: back := by simp
    have hpositive : 0 < (front ++ back).length := by
      rw [← List.length_map (·.1)]
      exact List.length_pos_of_mem hmem
    have hlength : (front ++ (key, found) :: back).length = (front ++ back).length + 1 := by
      simp [Nat.add_assoc]
    refine ⟨not_isWord_object hmiddle (.inl (by omega)), ?_⟩
    have hcount : ((front ++ (key, found) :: back).map (·.1)).count key =
        ((front ++ back).map (·.1)).count key + 1 := by
      simp [Nat.add_assoc]
    have htwice : ¬ place.keys.all fun key' =>
        ((front ++ (key, found) :: back).map (·.1)).count key' ≤ 1 := by
      intro hall
      have hone := List.all_eq_true.1 hall key hkey
      have hsome := List.count_pos_iff.2 hmem
      rw [decide_eq_true_iff] at hone
      omega
    refine Option.not_isSome_iff_eq_none.1 fun hread => ?_
    obtain ⟨fields, hfields⟩ := Place.exists_fields (Place.isRecord_of_mem_keys hkey) hread
    rw [Place.fields?, record?, if_neg htwice] at hfields
    cases hfields

theorem Doubled.exists_object {before after : Datum} (h : Doubled place before after) :
    ∃ entries, after = .object entries := by
  cases h
  exact ⟨_, rfl⟩

end Datum

namespace Json

theorem textEntry_injective : Function.Injective textEntry := by
  rintro ⟨key, datum⟩ ⟨key', datum'⟩ h
  simpa [textEntry] using h

/-- Entries in another order are entries of an object in another order, or of a fault. -/
theorem objectOf_of_perm {before after : List (Option String × Datum)} (h : before.Perm after) :
    (∃ found found' : List (String × Datum), found.Perm found' ∧
        objectOf before = .object found ∧ objectOf after = .object found') ∨
      objectOf before = .fault ∧ objectOf after = .fault := by
  have hkeys := h.map (·.1)
  rcases exists_textEntries before with ⟨found, rfl⟩ | hnone
  · rcases exists_textEntries after with ⟨found', rfl⟩ | hnone
    · exact .inl ⟨found, found', (List.map_perm_map_iff textEntry_injective).1 h,
        objectOf_textEntry found, objectOf_textEntry found'⟩
    · have hbefore := hkeys.mem_iff.2 hnone
      simp [textEntry] at hbefore
  · exact .inr ⟨objectOf_of_none hnone, objectOf_of_none (hkeys.mem_iff.1 hnone)⟩

namespace Layout

open Datum

inductive Rearranged : Place → Nat → Layout → Layout → Prop
  | permute {place : Place} {depth : Nat} (blanks : Blanks) {before after : List (Token × Layout)} :
      place.isRecord → before.Perm after →
      Rearranged place depth (.object blanks before) (.object blanks after)
  | insert {place : Place} {depth : Nat} (blanks : Blanks) (front back : List (Token × Layout))
      {token : Token} {key : String} {value : Layout} : place.isRecord → token.isKey = true →
      token.key? = some key → key ∉ place.keys → value.isWellFormed = true →
      (value.datum (depth + 1)).isSound →
      Rearranged place depth (.object blanks (front ++ back))
        (.object blanks (front ++ (token, value) :: back))

inductive Doubled : Place → Nat → Layout → Layout → Prop
  | insert {place : Place} {depth : Nat} (blanks : Blanks) (front back : List (Token × Layout))
      {token : Token} {key : String} {value : Layout} : token.isKey = true →
      token.key? = some key → key ∈ place.keys → value.isWellFormed = true →
      some key ∈ (front ++ back).map (fun entry => entry.1.key?) →
      Doubled place depth (.object blanks (front ++ back))
        (.object blanks (front ++ (token, value) :: back))

section Insertion

variable {blanks : Blanks} {front back : List (Token × Layout)} {token : Token} {value : Layout}

theorem isWellFormed_insert (htoken : token.isKey = true) (hvalue : value.isWellFormed = true)
    (h : (object blanks (front ++ back)).isWellFormed = true) :
    (object blanks (front ++ (token, value) :: back)).isWellFormed = true := by
  simp only [isWellFormed_object_iff, List.forall_mem_append, List.forall_mem_cons] at h ⊢
  exact ⟨h.1, h.2.1, ⟨htoken, hvalue⟩, h.2.2⟩

/-- An entry that is inserted in a text is inserted in the object that the text says, unless that
is a fault. -/
theorem changedOrRefused_insert {Change : Place → Datum → Datum → Prop} {place : Place}
    {depth : Nat} {key : String} (hkey : token.key? = some key)
    (hchange : ∀ front' back' : List (String × Datum),
      front.map (entryDatum (depth + 1)) = front'.map textEntry →
      back.map (entryDatum (depth + 1)) = back'.map textEntry →
      Change place (.object (front' ++ back'))
        (.object (front' ++ (key, value.datum (depth + 1)) :: back'))) :
    ChangedOrRefused Change place ((object blanks (front ++ back)).datum depth)
      ((object blanks (front ++ (token, value) :: back)).datum depth) := by
  have hentry : entryDatum (depth + 1) (token, value) = (some key, value.datum (depth + 1)) := by
    rw [entryDatum, hkey]
  rw [datum_object, datum_object, List.map_append, List.map_append, List.map_cons, hentry]
  refine ChangedOrRefused.atDepth ?_ depth
  rcases objectOf_around (front.map (entryDatum (depth + 1)))
    (back.map (entryDatum (depth + 1))) with ⟨front', back', hfront, hback, hobject⟩ | hfault
  · have hbefore := hobject []
    have hafter := hobject [(key, value.datum (depth + 1))]
    simp only [List.map_nil, List.nil_append] at hbefore
    simp only [List.map_singleton, textEntry, List.singleton_append] at hafter
    rw [hbefore, hafter]
    exact .inr (.here (hchange front' back' hfront hback))
  · have hbefore := hfault []
    have hafter := hfault [(some key, value.datum (depth + 1))]
    simp only [List.nil_append] at hbefore
    simp only [List.singleton_append] at hafter
    rw [hbefore, hafter]
    exact changedOrRefused_fault place

end Insertion

variable {place : Place} {depth : Nat} {before after : Layout}

theorem Rearranged.edit (h : Rearranged place depth before after) :
    (before.isWellFormed = true → after.isWellFormed = true) ∧
      ChangedOrRefused Datum.Rearranged place (before.datum depth) (after.datum depth) := by
  cases h with
  | @permute blanks before after hrecord hperm =>
    refine ⟨fun hbefore => ?_, ?_⟩
    · rw [isWellFormed_object_iff] at hbefore ⊢
      exact ⟨hbefore.1, fun entry hentry => hbefore.2 entry (hperm.mem_iff.2 hentry)⟩
    rw [datum_object, datum_object]
    refine ChangedOrRefused.atDepth ?_ depth
    rcases objectOf_of_perm (hperm.map (entryDatum (depth + 1))) with
      ⟨found, found', hfound, hbefore, hafter⟩ | ⟨hbefore, hafter⟩
    · rw [hbefore, hafter]
      exact .inr (.here (.permute hrecord hfound))
    · rw [hbefore, hafter]
      exact changedOrRefused_fault place
  | insert blanks front back hrecord htoken hkey hunknown hvalue hsound =>
    exact ⟨isWellFormed_insert htoken hvalue, changedOrRefused_insert hkey
      fun front' back' _ _ => .insert front' back' hrecord hunknown hsound⟩

theorem Doubled.edit (h : Doubled place depth before after) :
    (before.isWellFormed = true → after.isWellFormed = true) ∧
      ChangedOrRefused Datum.Doubled place (before.datum depth) (after.datum depth) := by
  cases h with
  | @insert blanks front back token key value htoken hkey hknown hvalue hmem =>
    refine ⟨isWellFormed_insert htoken hvalue, changedOrRefused_insert hkey
      fun front' back' hfront hback => .insert front' back' hknown ?_⟩
    have hkeys : (front ++ back).map (fun entry => entry.1.key?) =
        (front' ++ back').map (fun entry => some entry.1) := by
      have hall := congrArg (List.map (·.1)) (congrArg₂ (· ++ ·) hfront hback)
      simpa [textEntry, entryDatum, Function.comp_def] using hall
    rw [hkeys] at hmem
    simpa using hmem

end Layout

end Json

namespace Spec

open Json

/-- The keys of a record may be in any order and have others among them, but a known key must not
be repeated, wherever in the text of a spec the record is written. -/
theorem parse_json_keys {text : String} {spec : Spec} (h : parse .json text = .ok spec) :
    (∃ layout : Layout, layout.isWellFormed = true ∧ layout.text = text) ∧
      ∀ layout changed : Layout, layout.isWellFormed = true → layout.text = text →
        (Layout.Edited Layout.Rearranged .spec 0 layout changed →
            parse .json changed.text = .ok spec) ∧
          (Layout.Edited Layout.Doubled .spec 0 layout changed →
            parse .json changed.text = .error (.malformed .json)) := by
  refine ⟨?_, ?_⟩
  · cases hdatum : datum? text with
    | none => simp [parse, hdatum] at h
    | some datum => exact Layout.exists_layout hdatum
  · rintro layout changed hlayout rfl
    refine ⟨fun hedited => ?_, fun hedited => ?_⟩
    · rw [parse_json_edited hlayout Layout.Rearranged.edit Datum.Rearranged.sameAt hedited, h]
    · exact parse_json_refused hlayout Layout.Doubled.edit
        (fun hchange => ⟨hchange.exists_object, hchange.refusedAt⟩) hedited

def carryingRaw (entries : List (Token × Layout)) : Layout :=
  .object {} [(.bare "\"clause\"", .object {} [
    (.bare "\"type\"", .scalar (.bare "\"nested\"")),
    (.bare "\"nested\"", .object {} [(.bare "\"raw\"", .array {} [.object {} entries])])])]

def keyEntry : Token × Layout := (.bare "\"key\"", .scalar (.bare "\"explain\""))

def valueEntry : Token × Layout := (.bare "\"value\"", .scalar (.bare "true"))

def sizeEntry : Token × Layout := (.bare "\"size\"", .array {} [.scalar (.bare "null")])

theorem parse_json_keys_rawOption :
    let spec : Spec := { clauses := [{
      kind := "nested", nested := some { raw := [("explain", .bool true)] } }] }
    parse .json (carryingRaw [keyEntry, valueEntry]).text = .ok spec ∧
      parse .json (carryingRaw [valueEntry, keyEntry]).text = .ok spec ∧
      parse .json (carryingRaw [keyEntry, sizeEntry, valueEntry]).text = .ok spec ∧
      parse .json (carryingRaw [keyEntry, valueEntry, keyEntry]).text =
        .error (.malformed .json) := by
  intro spec
  have hlayout : (carryingRaw [keyEntry, valueEntry]).isWellFormed = true := by decide
  have hspec : parse .json (carryingRaw [keyEntry, valueEntry]).text = .ok spec := by
    rw [parse_json_text hlayout]
    rfl
  have hplace : ∀ {Edit : Place → Nat → Layout → Layout → Prop} {after : List (Token × Layout)},
      Edit .raw 4 (.object {} [keyEntry, valueEntry]) (.object {} after) →
      Layout.Edited Edit .spec 0 (carryingRaw [keyEntry, valueEntry]) (carryingRaw after) := by
    intro Edit after hedit
    exact .entry {} _ [] [] rfl rfl (.alone rfl (by decide) (.entry {} _ [_] [] rfl rfl
      (.entry {} _ [] [] rfl rfl (.item {} [] [] rfl (by decide) (.here hedit)))))
  obtain ⟨-, hedits⟩ := parse_json_keys hspec
  refine ⟨hspec, ?_, ?_, ?_⟩
  · exact (hedits _ _ hlayout rfl).1 (hplace (.permute {} rfl (.swap _ _ _)))
  · exact (hedits _ _ hlayout rfl).1 (hplace (.insert {} [keyEntry] [valueEntry] rfl (by decide)
      rfl (by decide) (by decide) (by decide)))
  · exact (hedits _ _ hlayout rfl).2 (hplace (.insert {} [keyEntry, valueEntry] [] (by decide)
      rfl (by decide) (by decide) (by decide)))

end Spec

end SearchQuery
