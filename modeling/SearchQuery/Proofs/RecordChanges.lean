import SearchQuery.Proofs.Records

/-!
Changes to a record somewhere in a spec. Where the changed record is read as before, so is the
spec around it; and where the changed record is refused, so is the spec. The step is from a place
to the place around it: a field of a record, an item of a list, or a record that stands alone
where a list may stand.
-/
namespace SearchQuery

structure Datum.SameAt (place : Place) (before after : Datum) : Prop where
  before_ne_null : before ≠ .null
  after_ne_null : after ≠ .null
  isSound : after.isSound = before.isSound
  read : place.read after = place.read before

/-- Whether a datum is null, a text or the name of a family: it may stand for an absent field or
be the first item of a record. -/
def Datum.IsWord (datum : Datum) : Prop :=
  datum = .null ∨ (text? datum).isSome ∨ (Family.read? false datum).isSome

structure Datum.RefusedAt (place : Place) (datum : Datum) : Prop where
  not_isWord : ¬ datum.IsWord
  read : place.read datum = none

namespace Datum

theorem not_isWord_array (items : List Datum) : ¬ (Datum.array items).IsWord := by
  rintro (h | h | h) <;> cases h

/-- An object with a key that names no family, or with more keys than one, is no word. -/
theorem not_isWord_object {key : String} {found : Datum} {entries : List (String × Datum)}
    (hmem : (key, found) ∈ entries)
    (hname : entries.length ≠ 1 ∨ ∀ family : Family, family.name ≠ key) :
    ¬ (Datum.object entries).IsWord := by
  rintro (h | h | h)
  · cases h
  · cases h
  · rcases hname with hlength | hname
    · rw [Family.read?, choice?_of_length_ne _ _ _ hlength] at h
      cases h
    · rcases exists_name h with ⟨s, hs⟩ | ⟨family, part, hs, -⟩
      · cases hs
      · obtain rfl := Datum.object.inj hs
        exact hname family (Prod.mk.inj (List.mem_singleton.1 hmem)).1.symm

theorem RefusedAt.ne_null {place : Place} {datum : Datum} (h : RefusedAt place datum) :
    datum ≠ .null := fun hnull => h.not_isWord (.inl hnull)

theorem isSound_item {before after : Datum} (h : after.isSound = before.isSound)
    (front back : List Datum) : (Datum.array (front ++ after :: back)).isSound =
      (Datum.array (front ++ before :: back)).isSound := by
  rw [Bool.eq_iff_iff, isSound, isSound, areSound_iff, areSound_iff]
  simp only [List.forall_mem_append, List.forall_mem_cons, h]

end Datum

open Datum

def FieldsAgree (place : Place) (before after : List (String × Datum)) : Prop :=
  ∀ key ∈ place.keys, after.lookup key = before.lookup key ∨
    ∃ part found found', place.part? key = some part ∧ SameAt part found found' ∧
      before.lookup key = some found ∧ after.lookup key = some found'

namespace FieldsAgree

variable {place : Place} {before after : List (String × Datum)} (h : FieldsAgree place before after)

include h

theorem lookup {key : String} (hkey : key ∈ place.keys) (hpart : place.part? key = none) :
    after.lookup key = before.lookup key := by
  rcases h key hkey with hsame | ⟨part, found, found', hsome, -⟩
  · exact hsame
  · cases hpart.symm.trans hsome

theorem optional (part : Place) {key : String} (hkey : key ∈ place.keys)
    (hpart : place.part? key = some part) :
    Datum.optional part.read (after.lookup key) = Datum.optional part.read (before.lookup key) := by
  rcases h key hkey with hsame | ⟨part', found, found', hsome, hfound, hbefore, hafter⟩
  · rw [hsame]
  · obtain rfl := Option.some.inj (hpart.symm.trans hsome)
    rw [hbefore, hafter, optional_some _ hfound.before_ne_null,
      optional_some _ hfound.after_ne_null, hfound.read]

theorem defaulting (part : Place) {key : String} (hkey : key ∈ place.keys)
    (hpart : place.part? key = some part) (default : part.Reading) :
    Datum.defaulting default part.read (after.lookup key) =
      Datum.defaulting default part.read (before.lookup key) := by
  rcases h key hkey with hsame | ⟨part', found, found', hsome, hfound, hbefore, hafter⟩
  · rw [hsame]
  · obtain rfl := Option.some.inj (hpart.symm.trans hsome)
    rw [hbefore, hafter]
    exact hfound.read

end FieldsAgree

namespace Place

variable {place : Place}

/-- A record is read from its fields, and alike from fields that are read alike. -/
theorem exists_body (hrecord : place.isRecord) :
    ∃ body : List (String × Datum) → Option place.Reading,
      (∀ datum, place.read datum = (place.fields? datum).bind body) ∧
      ∀ fields fields', FieldsAgree place fields fields' → body fields' = body fields := by
  cases place with
  | spec =>
    refine ⟨_, fun datum => Spec.ofDatum?_eq datum, fun fields fields' hagree => ?_⟩
    have hplain : ∀ key ∈ Spec.schemaKeys, Place.part? .spec key = none →
        fields'.lookup key = fields.lookup key := fun key => hagree.lookup
    have hsort : Datum.defaulting [] (oneOrMany? SortSpec.read? SortSpec.read?)
        (fields'.lookup "sort") = Datum.defaulting [] (oneOrMany? SortSpec.read? SortSpec.read?)
          (fields.lookup "sort") := hagree.defaulting .sorts (by decide) rfl _
    have hraw : Datum.defaulting [] (list? readRawOption?) (fields'.lookup "raw") =
        Datum.defaulting [] (list? readRawOption?) (fields.lookup "raw") :=
      hagree.defaulting .raws (by decide) rfl _
    have hclauses : Datum.defaulting [] (Place.read .clauses) (fields'.lookup "clause") =
        Datum.defaulting [] (Place.read .clauses) (fields.lookup "clause") :=
      hagree.defaulting .clauses (by decide) rfl _
    simp only [hplain "base" (by decide) rfl, hplain "size" (by decide) rfl,
      hplain "from" (by decide) rfl, hplain "query_minimum_should_match" (by decide) rfl,
      hplain "filter_minimum_should_match" (by decide) rfl, hsort, hraw, hclauses]
    rfl
  | sort =>
    refine ⟨_, fun _ => rfl, fun fields fields' hagree => ?_⟩
    rw [hagree.lookup (by decide) rfl, hagree.lookup (by decide) rfl]
  | raw =>
    refine ⟨_, fun _ => rfl, fun fields fields' hagree => ?_⟩
    rw [hagree.lookup (by decide) rfl, hagree.lookup (by decide) rfl]
  | clause inList =>
    refine ⟨_, fun _ => rfl, fun fields fields' hagree => ?_⟩
    have hplain : ∀ key ∈ ClauseSpec.schemaKeys, Place.part? (.clause inList) key = none →
        fields'.lookup key = fields.lookup key := fun key => hagree.lookup
    have hnested : Datum.optional Spec.ofDatum? (fields'.lookup "nested") =
        Datum.optional Spec.ofDatum? (fields.lookup "nested") :=
      hagree.optional .spec (show "nested" ∈ ClauseSpec.schemaKeys by decide) rfl
    simp only [hplain "family" (by decide) rfl, hplain "mode" (by decide) rfl,
      hplain "type" (by decide) rfl, hplain "field" (by decide) rfl,
      hplain "value" (by decide) rfl, hplain "body" (by decide) rfl,
      hplain "options" (by decide) rfl, hnested]
    rfl
  | _ => cases hrecord

/-- A record is read alike where its fields are. -/
theorem read_congr (hrecord : place.isRecord) {before after : Datum}
    (h : Option.Rel (FieldsAgree place) (place.fields? before) (place.fields? after)) :
    place.read after = place.read before := by
  obtain ⟨body, hread, hbody⟩ := exists_body hrecord
  rw [hread, hread]
  generalize place.fields? before = fields at h ⊢
  generalize place.fields? after = fields' at h ⊢
  cases h with
  | none => rfl
  | some hagree => exact hbody _ _ hagree

/-- A record that is read has fields. -/
theorem exists_fields (hrecord : place.isRecord) {datum : Datum}
    (h : (place.read datum).isSome) : ∃ fields, place.fields? datum = some fields := by
  obtain ⟨body, hread, -⟩ := exists_body hrecord
  rw [hread] at h
  exact Option.isSome_iff_exists.1 (Option.isSome_of_isSome_bind h)

theorem part?_cases {key : String} {part : Place} (h : place.part? key = some part) :
    place = .spec ∧ ((key, part) = ("sort", .sorts) ∨ (key, part) = ("raw", .raws) ∨
        (key, part) = ("clause", .clauses)) ∨
      ∃ inList, place = .clause inList ∧ (key, part) = ("nested", .spec) := by
  cases place with
  | spec => exact .inl ⟨rfl, by simpa using Keyed.mem_of_get? h⟩
  | clause inList => exact .inr ⟨inList, rfl, by simpa using Keyed.mem_of_get? h⟩
  | _ => cases h

theorem isRecord_of_part? {key : String} {part : Place} (h : place.part? key = some part) :
    place.isRecord = true := by
  rcases part?_cases h with ⟨rfl, -⟩ | ⟨inList, rfl, -⟩ <;> rfl

theorem mem_keys_of_part? {key : String} {part : Place} (h : place.part? key = some part) :
    key ∈ place.keys := by
  rcases part?_cases h with ⟨rfl, hkey | hkey | hkey⟩ | ⟨inList, rfl, hkey⟩
  all_goals
    obtain ⟨rfl, rfl⟩ := Prod.mk.inj hkey
    simp [keys, Spec.schemaKeys, ClauseSpec.schemaKeys]

theorem isRecord_of_mem_keys {key : String} (h : key ∈ place.keys) : place.isRecord = true := by
  cases place with
  | spec | sort | raw | clause => rfl
  | sorts | raws | clauses => cases h

theorem nodup_keys (place : Place) : place.keys.Nodup := by
  match place with
  | .spec | .sort | .raw | .sorts | .raws | .clauses => decide
  | .clause _ => exact (by decide : ClauseSpec.schemaKeys.Nodup)

/-- Under the key of a part, a record that is read has what is read there, if it is not null. -/
theorem isSome_part {datum found : Datum} (h : (place.read datum).isSome)
    {fields : List (String × Datum)} (hfields : place.fields? datum = some fields) {key : String}
    {part : Place} (hpart : place.part? key = some part) (hfound : fields.lookup key = some found)
    (hnull : found ≠ .null) : (part.read found).isSome := by
  rcases part?_cases hpart with ⟨rfl, hkey⟩ | ⟨inList, rfl, hkey⟩
  · obtain ⟨spec, hspec⟩ : ∃ spec, Spec.ofDatum? datum = some spec :=
      Option.isSome_iff_exists.1 h
    simp only [Spec.ofDatum?_eq, Spec.readWith?, Option.bind_eq_bind, Option.bind_eq_some_iff]
      at hspec
    obtain ⟨fields', hfields', -, -, -, -, -, -, -, -, -, -, sort, hsort, raw, hraw, clauses,
      hclauses, -⟩ := hspec
    obtain rfl := Option.some.inj (hfields.symm.trans hfields')
    rcases hkey with hkey | hkey | hkey <;> obtain ⟨rfl, rfl⟩ := Prod.mk.inj hkey
    · rw [hfound] at hsort
      exact Option.isSome_of_eq_some hsort
    · rw [hfound] at hraw
      exact Option.isSome_of_eq_some hraw
    · rw [hfound] at hclauses
      exact Option.isSome_of_eq_some hclauses
  · obtain ⟨clause, hclause⟩ : ∃ clause, ClauseSpec.ofDatum? inList datum = some clause :=
      Option.isSome_iff_exists.1 h
    simp only [ClauseSpec.ofDatum?, ClauseSpec.readWith?, Option.bind_eq_bind,
      Option.bind_eq_some_iff] at hclause
    obtain ⟨fields', hfields', -, -, -, -, -, -, -, -, -, -, -, -, -, -, nested, hnested, -⟩ :=
      hclause
    obtain rfl := Option.some.inj (hfields.symm.trans hfields')
    obtain ⟨rfl, rfl⟩ := Prod.mk.inj hkey
    rw [hfound, optional_some _ hnull] at hnested
    obtain ⟨child, hchild, -⟩ := Option.map_eq_some_iff.1 hnested
    exact Option.isSome_of_eq_some hchild

/-- Whether a datum around another one is a record that has the other one under a key, whatever
the other one is; or no record, whatever the other one is. -/
structure Under (place : Place) (key : String) (around : Datum → Datum) : Prop where
  not_isWord : ∀ found, ¬ (around found).IsWord
  isSound : ∀ {found found'}, isSound found' = isSound found →
    (around found').isSound = (around found).isSound
  fields : (∀ found, place.fields? (around found) = none) ∨
    ∃ front back, front.lookup key = none ∧
      ∀ found, place.fields? (around found) = some (front ++ (key, found) :: back)

namespace Under

variable {key : String} {around : Datum → Datum} (h : place.Under key around) {part : Place}
  (hpart : place.part? key = some part)

include h hpart

/-- A record is read alike with data that are read alike. -/
theorem sameAt {before after : Datum} (hpartSame : SameAt part before after) :
    SameAt place (around before) (around after) where
  before_ne_null hnull := h.not_isWord before (.inl hnull)
  after_ne_null hnull := h.not_isWord after (.inl hnull)
  isSound := h.isSound hpartSame.isSound
  read := by
    refine read_congr (isRecord_of_part? hpart) ?_
    rcases h.fields with hnone | ⟨front, back, hfront, hsome⟩
    · rw [hnone, hnone]
      exact .none
    · rw [hsome, hsome]
      refine .some fun other _ => ?_
      by_cases hkey : key = other
      · subst hkey
        refine .inr ⟨part, before, after, hpart, hpartSame, ?_, ?_⟩ <;>
          simp [List.lookup_append, hfront]
      · have hother : (other == key) = false := beq_eq_false_iff_ne.2 (Ne.symm hkey)
        refine .inl ?_
        simp [List.lookup_append, List.lookup_cons, hother]

/-- A record with a datum that is refused is refused. -/
theorem refusedAt {found : Datum} (hrefused : RefusedAt part found) :
    RefusedAt place (around found) where
  not_isWord := h.not_isWord found
  read := by
    refine Option.not_isSome_iff_eq_none.1 fun hread => ?_
    obtain ⟨fields, hfields⟩ := exists_fields (isRecord_of_part? hpart) hread
    rcases h.fields with hnone | ⟨front, back, hfront, hsome⟩
    · cases (hnone found).symm.trans hfields
    · have hfound : (front ++ (key, found) :: back).lookup key = some found := by
        simp [List.lookup_append, hfront]
      have hpartRead := isSome_part hread (hsome found) hpart hfound hrefused.ne_null
      rw [hrefused.read] at hpartRead
      cases hpartRead

end Under

/-- An object is a record with what it has under a key, unless a key of the record stands in it
twice. -/
theorem under_entry {key : String} {part : Place} (hpart : place.part? key = some part)
    (front back : List (String × Datum)) :
    place.Under key fun found => .object (front ++ (key, found) :: back) where
  not_isWord found := by
    have hmem : (key, found) ∈ front ++ (key, found) :: back := by simp
    refine not_isWord_object hmem (.inr fun family => ?_)
    rcases part?_cases hpart with ⟨-, hkey | hkey | hkey⟩ | ⟨-, -, hkey⟩ <;>
      obtain ⟨rfl, -⟩ := Prod.mk.inj hkey <;> cases family <;> decide
  isSound {found found'} hsound := by
    rw [Bool.eq_iff_iff, isSound, isSound, entriesSound_iff, entriesSound_iff]
    simp only [List.forall_mem_append, List.forall_mem_cons, hsound]
  fields := by
    have hkeys : ∀ found : Datum, (front ++ (key, found) :: back).map (·.1) =
        front.map (·.1) ++ key :: back.map (·.1) := by simp
    by_cases hcount : place.keys.all fun key' =>
        (front.map (·.1) ++ key :: back.map (·.1)).count key' ≤ 1
    · refine .inr ⟨front, back, ?_, fun found => ?_⟩
      · have hone : (front.map (·.1) ++ key :: back.map (·.1)).count key ≤ 1 := by
          simpa using List.all_eq_true.1 hcount key (mem_keys_of_part? hpart)
        rw [List.count_append, List.count_cons_self] at hone
        have hnone : (front.map (·.1)).count key = 0 := by omega
        exact Keyed.get?_eq_none_iff.2 (List.count_eq_zero.1 hnone)
      · rw [fields?, record?, hkeys, if_pos hcount]
    · refine .inl fun found => ?_
      rw [fields?, record?, hkeys, if_neg hcount]

/-- An item of an array stands under the key in its place. -/
theorem exists_zip {keys : List String} (hnodup : keys.Nodup) {key : String} {front : List Datum}
    (hkey : keys[front.length]? = some key) (back : List Datum) :
    ∃ early late, early.lookup key = none ∧
      ∀ found, keys.zip (front ++ found :: back) = early ++ (key, found) :: late := by
  obtain ⟨hlength, hget⟩ := List.getElem?_eq_some_iff.1 hkey
  have hkeys : keys = keys.take front.length ++ key :: keys.drop (front.length + 1) := by
    rw [← hget, ← List.drop_eq_getElem_cons hlength, List.take_append_drop]
  have htake : (keys.take front.length).length = front.length :=
    List.length_take_of_le (Nat.le_of_lt hlength)
  refine ⟨(keys.take front.length).zip front, (keys.drop (front.length + 1)).zip back, ?_,
    fun found => ?_⟩
  · refine Keyed.get?_eq_none_iff.2 fun hmem => ?_
    rw [Keyed.keys, List.map_fst_zip (Nat.le_of_eq htake)] at hmem
    rw [hkeys] at hnodup
    exact (List.nodup_append.1 hnodup).2.2 key hmem key List.mem_cons_self rfl
  · conv => lhs; rw [hkeys]
    rw [List.zip_append htake, List.zip_cons_cons]

/-- An array is a record with its items under the keys, unless it is too short or too long. -/
theorem under_field {key : String} {front : List Datum}
    (hkey : place.keys[front.length]? = some key) (back : List Datum) :
    place.Under key fun found => .array (front ++ found :: back) where
  not_isWord found := not_isWord_array _
  isSound hsound := isSound_item hsound front back
  fields := by
    obtain ⟨early, late, hearly, hzip⟩ := exists_zip place.nodup_keys hkey back
    have hlength : ∀ found : Datum, (front ++ found :: back).length =
        front.length + (back.length + 1) := by simp
    by_cases hfits : front.length + (back.length + 1) = place.keys.length ∨
        (decide (place = .spec) ∧ front.length + (back.length + 1) < place.keys.length)
    · refine .inr ⟨early, late, hearly, fun found => ?_⟩
      rw [fields?, record?, hlength, if_pos hfits, hzip]
    · refine .inl fun found => ?_
      rw [fields?, record?, hlength, if_neg hfits]

variable {one : Place}

/-- Where one record stands, no list may stand. -/
theorem no_list_of_isRecord (hrecord : place.isRecord) :
    place.alone? = none ∧ place.item? = none := by
  cases place with
  | spec | sort | raw | clause => exact ⟨rfl, rfl⟩
  | sorts | raws | clauses => cases hrecord

theorem isRecord_of_alone? (hone : place.alone? = some one) : one.isRecord = true := by
  cases place with
  | sorts | clauses => exact Option.some.inj hone ▸ rfl
  | _ => cases hone

/-- A record that is read alike where a list may stand is read alike there. -/
theorem sameAt_alone (hone : place.alone? = some one) {before after : Datum}
    (hread : (one.read before).isSome) (h : SameAt one before after) :
    SameAt place before after where
  before_ne_null := h.before_ne_null
  after_ne_null := h.after_ne_null
  isSound := h.isSound
  read := by
    cases place with
    | sorts =>
      obtain rfl := Option.some.inj hone
      exact oneOrMany?_of_same_one hread h.read h.isSound
    | clauses =>
      obtain rfl := Option.some.inj hone
      exact oneOrMany?_of_same_one hread h.read h.isSound
    | _ => cases hone

/-- A list with an item that is read alike is read alike. -/
theorem sameAt_item (hitem : place.item? = some one) {before after : Datum}
    {front back : List Datum}
    (hlist : (list? one.read (.array (front ++ before :: back))).isSome)
    (h : SameAt one before after) :
    SameAt place (.array (front ++ before :: back)) (.array (front ++ after :: back)) := by
  have hsame := list?_item h.read front back
  have hsound : (Datum.array (front ++ after :: back)).isSound =
      (Datum.array (front ++ before :: back)).isSound := isSound_item h.isSound front back
  refine ⟨by simp, by simp, hsound, ?_⟩
  cases place with
  | sorts =>
    obtain rfl := Option.some.inj hitem
    exact SortSpec.toldApart.oneOrMany?_of_same_list hlist hsame hsound
  | raws =>
    obtain rfl := Option.some.inj hitem
    exact hsame
  | clauses =>
    obtain rfl := Option.some.inj hitem
    exact (ClauseSpec.toldApart Spec.ofDatum?).oneOrMany?_of_same_list hlist hsame hsound
  | _ => cases hitem

/-- Neither an item that is no word nor one that can be read in a list starts a record that stands
alone. -/
theorem alone_eq_none {alone : Place} (halone : place.alone? = some alone)
    (hitem : place.item? = some one) {first : Datum}
    (hfirst : ¬ first.IsWord ∨ (one.read first).isSome) (rest : List Datum) :
    alone.read (.array (first :: rest)) = none := by
  refine Option.not_isSome_iff_eq_none.1 fun hread => ?_
  cases place with
  | sorts =>
    obtain rfl := Option.some.inj halone
    obtain rfl := Option.some.inj hitem
    rcases hfirst with hword | hsome
    · obtain ⟨field, direction, hitems⟩ := SortSpec.exists_items hread
      obtain ⟨rfl, -⟩ := List.cons.inj hitems
      exact hword (.inr (.inl rfl))
    · exact Option.not_isSome_iff_eq_none.2
        (SortSpec.toldApart.one_eq_none_of_item hsome rest) hread
  | clauses =>
    obtain rfl := Option.some.inj halone
    obtain rfl := Option.some.inj hitem
    rcases hfirst with hword | hsome
    · obtain ⟨family, others, hitems, hfamily⟩ := ClauseSpec.exists_family hread
      obtain ⟨rfl, -⟩ := List.cons.inj hitems
      exact hword (.inr (.inr hfamily))
    · exact Option.not_isSome_iff_eq_none.2
        ((ClauseSpec.toldApart Spec.ofDatum?).one_eq_none_of_item hsome rest) hread
  | _ => cases halone

/-- A list with an item that is refused is refused: it is no record either, since neither the
refused item nor one that can be read starts a record. -/
theorem refusedAt_item (hitem : place.item? = some one) {before after : Datum}
    {front back : List Datum} (hlist : (list? one.read (.array (front ++ before :: back))).isSome)
    (h : RefusedAt one after) : RefusedAt place (.array (front ++ after :: back)) := by
  refine ⟨not_isWord_array _, ?_⟩
  have hnone : list? one.read (.array (front ++ after :: back)) = none := by
    refine Option.not_isSome_iff_eq_none.1 fun hread => ?_
    have hafter := isSome_item hread (show after ∈ front ++ after :: back by simp)
    rw [h.read] at hafter
    cases hafter
  have halone : ∀ alone, place.alone? = some alone →
      alone.read (.array (front ++ after :: back)) = none := by
    intro alone halone
    cases front with
    | nil => exact alone_eq_none halone hitem (.inl h.not_isWord) back
    | cons first rest =>
      exact alone_eq_none halone hitem (.inr (isSome_item hlist List.mem_cons_self)) _
  cases place with
  | sorts =>
    obtain rfl := Option.some.inj hitem
    exact oneOrMany?_eq_none (halone .sort rfl) hnone
  | raws =>
    obtain rfl := Option.some.inj hitem
    exact hnone
  | clauses =>
    obtain rfl := Option.some.inj hitem
    exact oneOrMany?_eq_none (halone (.clause false) rfl) hnone
  | _ => cases hitem

/-- A record that is refused where a list may stand is refused there, unless it becomes a list:
an object does not, nor does an array that keeps its first item. -/
theorem refusedAt_alone (hone : place.alone? = some one) {before after : Datum}
    (hread : (one.read before).isSome) (h : RefusedAt one after)
    (hshape : (∃ entries, after = .object entries) ∨ ∃ first rest rest',
      before = .array (first :: rest) ∧ after = .array (first :: rest')) :
    RefusedAt place after := by
  refine ⟨h.not_isWord, ?_⟩
  have hlist : ∀ {item : Datum → Option one.Reading}, ToldApart one.read item →
      list? item after = none := by
    intro item hapart
    rcases hshape with ⟨entries, rfl⟩ | ⟨first, rest, rest', rfl, rfl⟩
    · rfl
    · obtain ⟨word, others, hitems, hword⟩ := hapart.first hread
      obtain ⟨rfl, -⟩ := List.cons.inj hitems
      exact list?_cons_of_none hword rest'
  cases place with
  | sorts =>
    obtain rfl := Option.some.inj hone
    exact oneOrMany?_eq_none h.read (hlist SortSpec.toldApart)
  | clauses =>
    obtain rfl := Option.some.inj hone
    exact oneOrMany?_eq_none h.read (hlist (ClauseSpec.toldApart Spec.ofDatum?))
  | _ => cases hone

end Place

namespace Datum.Changed

variable {Change : Place → Datum → Datum → Prop} {place : Place} {before after : Datum}

/-- Where a change keeps the reading of a record, it keeps that of the spec. -/
theorem sameAt (hchange : ∀ {place before after}, Change place before after →
    SameAt place before after) (h : Changed Change place before after) :
    SameAt place before after := by
  induction h with
  | here h => exact hchange h
  | alone hone hread _ ih => exact Place.sameAt_alone hone hread ih
  | item front back hitem hlist _ ih => exact Place.sameAt_item hitem hlist ih
  | entry key front back hpart _ ih => exact (Place.under_entry hpart front back).sameAt hpart ih
  | field key front back hkey hpart _ ih => exact (Place.under_field hkey back).sameAt hpart ih

/-- A changed record is an object, or an array with the same first item: no part of a record
stands first. -/
theorem shape (hchange : ∀ {place before after}, Change place before after →
    ∃ entries, after = .object entries) (hrecord : place.isRecord)
    (h : Changed Change place before after) :
    (∃ entries, after = .object entries) ∨ ∃ first rest rest',
      before = .array (first :: rest) ∧ after = .array (first :: rest') := by
  cases h with
  | here h => exact .inl (hchange h)
  | alone hone => cases (Place.no_list_of_isRecord hrecord).1.symm.trans hone
  | item front back hitem => cases (Place.no_list_of_isRecord hrecord).2.symm.trans hitem
  | entry key front back => exact .inl ⟨_, rfl⟩
  | field key front back hkey hpart =>
    cases front with
    | nil =>
      rcases Place.part?_cases hpart with ⟨rfl, hname | hname | hname⟩ | ⟨inList, rfl, hname⟩ <;>
        obtain ⟨rfl, -⟩ := Prod.mk.inj hname <;>
        simp [Place.keys, Spec.schemaKeys, ClauseSpec.schemaKeys] at hkey
    | cons first rest => exact .inr ⟨first, _, _, rfl, rfl⟩

/-- Where a change has a record refused, it has the spec refused. -/
theorem refusedAt (hchange : ∀ {place before after}, Change place before after →
    (∃ entries, after = .object entries) ∧ RefusedAt place after)
    (h : Changed Change place before after) : RefusedAt place after := by
  induction h with
  | here h => exact (hchange h).2
  | alone hone hread h ih =>
    refine Place.refusedAt_alone hone hread ih (h.shape (fun h => (hchange h).1) ?_)
    exact Place.isRecord_of_alone? hone
  | item front back hitem hlist _ ih => exact Place.refusedAt_item hitem hlist ih
  | entry key front back hpart _ ih => exact (Place.under_entry hpart front back).refusedAt hpart ih
  | field key front back hkey hpart _ ih => exact (Place.under_field hkey back).refusedAt hpart ih

end Datum.Changed

end SearchQuery
