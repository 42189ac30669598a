import SearchQuery.Json.Layout
import SearchQuery.Proofs.JsonReading
import SearchQuery.Proofs.JsonTokens

/-!
Reading a JSON text through its layout. The text of a layout is read as the datum of the layout,
and every text that is read is the text of a layout. So what can be said of all texts can be said
of all layouts, and a change to a text is a change to its layout.
-/
namespace SearchQuery.Json

def AllBlank (text : List Char) : Prop := text.all isBlank = true

theorem AllBlank.skipBlanks_append {blanks : List Char} (h : AllBlank blanks) (rest : List Char) :
    skipBlanks (blanks ++ rest) = skipBlanks rest :=
  List.dropWhile_append_of_pos fun c hc => List.all_eq_true.1 h c hc

theorem AllBlank.skipBlanks_cons {blanks : List Char} (h : AllBlank blanks) {c : Char}
    (hc : isBlank c = false) (rest : List Char) : skipBlanks (blanks ++ c :: rest) = c :: rest := by
  rw [h.skipBlanks_append, Json.skipBlanks_cons hc]

theorem AllBlank.stops {blanks rest : List Char} (h : AllBlank blanks) (hrest : Stops rest) :
    Stops (blanks ++ rest) := by
  cases blanks with
  | nil => exact hrest
  | cons c tail =>
    refine stops_cons ?_ _
    have hc : isBlank c = true := List.all_eq_true.1 h c List.mem_cons_self
    simp only [isBlank, Bool.or_eq_true, beq_iff_eq] at hc
    rcases hc with ((rfl | rfl) | rfl) | rfl <;> decide

theorem exists_blanks (text : List Char) :
    ∃ blanks, AllBlank blanks ∧ text = blanks ++ skipBlanks text :=
  ⟨text.takeWhile isBlank, List.all_takeWhile, List.takeWhile_append_dropWhile.symm⟩

namespace Token

variable {token : Token}

theorem hasBlanks_iff : token.hasBlanks = true ↔ AllBlank token.before ∧ AllBlank token.after := by
  rw [hasBlanks, Bool.and_eq_true]
  rfl

/-- The word of a key is a string between quotes, read again wherever it stands. -/
theorem exists_string (h : token.isKey = true) :
    ∃ text, token.word = '\x22' :: text ∧
      ReadsToken Json.string? (fun _ => True) text token.key? := by
  obtain ⟨-, hstring⟩ := (Bool.and_eq_true ..).mp h
  obtain ⟨s, hs⟩ := Option.isSome_iff_exists.1 hstring
  have hkey : token.key? = s := by rw [key?, hs]; rfl
  rw [string?] at hs
  split at hs
  · next text hword =>
    split at hs
    · next found hfound =>
      obtain rfl := Option.some.inj hs
      obtain ⟨read, htext, hread⟩ := string?_eq_some hfound
      rw [List.append_nil] at htext
      exact ⟨text, hword, hkey ▸ htext ▸ hread⟩
    · simp at hs
  · simp at hs

/-- The word of a datum without parts is read again wherever nothing prolongs it. -/
theorem exists_scalar (h : token.isScalar = true) :
    ∃ c text datum, token.word = c :: text ∧ startsScalar c = true ∧
      token.scalar? = some datum ∧ ReadsToken Json.scalar? Stops token.word datum := by
  obtain ⟨-, hscalar⟩ := (Bool.and_eq_true ..).mp h
  obtain ⟨datum, hdatum⟩ := Option.isSome_iff_exists.1 hscalar
  have hfound := hdatum
  rw [scalar?] at hfound
  split at hfound
  · next found hword =>
    obtain rfl := Option.some.inj hfound
    obtain ⟨c, text, htext, hstart, hread⟩ := scalar?_eq_some hword
    rw [List.append_nil] at htext
    exact ⟨c, text, found, htext, hstart, hdatum, htext ▸ hread⟩
  · simp at hfound

end Token

theorem Blanks.areBlank_iff {blanks : Blanks} : blanks.areBlank = true ↔
    AllBlank blanks.before ∧ AllBlank blanks.inside ∧ AllBlank blanks.after := by
  rw [areBlank, Bool.and_eq_true, Bool.and_eq_true, and_assoc]
  rfl

namespace Layout

/-- Induction over layouts, from the items and the entries upwards. -/
@[elab_as_elim]
theorem parts_induction {P : Layout → Prop} (scalar : ∀ token, P (.scalar token))
    (array : ∀ blanks items, (∀ item ∈ items, P item) → P (.array blanks items))
    (object : ∀ blanks (entries : List (Token × Layout)), (∀ entry ∈ entries, P entry.2) →
      P (.object blanks entries)) : ∀ layout, P layout
  | .scalar token => scalar token
  | .array blanks items => array blanks items fun item _ =>
    parts_induction scalar array object item
  | .object blanks entries => object blanks entries fun entry _ =>
    parts_induction scalar array object entry.2
termination_by layout => sizeOf layout
decreasing_by
  · have := List.sizeOf_lt_of_mem ‹item ∈ items›
    simp only [Layout.array.sizeOf_spec]
    omega
  · have := List.sizeOf_lt_of_mem ‹entry ∈ entries›
    obtain ⟨key, value⟩ := entry
    simp only [Layout.object.sizeOf_spec, Prod.mk.sizeOf_spec] at this ⊢
    omega

theorem itemsData_eq_map (depth : Nat) (items : List Layout) :
    itemsData depth items = items.map (datum depth) := by
  induction items with
  | nil => rfl
  | cons item rest ih => simp [itemsData, ih]

def entryDatum (depth : Nat) (entry : Token × Layout) : Option String × Datum :=
  (entry.1.key?, entry.2.datum depth)

theorem entriesData_eq_map (depth : Nat) (entries : List (Token × Layout)) :
    entriesData depth entries = entries.map (entryDatum depth) := by
  induction entries with
  | nil => rfl
  | cons entry rest ih => simp [entriesData, entryDatum, ih]

theorem datum_array (depth : Nat) (blanks : Blanks) (items : List Layout) :
    (array blanks items).datum depth =
      atDepth depth (.array (items.map (datum (depth + 1)))) := by
  rw [datum, itemsData_eq_map]

theorem datum_object (depth : Nat) (blanks : Blanks) (entries : List (Token × Layout)) :
    (object blanks entries).datum depth =
      atDepth depth (objectOf (entries.map (entryDatum (depth + 1)))) := by
  rw [datum, entriesData_eq_map]

theorem areWellFormed_iff {items : List Layout} :
    areWellFormed items = true ↔ ∀ item ∈ items, item.isWellFormed = true := by
  induction items with
  | nil => simp [areWellFormed]
  | cons item rest ih => simp [areWellFormed, ih]

theorem entriesWellFormed_iff {entries : List (Token × Layout)} :
    entriesWellFormed entries = true ↔
      ∀ entry ∈ entries, entry.1.isKey = true ∧ entry.2.isWellFormed = true := by
  induction entries with
  | nil => simp [entriesWellFormed]
  | cons entry rest ih => simp [entriesWellFormed, ih]

theorem isWellFormed_array_iff {blanks : Blanks} {items : List Layout} :
    (array blanks items).isWellFormed = true ↔
      blanks.areBlank = true ∧ ∀ item ∈ items, item.isWellFormed = true := by
  rw [isWellFormed, Bool.and_eq_true, areWellFormed_iff]

theorem isWellFormed_object_iff {blanks : Blanks} {entries : List (Token × Layout)} :
    (object blanks entries).isWellFormed = true ↔ blanks.areBlank = true ∧
      ∀ entry ∈ entries, entry.1.isKey = true ∧ entry.2.isWellFormed = true := by
  rw [isWellFormed, Bool.and_eq_true, entriesWellFormed_iff]

variable {layout : Layout}

theorem allBlank_after (h : layout.isWellFormed = true) : AllBlank layout.after := by
  cases layout with
  | scalar token =>
    obtain ⟨hblanks, -⟩ := (Bool.and_eq_true ..).mp h
    exact (Token.hasBlanks_iff.1 hblanks).2
  | array blanks items => exact (Blanks.areBlank_iff.1 (isWellFormed_array_iff.1 h).1).2.2
  | object blanks entries => exact (Blanks.areBlank_iff.1 (isWellFormed_object_iff.1 h).1).2.2

/-- Behind its blanks, the text of a datum starts with a character that closes nothing. -/
theorem exists_start (h : layout.isWellFormed = true) (rest : List Char) :
    ∃ c tail, skipBlanks (layout.chars ++ rest) = c :: tail ∧ c ≠ ']' ∧ c ≠ '\x7d' := by
  cases layout with
  | scalar token =>
    obtain ⟨hblanks, -⟩ := (Bool.and_eq_true ..).mp h
    obtain ⟨c, text, datum, hword, hstart, -⟩ := Token.exists_scalar h
    have hskip := (Token.hasBlanks_iff.1 hblanks).1.skipBlanks_cons
      (not_isBlank_of_startsScalar hstart) (text ++ (token.after ++ rest))
    exact ⟨c, text ++ (token.after ++ rest), by simp [chars, Token.chars, hword, hskip],
      ne_of_startsScalar hstart (by decide), ne_of_startsScalar hstart (by decide)⟩
  | array blanks items =>
    have hblanks := (Blanks.areBlank_iff.1 (isWellFormed_array_iff.1 h).1).1
    have hskip := hblanks.skipBlanks_cons (show isBlank '[' = false by decide)
      (itemsChars items ++ (blanks.inside ++ ']' :: (blanks.after ++ rest)))
    exact ⟨'[', _, by simp [chars, hskip]; rfl, by decide, by decide⟩
  | object blanks entries =>
    have hblanks := (Blanks.areBlank_iff.1 (isWellFormed_object_iff.1 h).1).1
    have hskip := hblanks.skipBlanks_cons (show isBlank '\x7b' = false by decide)
      (entriesChars entries ++ (blanks.inside ++ '\x7d' :: (blanks.after ++ rest)))
    exact ⟨'\x7b', _, by simp [chars, hskip]; rfl, by decide, by decide⟩

/-- Whether a layout is read from the front of a text as its datum, up to the blanks behind it,
wherever the bound allows it and nothing prolongs it. -/
def ReadsBack (layout : Layout) : Prop :=
  ∀ bound depth rest, layout.chars.length ≤ bound → Stops rest →
    read? bound depth (layout.chars ++ rest) = some (layout.datum depth, layout.after ++ rest)

theorem readsBack_scalar {token : Token} (h : token.isScalar = true) :
    ReadsBack (.scalar token) := by
  intro bound depth rest hbound hrest
  obtain ⟨hblanks, -⟩ := (Bool.and_eq_true ..).mp h
  obtain ⟨hbefore, hafter⟩ := Token.hasBlanks_iff.1 hblanks
  obtain ⟨c, text, datum, hword, hstart, hdatum, hread⟩ := Token.exists_scalar h
  obtain ⟨bound, rfl⟩ : ∃ n, bound = n + 1 :=
    ⟨bound - 1, by simp [chars, Token.chars, hword] at hbound; omega⟩
  have hscalar := hread (token.after ++ rest) (hafter.stops hrest)
  have hskip := hbefore.skipBlanks_cons (not_isBlank_of_startsScalar hstart)
    (text ++ (token.after ++ rest))
  have hbracket : c ≠ '[' := ne_of_startsScalar hstart (by decide)
  have hbrace : c ≠ '\x7b' := ne_of_startsScalar hstart (by decide)
  rw [hword, List.cons_append] at hscalar
  simp [read?, chars, Token.chars, hword, hskip, hbracket, hbrace, hscalar, Layout.datum, hdatum,
    after]

section Parts

variable {bound : Nat} (depth : Nat) {blanks : List Char} (hblanks : AllBlank blanks)
  (rest : List Char)

include hblanks

/-- Items are read one after the other, up to the bracket that closes them. -/
theorem readItems?_layouts {items : List Layout} (item : Layout)
    (hwell : ∀ one ∈ item :: items, one.isWellFormed = true)
    (hread : ∀ one ∈ item :: items, ReadsBack one)
    (hbound : item.chars.length + (laterItemsChars items).length < bound) :
    readItems? bound depth (item.chars ++ (laterItemsChars items ++ (blanks ++ ']' :: rest))) =
      some ((item :: items).map (datum depth), rest) := by
  have hafter := allBlank_after (hwell item List.mem_cons_self)
  induction items generalizing item bound with
  | nil =>
    obtain ⟨bound, rfl⟩ : ∃ n, bound = n + 1 := ⟨bound - 1, by omega⟩
    have hitem := hread item List.mem_cons_self bound depth (blanks ++ ']' :: rest)
      (by rw [laterItemsChars, List.length_nil] at hbound; omega)
      (hblanks.stops (stops_cons (by decide) rest))
    have hclose : skipBlanks (item.after ++ (blanks ++ ']' :: rest)) = ']' :: rest := by
      rw [hafter.skipBlanks_append, hblanks.skipBlanks_cons (by decide)]
    simp [readItems?, laterItemsChars, hitem, hclose]
  | cons next items ih =>
    simp only [laterItemsChars, List.length_cons, List.length_append] at hbound
    obtain ⟨bound, rfl⟩ : ∃ n, bound = n + 1 := ⟨bound - 1, by omega⟩
    have hitem := hread item List.mem_cons_self bound depth
      (',' :: (next.chars ++ (laterItemsChars items ++ (blanks ++ ']' :: rest)))) (by omega)
      (stops_cons (by decide) _)
    have hcomma := fun text => hafter.skipBlanks_cons (show isBlank ',' = false by decide) text
    have hinner : next.chars.length + (laterItemsChars items).length < bound := by omega
    have hitems := ih next (fun one hone => hwell one (List.mem_cons_of_mem _ hone))
      (fun one hone => hread one (List.mem_cons_of_mem _ hone)) hinner
      (allBlank_after (hwell next (by simp)))
    simp [readItems?, laterItemsChars, hitem, hcomma, hitems]

/-- An entry is read up to the comma behind it, or up to the brace that closes the last one. -/
theorem readEntries?_entry {entry : Token × Layout} (hkey : entry.1.isKey = true)
    (hvalue : entry.2.isWellFormed = true) (hread : ReadsBack entry.2)
    (hbound : entry.2.chars.length ≤ bound) :
    readEntries? (bound + 1) depth
        (entry.1.chars ++ ':' :: (entry.2.chars ++ (blanks ++ ',' :: rest))) =
      (readEntries? bound depth rest).map (fun found =>
        (entryDatum depth entry :: found.1, found.2)) ∧
    readEntries? (bound + 1) depth
        (entry.1.chars ++ ':' :: (entry.2.chars ++ (blanks ++ '\x7d' :: rest))) =
      some ([entryDatum depth entry], rest) := by
  obtain ⟨hbefore, hbehind⟩ := Token.hasBlanks_iff.1 ((Bool.and_eq_true ..).mp hkey).1
  obtain ⟨text, hword, hstring⟩ := Token.exists_string hkey
  have hquote := fun more => hbefore.skipBlanks_cons (show isBlank '\x22' = false by decide)
    (text ++ (entry.1.after ++ ':' :: more))
  have hname := fun more => hstring more trivial
  have hcolon := fun more => hbehind.skipBlanks_cons (show isBlank ':' = false by decide) more
  have hend : ∀ c, isBlank c = false →
      skipBlanks (entry.2.after ++ (blanks ++ c :: rest)) = c :: rest := fun c hc => by
    rw [(allBlank_after hvalue).skipBlanks_append, hblanks.skipBlanks_cons hc]
  constructor
  · have hdatum := hread bound depth (blanks ++ ',' :: rest) hbound
      (hblanks.stops (stops_cons (by decide) rest))
    cases hmore : readEntries? bound depth rest <;>
      simp [readEntries?, Token.chars, hword, hquote, hname, hcolon, hdatum,
        hend ',' (by decide), hmore, entryDatum]
  · have hdatum := hread bound depth (blanks ++ '\x7d' :: rest) hbound
      (hblanks.stops (stops_cons (by decide) rest))
    simp [readEntries?, Token.chars, hword, hquote, hname, hcolon, hdatum,
      hend '\x7d' (by decide), entryDatum]

/-- Entries are read one after the other, up to the brace that closes them. -/
theorem readEntries?_layouts {entries : List (Token × Layout)} (entry : Token × Layout)
    (hwell : ∀ one ∈ entry :: entries, one.1.isKey = true ∧ one.2.isWellFormed = true)
    (hread : ∀ one ∈ entry :: entries, ReadsBack one.2)
    (hbound : entry.2.chars.length + (laterEntriesChars entries).length < bound) :
    readEntries? bound depth (entry.1.chars ++ ':' :: (entry.2.chars ++
        (laterEntriesChars entries ++ (blanks ++ '\x7d' :: rest)))) =
      some ((entry :: entries).map (entryDatum depth), rest) := by
  obtain ⟨hkey, hvalue⟩ := hwell entry List.mem_cons_self
  have hentry := hread entry List.mem_cons_self
  induction entries generalizing entry bound with
  | nil =>
    obtain ⟨bound, rfl⟩ : ∃ n, bound = n + 1 := ⟨bound - 1, by omega⟩
    exact (readEntries?_entry depth hblanks rest hkey hvalue hentry (by omega)).2
  | cons next entries ih =>
    simp only [laterEntriesChars, List.length_cons, List.length_append] at hbound
    obtain ⟨bound, rfl⟩ : ∃ n, bound = n + 1 := ⟨bound - 1, by omega⟩
    obtain ⟨hkeyNext, hvalueNext⟩ := hwell next (by simp)
    have hinner : next.2.chars.length + (laterEntriesChars entries).length < bound := by omega
    have hrest := ih next (fun one hone => hwell one (List.mem_cons_of_mem _ hone))
      (fun one hone => hread one (List.mem_cons_of_mem _ hone)) hinner hkeyNext hvalueNext
      (hread next (by simp))
    have hnone : AllBlank [] := rfl
    have hstep := (readEntries?_entry depth hnone (next.1.chars ++ ':' :: (next.2.chars ++
      (laterEntriesChars entries ++ (blanks ++ '\x7d' :: rest)))) hkey hvalue hentry
      (show entry.2.chars.length ≤ bound by omega)).1
    rw [hrest] at hstep
    simpa [laterEntriesChars] using hstep

end Parts

theorem readsBack_array {blanks : Blanks} {items : List Layout} (hblanks : blanks.areBlank = true)
    (hwell : ∀ item ∈ items, item.isWellFormed = true) (hread : ∀ item ∈ items, ReadsBack item) :
    ReadsBack (.array blanks items) := by
  intro bound depth rest hbound _
  obtain ⟨hbefore, hinside, -⟩ := Blanks.areBlank_iff.1 hblanks
  have hopen := fun text => hbefore.skipBlanks_cons (show isBlank '[' = false by decide) text
  have hclose := fun text => hinside.skipBlanks_cons (show isBlank ']' = false by decide) text
  simp only [chars, List.length_append, List.length_cons] at hbound
  obtain ⟨bound, rfl⟩ : ∃ n, bound = n + 1 := ⟨bound - 1, by omega⟩
  cases items with
  | nil =>
    simp [chars, itemsChars, read?, hopen, hclose, Layout.datum, itemsData, after]
  | cons item items =>
    rw [itemsChars, List.length_append] at hbound
    have hitems := readItems?_layouts (depth + 1) hinside (blanks.after ++ rest) item hwell hread
      (show item.chars.length + (laterItemsChars items).length < bound by omega)
    obtain ⟨c, tail, hstart, hbracket, -⟩ := exists_start (hwell item List.mem_cons_self)
      (laterItemsChars items ++ (blanks.inside ++ ']' :: (blanks.after ++ rest)))
    simp [chars, itemsChars, read?, hopen, hstart, hbracket, hitems, Layout.datum,
      itemsData_eq_map, after]

theorem readsBack_object {blanks : Blanks} {entries : List (Token × Layout)}
    (hblanks : blanks.areBlank = true)
    (hwell : ∀ entry ∈ entries, entry.1.isKey = true ∧ entry.2.isWellFormed = true)
    (hread : ∀ entry ∈ entries, ReadsBack entry.2) : ReadsBack (.object blanks entries) := by
  intro bound depth rest hbound _
  obtain ⟨hbefore, hinside, -⟩ := Blanks.areBlank_iff.1 hblanks
  have hopen := fun text => hbefore.skipBlanks_cons (show isBlank '\x7b' = false by decide) text
  have hclose := fun text => hinside.skipBlanks_cons (show isBlank '\x7d' = false by decide) text
  simp only [chars, List.length_append, List.length_cons] at hbound
  obtain ⟨bound, rfl⟩ : ∃ n, bound = n + 1 := ⟨bound - 1, by omega⟩
  cases entries with
  | nil =>
    simp [chars, entriesChars, read?, hopen, hclose, Layout.datum, entriesData, after]
    rfl
  | cons entry entries =>
    simp only [entriesChars, List.length_append, List.length_cons] at hbound
    have hentries := readEntries?_layouts (depth + 1) hinside (blanks.after ++ rest) entry hwell
      hread (show entry.2.chars.length + (laterEntriesChars entries).length < bound by omega)
    obtain ⟨hkey, -⟩ := hwell entry List.mem_cons_self
    obtain ⟨text, hword, -⟩ := Token.exists_string hkey
    obtain ⟨hkeyBlanks, -⟩ := (Bool.and_eq_true ..).mp hkey
    have hquote := fun more => (Token.hasBlanks_iff.1 hkeyBlanks).1.skipBlanks_cons
      (show isBlank '\x22' = false by decide) (text ++ (entry.1.after ++ ':' :: more))
    have hdata : entriesData (depth + 1) (entry :: entries) =
        (entry :: entries).map (entryDatum (depth + 1)) := entriesData_eq_map _ _
    simp only [Token.chars, hword, List.append_assoc, List.cons_append] at hentries
    simp [chars, entriesChars, Token.chars, hword, read?, hopen, hquote, hentries, Layout.datum,
      hdata, after]

theorem readsBack_of_wellFormed (h : layout.isWellFormed = true) : ReadsBack layout := by
  induction layout using parts_induction with
  | scalar token => exact readsBack_scalar h
  | array blanks items ih =>
    obtain ⟨hblanks, hitems⟩ := isWellFormed_array_iff.1 h
    exact readsBack_array hblanks hitems fun item hitem => ih item hitem (hitems item hitem)
  | object blanks entries ih =>
    obtain ⟨hblanks, hentries⟩ := isWellFormed_object_iff.1 h
    exact readsBack_object hblanks hentries fun entry hentry =>
      ih entry hentry (hentries entry hentry).2

/-- The text of a layout is read as its datum. -/
theorem datum?_text (h : layout.isWellFormed = true) :
    datum? layout.text = some (layout.datum 0) := by
  have hread := readsBack_of_wellFormed h (layout.chars.length + 1) 0 [] (Nat.le_succ _) stops_nil
  have hafter : skipBlanks layout.after = [] := by
    have hnone := (allBlank_after h).skipBlanks_append []
    rwa [List.append_nil] at hnone
  rw [List.append_nil, List.append_nil] at hread
  simp [datum?, text, hread, hafter]

/-- What is found at the front of a text within a bound is written there as a layout, with
blanks behind it as many as one likes. -/
structure WrittenWithin (bound : Nat) : Prop where
  whole : ∀ {depth text datum rest blanks more}, read? bound depth text = some (datum, rest) →
    AllBlank blanks → rest = blanks ++ more →
    ∃ layout : Layout, layout.isWellFormed = true ∧ text = layout.chars ++ more ∧
      layout.datum depth = datum
  items : ∀ {depth text data rest}, readItems? bound depth text = some (data, rest) →
    ∃ (item : Layout) (items : List Layout), (∀ one ∈ item :: items, one.isWellFormed = true) ∧
      text = item.chars ++ (laterItemsChars items ++ ']' :: rest) ∧
      (item :: items).map (datum depth) = data
  entries : ∀ {depth text data rest}, readEntries? bound depth text = some (data, rest) →
    ∃ (entry : Token × Layout) (entries : List (Token × Layout)),
      (∀ one ∈ entry :: entries, one.1.isKey = true ∧ one.2.isWellFormed = true) ∧
      text = entry.1.chars ++
        ':' :: (entry.2.chars ++ (laterEntriesChars entries ++ '\x7d' :: rest)) ∧
      (entry :: entries).map (entryDatum depth) = data

theorem exists_items {bound : Nat} (ih : WrittenWithin bound) {depth : Nat} {text rest : List Char}
    {data : List Datum} (h : readItems? (bound + 1) depth text = some (data, rest)) :
    ∃ (item : Layout) (items : List Layout), (∀ one ∈ item :: items, one.isWellFormed = true) ∧
      text = item.chars ++ (laterItemsChars items ++ ']' :: rest) ∧
      (item :: items).map (datum depth) = data := by
  obtain ⟨⟨first, behind⟩, hfirst, hfound⟩ := Option.bind_eq_some_iff.1 h
  obtain ⟨blanks, hblanks, hbehind⟩ := exists_blanks behind
  clear h
  dsimp only at hfound
  split at hfound
  · next more hcomma =>
    obtain ⟨⟨others, after⟩, hothers, hfound⟩ := Option.bind_eq_some_iff.1 hfound
    obtain ⟨rfl, rfl⟩ := Prod.mk.inj (Option.some.inj hfound)
    obtain ⟨next, items, hwell, rfl, rfl⟩ := ih.items hothers
    obtain ⟨item, hitem, rfl, rfl⟩ := ih.whole hfirst hblanks (hcomma ▸ hbehind)
    exact ⟨item, next :: items, List.forall_mem_cons.2 ⟨hitem, hwell⟩,
      by simp [laterItemsChars], rfl⟩
  · next more hclose =>
    obtain ⟨rfl, rfl⟩ := Prod.mk.inj (Option.some.inj hfound)
    obtain ⟨item, hitem, rfl, rfl⟩ := ih.whole hfirst hblanks (hclose ▸ hbehind)
    exact ⟨item, [], by simpa using hitem, by simp [laterItemsChars], rfl⟩
  · simp at hfound

/-- A key that is found behind blanks is written as a token, up to the colon behind it. -/
theorem exists_key {text word behind value : List Char} {name : Option String}
    (hquote : skipBlanks text = '\x22' :: word) (hname : string? word = some (name, behind))
    (hcolon : skipBlanks behind = ':' :: value) :
    ∃ token : Token, token.isKey = true ∧ token.key? = name ∧
      text = token.chars ++ ':' :: value := by
  obtain ⟨before, hbefore, htext⟩ := exists_blanks text
  obtain ⟨after, hafter, hbehind⟩ := exists_blanks behind
  obtain ⟨spelled, rfl, hread⟩ := string?_eq_some hname
  have hstring : Token.string? ⟨before, '\x22' :: spelled, after⟩ = some name := by
    have halone := hread [] trivial
    rw [List.append_nil] at halone
    simp [Token.string?, halone]
  refine ⟨⟨before, '\x22' :: spelled, after⟩, ?_, ?_, ?_⟩
  · rw [Token.isKey, hstring, Token.hasBlanks_iff.2 ⟨hbefore, hafter⟩]
    rfl
  · rw [Token.key?, hstring]
    rfl
  · rw [htext, hquote, hbehind, hcolon]
    simp [Token.chars]

theorem exists_entries {bound : Nat} (ih : WrittenWithin bound) {depth : Nat}
    {text rest : List Char} {data : List (Option String × Datum)}
    (h : readEntries? (bound + 1) depth text = some (data, rest)) :
    ∃ (entry : Token × Layout) (entries : List (Token × Layout)),
      (∀ one ∈ entry :: entries, one.1.isKey = true ∧ one.2.isWellFormed = true) ∧
      text = entry.1.chars ++
        ':' :: (entry.2.chars ++ (laterEntriesChars entries ++ '\x7d' :: rest)) ∧
      (entry :: entries).map (entryDatum depth) = data := by
  rw [readEntries?] at h
  split at h
  · next word hquote =>
    obtain ⟨⟨name, behindKey⟩, hname, hfound⟩ := Option.bind_eq_some_iff.1 h
    clear h
    dsimp only at hfound
    split at hfound
    · next value hcolon =>
      obtain ⟨token, hkey, rfl, rfl⟩ := exists_key hquote hname hcolon
      obtain ⟨⟨datum, behind⟩, hdatum, hbehindDatum⟩ := Option.bind_eq_some_iff.1 hfound
      obtain ⟨blanks, hblanks, hbehind⟩ := exists_blanks behind
      clear hfound
      dsimp only at hbehindDatum
      split at hbehindDatum
      · next more hcomma =>
        obtain ⟨⟨others, after⟩, hothers, hdone⟩ := Option.bind_eq_some_iff.1 hbehindDatum
        obtain ⟨rfl, rfl⟩ := Prod.mk.inj (Option.some.inj hdone)
        obtain ⟨next, entries, hwell, rfl, rfl⟩ := ih.entries hothers
        obtain ⟨layout, hlayout, rfl, rfl⟩ := ih.whole hdatum hblanks (hcomma ▸ hbehind)
        exact ⟨⟨token, layout⟩, next :: entries,
          List.forall_mem_cons.2 ⟨⟨hkey, hlayout⟩, hwell⟩, by simp [laterEntriesChars], rfl⟩
      · next more hclose =>
        obtain ⟨rfl, rfl⟩ := Prod.mk.inj (Option.some.inj hbehindDatum)
        obtain ⟨layout, hlayout, rfl, rfl⟩ := ih.whole hdatum hblanks (hclose ▸ hbehind)
        exact ⟨⟨token, layout⟩, [], by simpa using ⟨hkey, hlayout⟩, by simp [laterEntriesChars],
          rfl⟩
      · simp at hbehindDatum
    · simp at hfound
  · simp at h

theorem exists_whole {bound : Nat} (ih : WrittenWithin bound) {depth : Nat}
    {text rest blanks more : List Char} {datum : Datum}
    (h : read? (bound + 1) depth text = some (datum, rest)) (hblanks : AllBlank blanks)
    (hrest : rest = blanks ++ more) :
    ∃ layout : Layout, layout.isWellFormed = true ∧ text = layout.chars ++ more ∧
      layout.datum depth = datum := by
  subst hrest
  obtain ⟨before, hbefore, htext⟩ := exists_blanks text
  rw [read?] at h
  split at h
  · next opened hopen =>
    obtain ⟨inside, hinside, hopened⟩ := exists_blanks opened
    split at h
    · next closed hclose =>
      obtain ⟨rfl, rfl⟩ := Prod.mk.inj (Option.some.inj h)
      refine ⟨.array ⟨before, inside, blanks⟩ [], ?_, ?_, rfl⟩
      · exact isWellFormed_array_iff.2
          ⟨Blanks.areBlank_iff.2 ⟨hbefore, hinside, hblanks⟩, by simp⟩
      · rw [htext, hopen, hopened, hclose]
        simp [chars, itemsChars]
    · obtain ⟨⟨data, after⟩, hdata, h⟩ := Option.bind_eq_some_iff.1 h
      obtain ⟨rfl, rfl⟩ := Prod.mk.inj (Option.some.inj h)
      obtain ⟨item, items, hwell, hitems, rfl⟩ := ih.items hdata
      refine ⟨.array ⟨before, [], blanks⟩ (item :: items), ?_, ?_, ?_⟩
      · exact isWellFormed_array_iff.2 ⟨Blanks.areBlank_iff.2 ⟨hbefore, rfl, hblanks⟩, hwell⟩
      · rw [htext, hopen, hitems]
        simp [chars, itemsChars]
      · exact datum_array depth _ _
  · next opened hopen =>
    obtain ⟨inside, hinside, hopened⟩ := exists_blanks opened
    split at h
    · next closed hclose =>
      obtain ⟨rfl, rfl⟩ := Prod.mk.inj (Option.some.inj h)
      refine ⟨.object ⟨before, inside, blanks⟩ [], ?_, ?_, rfl⟩
      · exact isWellFormed_object_iff.2
          ⟨Blanks.areBlank_iff.2 ⟨hbefore, hinside, hblanks⟩, by simp⟩
      · rw [htext, hopen, hopened, hclose]
        simp [chars, entriesChars]
    · obtain ⟨⟨data, after⟩, hdata, h⟩ := Option.bind_eq_some_iff.1 h
      obtain ⟨rfl, rfl⟩ := Prod.mk.inj (Option.some.inj h)
      obtain ⟨entry, entries, hwell, hentries, rfl⟩ := ih.entries hdata
      refine ⟨.object ⟨before, [], blanks⟩ (entry :: entries), ?_, ?_, ?_⟩
      · exact isWellFormed_object_iff.2 ⟨Blanks.areBlank_iff.2 ⟨hbefore, rfl, hblanks⟩, hwell⟩
      · rw [htext, hopen, hentries]
        simp [chars, entriesChars]
      · exact datum_object depth _ _
  · obtain ⟨c, token, hword, -, hread⟩ := scalar?_eq_some h
    have hscalar : Token.scalar? ⟨before, c :: token, blanks⟩ = some datum := by
      have htoken := hread [] stops_nil
      rw [List.append_nil] at htoken
      rw [Token.scalar?, htoken]
    refine ⟨.scalar ⟨before, c :: token, blanks⟩, ?_, ?_, ?_⟩
    · rw [isWellFormed, Token.isScalar, hscalar, Token.hasBlanks_iff.2 ⟨hbefore, hblanks⟩]
      rfl
    · rw [htext, hword]
      simp [chars, Token.chars]
    · rw [Layout.datum, hscalar]
      rfl

theorem writtenWithin (bound : Nat) : WrittenWithin bound := by
  induction bound with
  | zero =>
    constructor
    · intro depth text datum rest blanks more h
      simp [read?] at h
    · intro depth text data rest h
      simp [readItems?] at h
    · intro depth text data rest h
      simp [readEntries?] at h
  | succ bound ih => exact ⟨exists_whole ih, exists_items ih, exists_entries ih⟩

/-- Every text that is read is the text of a layout. -/
theorem exists_layout {text : String} {datum : Datum} (h : datum? text = some datum) :
    ∃ layout : Layout, layout.isWellFormed = true ∧ layout.text = text := by
  rw [datum?] at h
  split at h
  · next found rest hread =>
    split at h
    · next hblank =>
      obtain ⟨blanks, hblanks, hrest⟩ := exists_blanks rest
      rw [List.isEmpty_iff.1 hblank] at hrest
      obtain ⟨layout, hlayout, htext, -⟩ := (writtenWithin _).whole hread hblanks hrest
      rw [List.append_nil] at htext
      exact ⟨layout, hlayout, by rw [Layout.text, ← htext, String.ofList_toList]⟩
    · simp at h
  · simp at h

end Layout

end SearchQuery.Json
