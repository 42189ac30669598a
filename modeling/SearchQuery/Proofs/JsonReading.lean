import SearchQuery.Json
import SearchQuery.Proofs.JsonTokens
import SearchQuery.Proofs.ValueData

/-!
Reading the compact text of a value. Each part of the text is read back by its own reader:
whole numbers by their longest run of digits, strings character by character, and arrays and
objects item by item, on a bound that is as large as what they read. So the text of a value
whose numbers are whole, nested as deep as is allowed, is read as the datum of the value.
-/
namespace SearchQuery.Json

section Numbers

variable {rest : List Char} (hrest : Follows rest)

include hrest

theorem whole?_digitsOf (n : Nat) : whole? (digitsOf n ++ rest) = some (digitsOf n, rest) := by
  by_cases hzero : n = 0
  · rw [hzero, digitsOf_zero]
    rfl
  · have hdigits := digits?_append_of_noDigit (fun _ => isDigit_of_mem_digitsOf)
      (digitsOf_ne_nil n) (stops_of_follows hrest).noDigit
    obtain ⟨c, tail, hcons⟩ := List.exists_cons_of_ne_nil (digitsOf_ne_nil n)
    have hhead : c ≠ '0' := fun h => hzero (eq_zero_of_leading_zero (by simp [hcons, h]))
    rw [← hdigits, hcons, List.cons_append]
    exact whole?.eq_2 _ fun _ h => hhead (List.cons.inj h).1

def wholeNumeral (n : Int) : Numeral := ⟨n < 0, digitsOf n.natAbs, none, none⟩

theorem numeral?_wholeText (n : Int) :
    numeral? (wholeText n ++ rest) = some (wholeNumeral n, rest) := by
  have hwhole := whole?_digitsOf hrest n.natAbs
  have hstops := stops_of_follows hrest
  have hfraction : fraction? rest = some (none, rest) :=
    fraction?_of_no_point fun hc => (hstops '.' hc).2.1 rfl
  have hpower := power?_of_stops hstops
  by_cases hneg : n < 0
  · simp [numeral?, wholeText, wholeNumeral, hneg, hwhole, hfraction, hpower]
  · obtain ⟨c, tail, hcons⟩ := List.exists_cons_of_ne_nil (digitsOf_ne_nil n.natAbs)
    have hdigit : c.isDigit = true := isDigit_of_mem_digitsOf (hcons ▸ List.mem_cons_self)
    have hminus : c ≠ '-' := by
      rintro rfl
      simp at hdigit
    rw [hcons, List.cons_append] at hwhole
    simp [numeral?, wholeText, wholeNumeral, hneg, hcons, hminus, hwhole, hfraction, hpower]

end Numbers

/-- A whole number that fits 64 bits is read as itself. -/
theorem numberDatum_whole {n : Int} (hlow : -Int.pow 2 63 ≤ n) (hhigh : n < Int.pow 2 64) :
    numberDatum (wholeNumeral n) = .int n := by
  have hvalue : (wholeNumeral n).wholeValue = n.natAbs := valueOfDigits_digitsOf n.natAbs
  have hlow' : -(2 : Int) ^ 63 ≤ n := hlow
  have hhigh' : n < (2 : Int) ^ 64 := hhigh
  have hbound : Nat.pow 2 63 = 9223372036854775808 ∧ Nat.pow 2 64 = 18446744073709551616 := by
    decide
  have hwhole : (wholeNumeral n).isWhole = true := rfl
  rw [numberDatum]
  simp only [hwhole, hvalue, if_true, hbound.1, hbound.2]
  by_cases hneg : n < 0
  · have hsign : (wholeNumeral n).negative = true := decide_eq_true hneg
    rw [if_neg (by simp [hsign]), if_pos ⟨hsign, by omega, by omega⟩]
    congr 1
    omega
  · have hsign : (wholeNumeral n).negative = false := decide_eq_false hneg
    rw [if_pos ⟨by simp [hsign], by omega⟩]
    congr 1
    omega

/-- The part of a string as which a character is read back: control characters that have no
letter of their own are written as units. -/
def partOf (c : Char) : StringPart :=
  if c < ' ' ∧ c ∉ ['\x08', '\x0c', '\n', '\r', '\t'] then .unit c.toNat else .char c

theorem fourHexDigits?_control {n : Nat} (h : n < 32) :
    fourHexDigits? '0' '0' (Value.hexDigit (n / 16)) (Value.hexDigit (n % 16)) = some n := by
  have hall : ∀ n < 32, fourHexDigits? '0' '0' (Nat.digitChar (n / 16))
      (Nat.digitChar (n % 16)) = some n := by decide
  exact hall n h

theorem stringParts?_escaped (c : Char) (text : List Char) :
    stringParts? (Value.escaped c ++ text) =
      (stringParts? text).map fun found => (partOf c :: found.1, found.2) := by
  by_cases hnamed : c ∈ ['\x22', '\\', '\x08', '\x0c', '\n', '\r', '\t']
  · simp only [List.mem_cons, List.not_mem_nil, or_false] at hnamed
    rcases hnamed with rfl | rfl | rfl | rfl | rfl | rfl | rfl <;>
      cases htext : stringParts? text <;>
      simp [Value.escaped, stringParts?, escape?, partOf, htext]
  · simp only [List.mem_cons, List.not_mem_nil, or_false, not_or] at hnamed
    obtain ⟨hquote, hslash, hb, hf, hn, hr, ht⟩ := hnamed
    by_cases hcontrol : c < ' '
    · have hsmall : c.toNat < 32 := hcontrol
      have hpart : partOf c = .unit c.toNat := if_pos ⟨hcontrol, by simp [hb, hf, hn, hr, ht]⟩
      have hescaped : Value.escaped c = ['\\', 'u', '0', '0', Value.hexDigit (c.toNat / 16),
          Value.hexDigit (c.toNat % 16)] := by
        simp [Value.escaped, hquote, hslash, hb, hf, hn, hr, ht, hcontrol]
      rw [hescaped, hpart]
      cases htext : stringParts? text <;>
        simp [stringParts?, fourHexDigits?_control hsmall, htext]
    · have hpart : partOf c = .char c := if_neg fun h => hcontrol h.1
      have hescaped : Value.escaped c = [c] := by
        simp [Value.escaped, hquote, hslash, hb, hf, hn, hr, ht, hcontrol]
      rw [hescaped, hpart, List.singleton_append]
      cases htext : stringParts? text <;>
        simp [stringParts?, hquote, hslash, hcontrol, htext]

theorem textOfParts?_unit {n : Nat} (h : n < 0xD800) (parts : List StringPart) :
    textOfParts? (.unit n :: parts) = (textOfParts? parts).map (Char.ofNat n :: ·) := by
  have hleading : isLeading n = false := by simp [isLeading]; omega
  have htrailing : isTrailing n = false := by simp [isTrailing]; omega
  cases parts with
  | nil => simp [textOfParts?, hleading, htrailing]
  | cons part rest => cases part <;> simp [textOfParts?, hleading, htrailing]

theorem textOfParts?_partOf (c : Char) (parts : List StringPart) :
    textOfParts? (partOf c :: parts) = (textOfParts? parts).map (c :: ·) := by
  unfold partOf
  split
  · next hcontrol =>
    have hsmall : c.toNat < 32 := hcontrol.1
    rw [textOfParts?_unit (by omega), Char.ofNat_toNat]
  · rfl

/-- A string is read back from its text between quotes, after the first of them. -/
theorem string?_quoted (s rest : List Char) :
    string? (s.flatMap Value.escaped ++ '\x22' :: rest) = some (some (String.ofList s), rest) := by
  have hparts : stringParts? (s.flatMap Value.escaped ++ '\x22' :: rest) =
      some (s.map partOf, rest) := by
    induction s with
    | nil => simp [stringParts?]
    | cons c tail ih =>
      rw [List.flatMap_cons, List.append_assoc, stringParts?_escaped, ih]
      rfl
  have htext : textOfParts? (s.map partOf) = some s := by
    clear hparts
    induction s with
    | nil => rfl
    | cons c tail ih => rw [List.map_cons, textOfParts?_partOf, ih]; rfl
  simp [string?, hparts, htext]

theorem skipBlanks_cons {c : Char} (h : isBlank c = false) (tail : List Char) :
    skipBlanks (c :: tail) = c :: tail := by
  simp [skipBlanks, h]

theorem not_isBlank_of_startsScalar {c : Char} (h : startsScalar c = true) :
    isBlank c = false := by
  have hne : ∀ d, startsScalar d = false → c ≠ d := fun d => ne_of_startsScalar h
  simp [isBlank, hne ' ' (by decide), hne '\t' (by decide), hne '\n' (by decide),
    hne '\r' (by decide)]

def isPlain : Value → Bool
  | .array _ => false
  | .object _ => false
  | .float _ => false
  | _ => true

theorem exists_chars_cons {value : Value} (h : isPlain value = true) :
    ∃ c tail, value.chars = c :: tail ∧ startsScalar c = true := by
  cases value with
  | null => exact ⟨_, _, rfl, by decide⟩
  | bool b => cases b <;> exact ⟨_, _, rfl, by decide⟩
  | int n =>
    obtain ⟨c, tail, htext, rfl | hdigit⟩ := exists_wholeText_cons n
    · exact ⟨_, _, htext, by decide⟩
    · exact ⟨_, _, htext, by simp [startsScalar, hdigit]⟩
  | string s => exact ⟨_, _, rfl, by decide⟩
  | _ => simp [isPlain] at h

theorem scalar?_wholeText {n : Int} (hfits : (Value.int n).fits = true) {rest : List Char}
    (hrest : Follows rest) : scalar? (wholeText n ++ rest) = some (.int n, rest) := by
  obtain ⟨hlow, hhigh⟩ := of_decide_eq_true hfits
  have hread : scalar? (wholeText n ++ rest) =
      (numeral? (wholeText n ++ rest)).map fun found => (numberDatum found.1, found.2) := by
    obtain ⟨c, tail, htext, hstart⟩ := exists_wholeText_cons n
    have hother : c ≠ '\x22' ∧ c ≠ 'n' ∧ c ≠ 't' ∧ c ≠ 'f' := by
      refine ⟨?_, ?_, ?_, ?_⟩ <;> rintro rfl <;> simp at hstart
    rw [htext, List.cons_append]
    cases hnumeral : numeral? (c :: (tail ++ rest)) <;>
      simp [scalar?, hother, hnumeral]
  rw [hread, numeral?_wholeText hrest, Option.map_some, numberDatum_whole hlow hhigh]

theorem scalar?_chars {value : Value} (h : isPlain value = true) (hfits : value.fits = true)
    {rest : List Char} (hrest : Follows rest) :
    scalar? (value.chars ++ rest) = some (value.datum, rest) := by
  cases value with
  | null => simp [Value.chars, scalar?, afterWord?, Value.datum]
  | bool b => cases b <;> simp [Value.chars, scalar?, afterWord?, Value.datum]
  | int n => exact scalar?_wholeText hfits hrest
  | string s => simp [Value.chars, Value.quoted, scalar?, string?_quoted, Value.datum]
  | _ => simp [isPlain] at h

/-- Every value starts with a character that is no blank and closes nothing. -/
theorem exists_start {value : Value} (hfits : value.fits = true) :
    ∃ c tail, value.chars = c :: tail ∧ isBlank c = false ∧ c ≠ ']' ∧ c ≠ '\x7d' := by
  by_cases h : isPlain value = true
  · obtain ⟨c, tail, htext, hstart⟩ := exists_chars_cons h
    exact ⟨c, tail, htext, not_isBlank_of_startsScalar hstart,
      ne_of_startsScalar hstart (by decide), ne_of_startsScalar hstart (by decide)⟩
  · cases value with
    | array values => cases values <;> exact ⟨_, _, rfl, by decide⟩
    | object o => cases o <;> exact ⟨_, _, rfl, by decide⟩
    | float x => simp [Value.fits] at hfits
    | _ => simp [isPlain] at h

/-- Whether a value is read from the front of a text, wherever the bound and the depth allow
it. -/
def ReadsBack (value : Value) : Prop :=
  ∀ bound depth rest, value.chars.length ≤ bound → depth + value.depth ≤ maxDepth →
    Follows rest → read? bound depth (value.chars ++ rest) = some (value.datum, rest)

theorem readsBack_of_isPlain {value : Value} (h : isPlain value = true)
    (hfits : value.fits = true) : ReadsBack value := by
  intro bound depth rest hbound _ hrest
  have hscalar := scalar?_chars h hfits hrest
  obtain ⟨c, tail, htext, hstart⟩ := exists_chars_cons h
  obtain ⟨bound, rfl⟩ : ∃ n, bound = n + 1 := ⟨bound - 1, by simp [htext] at hbound; omega⟩
  have hbracket : c ≠ '[' := ne_of_startsScalar hstart (by decide)
  have hbrace : c ≠ '\x7b' := ne_of_startsScalar hstart (by decide)
  rw [htext, List.cons_append] at hscalar ⊢
  simp [read?, skipBlanks_cons (not_isBlank_of_startsScalar hstart), hbracket, hbrace, hscalar]

theorem readItems?_chars {values : List Value} (value : Value) {bound depth : Nat}
    (hread : ∀ item ∈ value :: values, ReadsBack item)
    (hbound : value.chars.length + (Value.itemsChars values).length ≤ bound)
    (hdepth : ∀ item ∈ value :: values, depth + item.depth ≤ maxDepth) (rest : List Char) :
    readItems? bound depth (value.chars ++ (Value.itemsChars values ++ rest)) =
      some ((value :: values).map Value.datum, rest) := by
  induction values generalizing value bound with
  | nil =>
    rw [Value.itemsChars, List.length_singleton] at hbound
    obtain ⟨bound, rfl⟩ : ∃ n, bound = n + 1 := ⟨bound - 1, by omega⟩
    have hvalue := hread value List.mem_cons_self bound depth (']' :: rest) (by omega)
      (hdepth value List.mem_cons_self) (follows_cons (by simp) rest)
    simp [readItems?, Value.itemsChars, hvalue, skipBlanks_cons (show isBlank ']' = false by decide)]
  | cons next values ih =>
    rw [Value.itemsChars, List.cons_append, List.length_cons, List.length_append] at hbound
    obtain ⟨bound, rfl⟩ : ∃ n, bound = n + 1 := ⟨bound - 1, by omega⟩
    have hvalue := hread value List.mem_cons_self bound depth
      (',' :: (next.chars ++ (Value.itemsChars values ++ rest))) (by omega)
      (hdepth value List.mem_cons_self) (follows_cons (by simp) _)
    have hrest : next.chars.length + (Value.itemsChars values).length ≤ bound := by omega
    have hitems := ih next
      (fun item hitem => hread item (List.mem_cons_of_mem _ hitem)) hrest
      (fun item hitem => hdepth item (List.mem_cons_of_mem _ hitem))
    simp [readItems?, Value.itemsChars, hvalue, hitems,
      skipBlanks_cons (show isBlank ',' = false by decide)]

theorem readsBack_array {values : List Value} (hread : ∀ value ∈ values, ReadsBack value)
    (hfits : ∀ value ∈ values, value.fits = true) : ReadsBack (.array values) := by
  intro bound depth rest hbound hdepth _
  have hpos := Value.depth_array_pos values
  have hplace : depth < maxDepth := by omega
  have hopen := skipBlanks_cons (show isBlank '[' = false by decide)
  have hclose := skipBlanks_cons (show isBlank ']' = false by decide)
  cases values with
  | nil =>
    obtain ⟨bound, rfl⟩ : ∃ n, bound = n + 1 := ⟨bound - 1, by simp [Value.chars] at hbound; omega⟩
    simp [Value.chars, read?, hopen, hclose, atDepth, hplace, Value.datum_array]
  | cons value values =>
    simp only [Value.chars, List.cons_append, List.length_cons, List.length_append] at hbound
    obtain ⟨bound, rfl⟩ : ∃ n, bound = n + 1 := ⟨bound - 1, by omega⟩
    have hinner : value.chars.length + (Value.itemsChars values).length ≤ bound := by omega
    have hitems := readItems?_chars value hread hinner
      (fun item hitem => show depth + 1 + item.depth ≤ maxDepth by
        have := Value.depth_item_lt hitem
        omega) rest
    obtain ⟨c, tail, htext, hblank, hother, -⟩ := exists_start (hfits value List.mem_cons_self)
    rw [htext, List.cons_append] at hitems
    simp [Value.chars, htext, read?, hopen, skipBlanks_cons hblank, hother, hitems, atDepth,
      hplace, Value.datum_array]

def readEntry (entry : String × Value) : Option String × Datum := (some entry.1, entry.2.datum)

def textEntry (entry : String × Datum) : Option String × Datum := (some entry.1, entry.2)

/-- An object whose keys are all texts has its entries. -/
theorem objectOf_textEntry (entries : List (String × Datum)) :
    objectOf (entries.map textEntry) = .object entries := by
  have hentries : (entries.map textEntry).mapM
      (fun entry => entry.1.map fun key => (key, entry.2)) = some entries := by
    induction entries with
    | nil => rfl
    | cons entry rest ih => simp [textEntry, ih]
  rw [objectOf, hentries]

theorem objectOf_readEntry (o : Object) :
    objectOf (o.map readEntry) = (Value.object o).datum := by
  rw [Value.datum_object, ← objectOf_textEntry, List.map_map]
  rfl

theorem readEntries?_chars {o : Object} (entry : String × Value) {bound depth : Nat}
    (hread : ∀ item ∈ entry :: o, ReadsBack item.2)
    (hbound : entry.2.chars.length + (Value.entriesChars o).length ≤ bound)
    (hdepth : ∀ item ∈ entry :: o, depth + item.2.depth ≤ maxDepth) (rest : List Char) :
    readEntries? bound depth (Value.quoted entry.1.toList ++
        (':' :: (entry.2.chars ++ (Value.entriesChars o ++ rest)))) =
      some ((entry :: o).map readEntry, rest) := by
  have hquote := skipBlanks_cons (show isBlank '\x22' = false by decide)
  have hcolon := skipBlanks_cons (show isBlank ':' = false by decide)
  have hcomma := skipBlanks_cons (show isBlank ',' = false by decide)
  have hclose := skipBlanks_cons (show isBlank '\x7d' = false by decide)
  induction o generalizing entry bound with
  | nil =>
    rw [Value.entriesChars, List.length_singleton] at hbound
    obtain ⟨bound, rfl⟩ : ∃ n, bound = n + 1 := ⟨bound - 1, by omega⟩
    have hvalue := hread entry List.mem_cons_self bound depth ('\x7d' :: rest) (by omega)
      (hdepth entry List.mem_cons_self) (follows_cons (by simp) rest)
    simp [readEntries?, Value.quoted, Value.entriesChars, hquote, hcolon, hclose, string?_quoted,
      hvalue, readEntry]
  | cons next o ih =>
    rw [Value.entriesChars] at hbound
    simp only [List.cons_append, List.length_cons, List.length_append] at hbound
    obtain ⟨bound, rfl⟩ : ∃ n, bound = n + 1 := ⟨bound - 1, by omega⟩
    have hrest : next.2.chars.length + (Value.entriesChars o).length ≤ bound := by omega
    have hentries := ih next
      (fun item hitem => hread item (List.mem_cons_of_mem _ hitem)) hrest
      (fun item hitem => hdepth item (List.mem_cons_of_mem _ hitem))
    have hvalue := hread entry List.mem_cons_self bound depth
      (',' :: (Value.quoted next.1.toList ++
        (':' :: (next.2.chars ++ (Value.entriesChars o ++ rest))))) (by omega)
      (hdepth entry List.mem_cons_self) (follows_cons (by simp) _)
    simp only [Value.quoted, List.cons_append, List.append_assoc, List.nil_append] at hentries hvalue
    simp [readEntries?, Value.quoted, Value.entriesChars, hquote, hcolon, hcomma, string?_quoted,
      hvalue, hentries, readEntry]

theorem readsBack_object {o : Object} (hread : ∀ entry ∈ o, ReadsBack entry.2) :
    ReadsBack (.object o) := by
  intro bound depth rest hbound hdepth _
  have hpos := Value.depth_object_pos o
  have hplace : depth < maxDepth := by omega
  have hopen := skipBlanks_cons (show isBlank '\x7b' = false by decide)
  have hclose := skipBlanks_cons (show isBlank '\x7d' = false by decide)
  have hquote := skipBlanks_cons (show isBlank '\x22' = false by decide)
  cases o with
  | nil =>
    obtain ⟨bound, rfl⟩ : ∃ n, bound = n + 1 := ⟨bound - 1, by simp [Value.chars] at hbound; omega⟩
    simp [Value.chars, read?, hopen, hclose, atDepth, hplace, Value.datum_object]
  | cons entry o =>
    simp only [Value.chars, List.cons_append, List.length_cons, List.length_append] at hbound
    obtain ⟨bound, rfl⟩ : ∃ n, bound = n + 1 := ⟨bound - 1, by omega⟩
    have hinner : entry.2.chars.length + (Value.entriesChars o).length ≤ bound := by omega
    have hentries := readEntries?_chars entry hread hinner
      (fun item hitem => show depth + 1 + item.2.depth ≤ maxDepth by
        have := Value.depth_entry_lt hitem
        omega) rest
    have hobject : objectOf (readEntry entry :: o.map readEntry) =
        (Value.object (entry :: o)).datum := objectOf_readEntry (entry :: o)
    simp only [Value.quoted, List.cons_append, List.append_assoc, List.nil_append] at hentries
    simp [Value.chars, Value.quoted, read?, hopen, hquote, hentries, atDepth, hplace, hobject]

/-- Every value whose numbers are whole ones that fit is read back from its text. -/
theorem readsBack_of_whole {value : Value} (hwhole : value.Whole) : ReadsBack value := by
  induction value using Value.parts_induction with
  | float x => exact absurd (hwhole _ .here) (by simp [Value.fits])
  | array values ih =>
    have hitems := Value.whole_array_iff.1 hwhole
    exact readsBack_array (fun item hitem => ih item hitem (hitems item hitem))
      fun item hitem => hitems item hitem item .here
  | object o ih =>
    have hentries := Value.whole_object_iff.1 hwhole
    exact readsBack_object fun entry hentry => ih entry hentry (hentries entry hentry)
  | _ => exact readsBack_of_isPlain rfl (hwhole _ .here)

/-- The text of a value is read as the datum of the value. -/
theorem datum?_text {value : Value} (hwhole : value.Whole) (hdepth : value.depth ≤ maxDepth) :
    datum? value.text = some value.datum := by
  have hread := readsBack_of_whole hwhole (value.chars.length + 1) 0 [] (Nat.le_succ _)
    (by omega) follows_nil
  rw [List.append_nil] at hread
  simp [datum?, Value.text, hread, skipBlanks]

end SearchQuery.Json
