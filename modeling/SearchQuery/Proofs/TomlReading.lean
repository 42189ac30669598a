import SearchQuery.Proofs.SortedKeys
import SearchQuery.Proofs.TomlScalars
import SearchQuery.Toml.Table

/-!
Reading the TOML text of a value. A value without nulls, whose numbers are whole, is read back
as the item that it is written as: its inline tables have paths of one key. The item builds the
datum of the value with sorted keys. The reader recurses on a bound for the length of the text,
which is at least as long as what is left to read.
-/
namespace SearchQuery.Toml

mutual

def itemOf : Value → Item
  | .array values => .array (itemsOf values)
  | .object o => .table (entriesOf o)
  | value => .scalar value.datum

def itemsOf : List Value → List Item
  | [] => []
  | value :: rest => itemOf value :: itemsOf rest

def entriesOf : List (String × Value) → List (List String × Item)
  | [] => []
  | (key, value) :: rest => ([key], itemOf value) :: entriesOf rest

end

theorem itemOf_array (values : List Value) : itemOf (.array values) = .array (values.map itemOf) := by
  have hitems : itemsOf values = values.map itemOf := by
    induction values with
    | nil => rfl
    | cons value rest ih => simp [itemsOf, ih]
  rw [itemOf, hitems]

def writtenEntry (entry : String × Value) : List String × Item := ([entry.1], itemOf entry.2)

theorem itemOf_object (o : Object) : itemOf (.object o) = .table (o.map writtenEntry) := by
  have hentries : entriesOf o = o.map writtenEntry := by
    induction o with
    | nil => rfl
    | cons entry rest ih => simp [entriesOf, writtenEntry, ih]
  rw [itemOf, hentries]

theorem skipLines_cons {c : Char} (h : c ∉ [' ', '\t', '\n', '\r', '#']) (tail : List Char) :
    skipLines false (c :: tail) = c :: tail := by
  simp only [List.mem_cons, List.not_mem_nil, or_false, not_or] at h
  simp [skipLines, isBlank, h]

def isWord : Value → Bool
  | .bool _ => true
  | .int _ => true
  | .string _ => true
  | _ => false

theorem exists_word_start {value : Value} (h : isWord value = true) :
    ∃ c tail, chars value = c :: tail ∧ startsScalar c = true := by
  cases value with
  | bool b => cases b <;> exact ⟨_, _, rfl, by decide⟩
  | int n =>
    obtain ⟨c, tail, htext, rfl | hdigit⟩ := exists_wholeText_cons n
    · exact ⟨_, _, htext, by decide⟩
    · exact ⟨_, _, htext, by simp [startsScalar, hdigit]⟩
  | string s => exact ⟨_, _, rfl, by decide⟩
  | _ => simp [isWord] at h

theorem head?_ne_of_follows {rest : List Char} (hrest : Follows rest) :
    rest.head? ≠ some '\x22' := by
  intro h
  rcases hrest _ h with h | h | h | h <;> simp at h

theorem plainItem?_chars {value : Value} (h : isWord value = true) (hfits : value.fits = true)
    {rest : List Char} (hrest : Follows rest) :
    plainItem? (chars value ++ rest) = some (.scalar value.datum, rest) := by
  cases value with
  | bool b =>
    have hword : (chars (.bool b)).all isBareChar = true := by cases b <;> decide
    have hbare := bare_append hrest (List.all_eq_true.1 hword)
    cases b <;> simp [chars] at hbare <;> simp [chars, plainItem?, hbare, scalar?, Value.datum]
  | int n =>
    obtain ⟨hlow, hhigh⟩ := of_decide_eq_true hfits
    have hbare := bare_append hrest fun c => isBareChar_of_mem_wholeText (n := n)
    have hscalar := scalar?_wholeText hlow hhigh
    obtain ⟨c, tail, htext, hstart⟩ := exists_wholeText_cons n
    have hquote : c ≠ '\x22' ∧ c ≠ '\x27' := by
      constructor <;> rintro rfl <;> simp at hstart
    rw [htext, List.cons_append] at hbare
    rw [htext] at hscalar
    simp [chars, htext, plainItem?, hquote, hbare, hscalar, Value.datum]
  | string s =>
    have hread := string?_quoted s.toList (head?_ne_of_follows hrest)
    rw [quoted_append] at hread
    rw [chars, quoted_append]
    simp [plainItem?, hread, Value.datum]
  | _ => simp [isWord] at h

/-- Every value starts with a character that is skipped nowhere and closes nothing. -/
theorem exists_start {value : Value} (hfits : value.fits = true) (hnull : value ≠ .null) :
    ∃ c tail, chars value = c :: tail ∧ c ∉ [' ', '\t', '\n', '\r', '#'] ∧ c ≠ ']' ∧
      c ≠ '\x7d' := by
  by_cases h : isWord value = true
  · obtain ⟨c, tail, htext, hstart⟩ := exists_word_start h
    have hne : ∀ d, startsScalar d = false → c ≠ d := fun d => ne_of_startsScalar hstart
    have hskip : c ∉ [' ', '\t', '\n', '\r', '#'] := by
      simp [hne ' ' (by decide), hne '\t' (by decide), hne '\n' (by decide),
        hne '\r' (by decide), hne '#' (by decide)]
    exact ⟨c, tail, htext, hskip, hne ']' (by decide), hne '\x7d' (by decide)⟩
  · cases value with
    | array values => cases values <;> exact ⟨_, _, rfl, by decide⟩
    | object o => cases o <;> exact ⟨_, _, rfl, by decide⟩
    | float x => simp [Value.fits] at hfits
    | null => exact absurd rfl hnull
    | _ => simp [isWord] at h

def ReadsBack (value : Value) : Prop :=
  ∀ bound depth rest, (chars value).length ≤ bound → depth + value.depth ≤ maxDepth →
    Follows rest → item? bound depth (chars value ++ rest) = some (itemOf value, rest)

theorem readsBack_of_isWord {value : Value} (h : isWord value = true)
    (hfits : value.fits = true) : ReadsBack value := by
  intro bound depth rest hbound _ hrest
  have hitem : itemOf value = .scalar value.datum := by
    cases value <;> first | rfl | simp [isWord] at h
  have hplain := plainItem?_chars h hfits hrest
  obtain ⟨c, tail, htext, hstart⟩ := exists_word_start h
  obtain ⟨bound, rfl⟩ : ∃ n, bound = n + 1 := ⟨bound - 1, by simp [htext] at hbound; omega⟩
  have hbracket : c ≠ '[' := ne_of_startsScalar hstart (by decide)
  have hbrace : c ≠ '\x7b' := ne_of_startsScalar hstart (by decide)
  rw [htext, List.cons_append] at hplain ⊢
  simp [item?, hbracket, hbrace, hplain, hitem]

theorem items?_chars {values : List Value} (value : Value) {bound depth : Nat}
    (hread : ∀ item ∈ value :: values, ReadsBack item)
    (hstart : ∀ item ∈ values, item.fits = true ∧ item ≠ .null)
    (hbound : (chars value).length + (itemsChars values).length ≤ bound)
    (hdepth : ∀ item ∈ value :: values, depth + item.depth ≤ maxDepth) (rest : List Char) :
    items? bound depth (chars value ++ (itemsChars values ++ rest)) =
      some ((value :: values).map itemOf, rest) := by
  have hclose := skipLines_cons (c := ']') (by decide)
  have hcomma := skipLines_cons (c := ',') (by decide)
  induction values generalizing value bound with
  | nil =>
    rw [itemsChars, List.length_singleton] at hbound
    obtain ⟨bound, rfl⟩ : ∃ n, bound = n + 1 := ⟨bound - 1, by omega⟩
    have hvalue := hread value List.mem_cons_self bound depth (']' :: rest) (by omega)
      (hdepth value List.mem_cons_self) (follows_cons (by simp) rest)
    simp [items?, itemsChars, hvalue, hclose]
  | cons next values ih =>
    rw [itemsChars, List.cons_append, List.length_cons, List.length_append] at hbound
    obtain ⟨bound, rfl⟩ : ∃ n, bound = n + 1 := ⟨bound - 1, by omega⟩
    have hvalue := hread value List.mem_cons_self bound depth
      (',' :: (chars next ++ (itemsChars values ++ rest))) (by omega)
      (hdepth value List.mem_cons_self) (follows_cons (by simp) _)
    have hrest : (chars next).length + (itemsChars values).length ≤ bound := by omega
    have hitems := ih next (fun item hitem => hread item (List.mem_cons_of_mem _ hitem))
      (fun item hitem => hstart item (List.mem_cons_of_mem _ hitem)) hrest
      (fun item hitem => hdepth item (List.mem_cons_of_mem _ hitem))
    obtain ⟨hfits, hnull⟩ := hstart next List.mem_cons_self
    obtain ⟨c, tail, htext, hskip, hother, -⟩ := exists_start hfits hnull
    rw [htext, List.cons_append] at hvalue hitems
    simp [items?, itemsChars, htext, hvalue, hcomma, skipLines_cons hskip, hother, hitems]

theorem readsBack_array {values : List Value} (hread : ∀ value ∈ values, ReadsBack value)
    (hstart : ∀ value ∈ values, value.fits = true ∧ value ≠ .null) :
    ReadsBack (.array values) := by
  intro bound depth rest hbound hdepth _
  have hpos := Value.depth_array_pos values
  have hplace : ¬ maxDepth ≤ depth := by omega
  have hclose := skipLines_cons (c := ']') (by decide)
  cases values with
  | nil =>
    obtain ⟨bound, rfl⟩ : ∃ n, bound = n + 1 := ⟨bound - 1, by simp [chars] at hbound; omega⟩
    simp [chars, item?, hclose, hplace, itemOf_array]
  | cons value values =>
    simp only [chars, List.cons_append, List.length_cons, List.length_append] at hbound
    obtain ⟨bound, rfl⟩ : ∃ n, bound = n + 1 := ⟨bound - 1, by omega⟩
    have hinner : (chars value).length + (itemsChars values).length ≤ bound := by omega
    have hitems := items?_chars value hread
      (fun item hitem => hstart item (List.mem_cons_of_mem _ hitem)) hinner
      (fun item hitem => show depth + 1 + item.depth ≤ maxDepth by
        have := Value.depth_item_lt hitem
        omega) rest
    obtain ⟨hfits, hnull⟩ := hstart value List.mem_cons_self
    obtain ⟨c, tail, htext, hskip, hother, -⟩ := exists_start hfits hnull
    rw [htext, List.cons_append] at hitems
    simp [chars, htext, item?, skipLines_cons hskip, hother, hitems, hplace, itemOf_array]

/-- A key that no point follows is a path of its own. -/
theorem path?_of_key? {text rest : List Char} {key : String} (hkey : key? text = some (key, rest))
    (hrest : (skipBlanks rest).head? ≠ some '.') : path? maxDepth text = some ([key], rest) := by
  have hbound : maxDepth = 79 + 1 := rfl
  rw [hbound, path?, hkey]
  simp only [Option.bind_eq_bind, Option.bind_some]
  split
  · next htext => simp [htext] at hrest
  · rfl

theorem path?_quoted (key : String) (rest : List Char) :
    path? maxDepth ('\x22' :: (key.toList.flatMap escaped ++ '\x22' :: '=' :: rest)) =
      some ([key], '=' :: rest) := by
  refine path?_of_key? ?_ (by simp [skipBlanks, isBlank])
  simp [key?, basic?_quoted]

theorem entries?_chars {o : Object} (entry : String × Value) {bound depth : Nat}
    (hread : ∀ item ∈ entry :: o, ReadsBack item.2)
    (hstart : ∀ item ∈ entry :: o, item.2.fits = true ∧ item.2 ≠ .null)
    (hbound : (chars entry.2).length + (entriesChars o).length ≤ bound)
    (hdepth : ∀ item ∈ entry :: o, depth + item.2.depth ≤ maxDepth) (rest : List Char) :
    entries? bound depth (quoted entry.1.toList ++
        ('=' :: (chars entry.2 ++ (entriesChars o ++ rest)))) =
      some ((entry :: o).map writtenEntry, rest) := by
  have hequals := skipLines_cons (c := '=') (by decide)
  have hcomma := skipLines_cons (c := ',') (by decide)
  have hclose := skipLines_cons (c := '\x7d') (by decide)
  have hquote := skipLines_cons (c := '\x22') (by decide)
  induction o generalizing entry bound with
  | nil =>
    rw [entriesChars, List.length_singleton] at hbound
    obtain ⟨bound, rfl⟩ : ∃ n, bound = n + 1 := ⟨bound - 1, by omega⟩
    have hvalue := hread entry List.mem_cons_self bound depth ('\x7d' :: rest) (by omega)
      (hdepth entry List.mem_cons_self) (follows_cons (by simp) rest)
    obtain ⟨hfits, hnull⟩ := hstart entry List.mem_cons_self
    obtain ⟨c, tail, htext, hskip, -⟩ := exists_start hfits hnull
    rw [htext, List.cons_append] at hvalue
    simp [entries?, quoted_append, path?_quoted, entriesChars, htext, hequals,
      skipLines_cons hskip, hvalue, hclose, writtenEntry]
  | cons next o ih =>
    rw [entriesChars] at hbound
    simp only [List.cons_append, List.length_cons, List.length_append] at hbound
    obtain ⟨bound, rfl⟩ : ∃ n, bound = n + 1 := ⟨bound - 1, by omega⟩
    have hrest : (chars next.2).length + (entriesChars o).length ≤ bound := by omega
    have hentries := ih next (fun item hitem => hread item (List.mem_cons_of_mem _ hitem))
      (fun item hitem => hstart item (List.mem_cons_of_mem _ hitem)) hrest
      (fun item hitem => hdepth item (List.mem_cons_of_mem _ hitem))
    have hvalue := hread entry List.mem_cons_self bound depth
      (',' :: (quoted next.1.toList ++
        ('=' :: (chars next.2 ++ (entriesChars o ++ rest))))) (by omega)
      (hdepth entry List.mem_cons_self) (follows_cons (by simp) _)
    obtain ⟨hfits, hnull⟩ := hstart entry List.mem_cons_self
    obtain ⟨c, tail, htext, hskip, -⟩ := exists_start hfits hnull
    rw [htext, List.cons_append] at hvalue
    rw [quoted_append] at hentries hvalue
    simp [entries?, path?_quoted, entriesChars, htext, hequals, skipLines_cons hskip, hvalue,
      hcomma, hquote, quoted_append, hentries, writtenEntry]

theorem readsBack_object {o : Object} (hread : ∀ entry ∈ o, ReadsBack entry.2)
    (hstart : ∀ entry ∈ o, entry.2.fits = true ∧ entry.2 ≠ .null) : ReadsBack (.object o) := by
  intro bound depth rest hbound hdepth _
  have hpos := Value.depth_object_pos o
  have hplace : ¬ maxDepth ≤ depth := by omega
  have hclose := skipLines_cons (c := '\x7d') (by decide)
  have hquote := skipLines_cons (c := '\x22') (by decide)
  cases o with
  | nil =>
    obtain ⟨bound, rfl⟩ : ∃ n, bound = n + 1 := ⟨bound - 1, by simp [chars] at hbound; omega⟩
    simp [chars, item?, hclose, hplace, itemOf_object]
  | cons entry o =>
    simp only [chars, List.cons_append, List.length_cons, List.length_append] at hbound
    obtain ⟨bound, rfl⟩ : ∃ n, bound = n + 1 := ⟨bound - 1, by omega⟩
    have hinner : (chars entry.2).length + (entriesChars o).length ≤ bound := by omega
    have hentries := entries?_chars entry hread hstart hinner
      (fun item hitem => show depth + 1 + item.2.depth ≤ maxDepth by
        have := Value.depth_entry_lt hitem
        omega) rest
    rw [quoted_append] at hentries
    simp [chars, quoted_append, item?, hquote, hentries, hplace, itemOf_object]

/-- Every value without nulls whose numbers are whole is read back from its text. -/
theorem readsBack_of_whole {value : Value} (hwhole : value.Whole) (hnull : value.NullFree) :
    ReadsBack value := by
  induction value using Value.parts_induction with
  | null => exact absurd rfl (hnull _ .here)
  | float x => exact absurd (hwhole _ .here) (by simp [Value.fits])
  | array values ih =>
    have hitems := Value.whole_array_iff.1 hwhole
    have hnulls := Value.nullFree_array_iff.1 hnull
    exact readsBack_array (fun item hitem => ih item hitem (hitems item hitem) (hnulls item hitem))
      fun item hitem => ⟨hitems item hitem item .here, hnulls item hitem item .here⟩
  | object o ih =>
    have hentries := Value.whole_object_iff.1 hwhole
    have hnulls := Value.nullFree_object_iff.1 hnull
    exact readsBack_object
      (fun entry hentry => ih entry hentry (hentries entry hentry) (hnulls entry hentry))
      fun entry hentry => ⟨hentries entry hentry _ .here, hnulls entry hentry _ .here⟩
  | _ => exact readsBack_of_isWord rfl (hwhole _ .here)

end SearchQuery.Toml
