import Mathlib.Data.List.TakeWhile
import SearchQuery.Json
import SearchQuery.Proofs.Decimals

/-!
Tokens of JSON texts. What a reader of numbers, strings or words reads, it reads from a token at
the start of the text, and from the same token in front of any other text that cannot prolong
it. Only numbers can be prolonged: by digits, a point or the mark of a power. So to read a token
alone tells how it is read anywhere.
-/
namespace SearchQuery.Json

def NoDigit (text : List Char) : Prop := ∀ c ∈ text.head?, c.isDigit = false

def Stops (text : List Char) : Prop :=
  ∀ c ∈ text.head?, c.isDigit = false ∧ c ≠ '.' ∧ c ≠ 'e' ∧ c ≠ 'E'

theorem stops_nil : Stops [] := by simp [Stops]

theorem stops_cons {c : Char} (h : c.isDigit = false ∧ c ≠ '.' ∧ c ≠ 'e' ∧ c ≠ 'E')
    (rest : List Char) : Stops (c :: rest) := by
  simpa [Stops] using h

theorem Stops.noDigit {text : List Char} (h : Stops text) : NoDigit text :=
  fun c hc => (h c hc).1

theorem stops_of_follows {text : List Char} (h : Follows text) : Stops text := by
  intro c hc
  rcases h c hc with rfl | rfl | rfl | rfl <;> decide

/-- Whether a reader reads a token as one thing, whatever comes behind it that fulfils a
condition. -/
def ReadsToken {α : Type} (read : List Char → Option (α × List Char)) (Stop : List Char → Prop)
    (token : List Char) (a : α) : Prop :=
  ∀ rest, Stop rest → read (token ++ rest) = some (a, rest)

section Numbers

variable {text rest : List Char}

theorem digits?_append_of_noDigit {digits : List Char} (hdigits : ∀ c ∈ digits, c.isDigit = true)
    (hsome : digits ≠ []) (hrest : NoDigit rest) :
    digits? (digits ++ rest) = some (digits, rest) := by
  obtain ⟨c, tail, rfl⟩ := List.exists_cons_of_ne_nil hsome
  rw [digits?, span_append_of_stop hdigits hrest]

theorem digits?_eq_some {digits : List Char} (h : digits? text = some (digits, rest)) :
    text = digits ++ rest ∧ digits ≠ [] ∧ ∀ c ∈ digits, c.isDigit = true := by
  rw [digits?, List.span_eq_takeWhile_dropWhile] at h
  split at h
  · simp at h
  · next hsome hspan =>
    obtain ⟨rfl, rfl⟩ := Prod.mk.inj (Option.some.inj h)
    obtain ⟨htake, hdrop⟩ := Prod.mk.inj hspan
    refine ⟨by rw [← htake, ← hdrop, List.takeWhile_append_dropWhile], hsome, fun c hc => ?_⟩
    rw [← htake] at hc
    exact List.mem_takeWhile_imp hc

theorem whole?_eq_some {whole : List Char} (h : whole? text = some (whole, rest)) :
    text = whole ++ rest ∧ whole ≠ [] ∧ (∀ c ∈ whole, c.isDigit = true) ∧
      ReadsToken whole? NoDigit whole whole := by
  rw [whole?.eq_def] at h
  split at h
  · obtain ⟨rfl, rfl⟩ := Prod.mk.inj (Option.some.inj h)
    exact ⟨rfl, by simp, by simp, fun _ _ => rfl⟩
  · next hzero =>
    obtain ⟨rfl, hsome, hdigits⟩ := digits?_eq_some h
    refine ⟨rfl, hsome, hdigits, fun other hother => ?_⟩
    obtain ⟨c, tail, rfl⟩ := List.exists_cons_of_ne_nil hsome
    rw [← digits?_append_of_noDigit hdigits hsome hother]
    exact whole?.eq_2 _ fun _ heq => hzero _ (by rw [List.cons_append, (List.cons.inj heq).1])

theorem fraction?_of_no_point (h : '.' ∉ text.head?) : fraction? text = some (none, text) :=
  fraction?.eq_2 _ fun _ (heq : text = _) => h (by simp [heq])

theorem fraction?_eq_some {fraction : Option (List Char)}
    (h : fraction? text = some (fraction, rest)) :
    ∃ token, text = token ++ rest ∧ (∀ c ∈ token.head?, c = '.') ∧
      ReadsToken fraction? (fun other => NoDigit other ∧ '.' ∉ other.head?) token fraction := by
  rw [fraction?.eq_def] at h
  split at h
  · next after =>
    obtain ⟨⟨digits, behind⟩, hdigits, heq⟩ := Option.bind_eq_some_iff.1 h
    obtain ⟨rfl, rfl⟩ := Prod.mk.inj (Option.some.inj heq)
    obtain ⟨rfl, hsome, hall⟩ := digits?_eq_some hdigits
    refine ⟨'.' :: digits, rfl, by simp, fun other hother => ?_⟩
    simp [fraction?, digits?_append_of_noDigit hall hsome hother.1]
  · obtain ⟨rfl, rfl⟩ := Prod.mk.inj (Option.some.inj h)
    exact ⟨[], rfl, by simp, fun other hother => fraction?_of_no_point hother.2⟩

theorem signed_eq {negative : Bool} (h : signed text = (negative, rest)) :
    ∃ token, text = token ++ rest ∧ ∀ other, (∀ c ∈ other.head?, c.isDigit = true) →
      signed (token ++ other) = (negative, other) := by
  rw [signed.eq_def] at h
  split at h
  · obtain ⟨rfl, rfl⟩ := Prod.mk.inj h
    exact ⟨['-'], rfl, fun _ _ => rfl⟩
  · obtain ⟨rfl, rfl⟩ := Prod.mk.inj h
    exact ⟨['+'], rfl, fun _ _ => rfl⟩
  · obtain ⟨rfl, rfl⟩ := Prod.mk.inj h
    refine ⟨[], rfl, fun other hother => ?_⟩
    cases other with
    | nil => rfl
    | cons c tail =>
      have hdigit : c.isDigit = true := hother c rfl
      refine signed.eq_3 _ (fun _ heq => ?_) fun _ heq => ?_
      all_goals
        obtain ⟨rfl, -⟩ := List.cons.inj heq
        simp at hdigit

theorem power?_of_stops (h : Stops text) : power? text = some (none, text) := by
  cases text with
  | nil => rfl
  | cons c tail =>
    have hc := h c rfl
    exact if_neg (by simp [hc])

theorem power?_eq_some {power : Option Int} (h : power? text = some (power, rest)) :
    ∃ token, text = token ++ rest ∧ (∀ c ∈ token.head?, c = 'e' ∨ c = 'E') ∧
      ReadsToken power? Stops token power := by
  cases text with
  | nil =>
    obtain ⟨rfl, rfl⟩ := Prod.mk.inj (Option.some.inj h)
    exact ⟨[], rfl, by simp, fun other hother => power?_of_stops hother⟩
  | cons c after =>
    rw [power?] at h
    split at h
    · next hmark =>
      rcases hsigned : signed after with ⟨negative, unsigned⟩
      rw [hsigned] at h
      obtain ⟨⟨digits, behind⟩, hdigits, heq⟩ := Option.bind_eq_some_iff.1 h
      obtain ⟨rfl, rfl⟩ := Prod.mk.inj (Option.some.inj heq)
      obtain ⟨rfl, hsome, hall⟩ := digits?_eq_some hdigits
      obtain ⟨sign, rfl, hsign⟩ := signed_eq hsigned
      refine ⟨c :: (sign ++ digits), by simp, by simpa using hmark, fun other hother => ?_⟩
      have hread : signed (sign ++ (digits ++ other)) = (negative, digits ++ other) := by
        refine hsign _ fun d hd => ?_
        obtain ⟨first, tail, rfl⟩ := List.exists_cons_of_ne_nil hsome
        obtain rfl : first = d := by simpa using hd
        exact hall _ List.mem_cons_self
      simp [power?, hmark, hread, digits?_append_of_noDigit hall hsome hother.noDigit]
    · next hmark =>
      obtain ⟨rfl, rfl⟩ := Prod.mk.inj (Option.some.inj h)
      exact ⟨[], rfl, by simp, fun other hother => power?_of_stops hother⟩

def unsignedNumeral? (negative : Bool) (text : List Char) : Option (Numeral × List Char) := do
  let (whole, rest) ← whole? text
  let (fraction, rest) ← fraction? rest
  let (power, rest) ← power? rest
  return (⟨negative, whole, fraction, power⟩, rest)

theorem numeral?_minus (text : List Char) : numeral? ('-' :: text) = unsignedNumeral? true text :=
  rfl

theorem numeral?_of_ne {c : Char} (h : c ≠ '-') (text : List Char) :
    numeral? (c :: text) = unsignedNumeral? false (c :: text) := by
  simp [numeral?, unsignedNumeral?, h]

theorem unsignedNumeral?_eq_some {negative : Bool} {numeral : Numeral}
    (h : unsignedNumeral? negative text = some (numeral, rest)) :
    ∃ c token, text = c :: token ++ rest ∧ c.isDigit = true ∧
      ReadsToken (unsignedNumeral? negative) Stops (c :: token) numeral := by
  obtain ⟨⟨whole, afterWhole⟩, hwhole, h⟩ := Option.bind_eq_some_iff.1 h
  obtain ⟨⟨fraction, afterFraction⟩, hfraction, h⟩ := Option.bind_eq_some_iff.1 h
  obtain ⟨⟨power, afterPower⟩, hpower, h⟩ := Option.bind_eq_some_iff.1 h
  obtain ⟨rfl, rfl⟩ := Prod.mk.inj (Option.some.inj h)
  obtain ⟨rfl, hsome, hdigits, hreadWhole⟩ := whole?_eq_some hwhole
  obtain ⟨point, rfl, hpoint, hreadFraction⟩ := fraction?_eq_some hfraction
  obtain ⟨mark, rfl, hmark, hreadPower⟩ := power?_eq_some hpower
  obtain ⟨first, digits, rfl⟩ := List.exists_cons_of_ne_nil hsome
  refine ⟨first, digits ++ point ++ mark, by simp, hdigits first List.mem_cons_self,
    fun other hother => ?_⟩
  -- What comes behind a part starts with the next part that is not empty.
  have hafterFraction : ∀ c ∈ (mark ++ other).head?, c.isDigit = false ∧ c ≠ '.' := by
    intro c hc
    cases mark with
    | nil => exact ⟨(hother c hc).1, (hother c hc).2.1⟩
    | cons d tail =>
      obtain rfl : d = c := by simpa using hc
      rcases hmark d rfl with rfl | rfl <;> decide
  have hafterWhole : NoDigit (point ++ (mark ++ other)) := by
    intro c hc
    cases point with
    | nil => exact (hafterFraction c hc).1
    | cons d tail =>
      obtain rfl : d = c := by simpa using hc
      rw [hpoint d rfl]
      decide
  have hwhole := hreadWhole _ hafterWhole
  have hfraction := hreadFraction (mark ++ other)
    ⟨fun c hc => (hafterFraction c hc).1, fun hc => (hafterFraction '.' hc).2 rfl⟩
  have hpower := hreadPower other hother
  rw [List.cons_append] at hwhole
  simp [unsignedNumeral?, hwhole, hfraction, hpower]

/-- A number is read from a sign or a digit on, and it is read again wherever nothing prolongs
it. -/
theorem numeral?_eq_some {numeral : Numeral} (h : numeral? text = some (numeral, rest)) :
    ∃ c token, text = c :: token ++ rest ∧ (c = '-' ∨ c.isDigit = true) ∧
      ReadsToken numeral? Stops (c :: token) numeral := by
  cases text with
  | nil => simp [numeral?, whole?, digits?] at h
  | cons c tail =>
    by_cases hminus : c = '-'
    · subst hminus
      obtain ⟨first, token, rfl, -, hread⟩ := unsignedNumeral?_eq_some (numeral?_minus tail ▸ h)
      exact ⟨'-', first :: token, rfl, .inl rfl, fun other hother => hread other hother⟩
    · rw [numeral?_of_ne hminus] at h
      obtain ⟨first, token, htext, hfirst, hread⟩ := unsignedNumeral?_eq_some h
      obtain ⟨rfl, rfl⟩ := List.cons.inj htext
      refine ⟨c, token, rfl, .inr hfirst, fun other hother => ?_⟩
      exact (numeral?_of_ne hminus _).trans (hread other hother)

end Numbers

/-- A string is read from its text up to the closing quote, whatever follows. -/
theorem stringParts?_eq_some {text rest : List Char} {parts : List StringPart}
    (h : stringParts? text = some (parts, rest)) :
    ∃ token, text = token ++ rest ∧ ReadsToken stringParts? (fun _ => True) token parts := by
  fun_induction stringParts? text generalizing parts with
  | case1 => simp at h
  | case2 a b c d text ih =>
    obtain ⟨unit, hunit, h⟩ := Option.bind_eq_some_iff.1 h
    obtain ⟨⟨more, behind⟩, hmore, h⟩ := Option.bind_eq_some_iff.1 h
    obtain ⟨rfl, rfl⟩ := Prod.mk.inj (Option.some.inj h)
    obtain ⟨token, rfl, hread⟩ := ih hmore
    refine ⟨'\\' :: 'u' :: a :: b :: c :: d :: token, rfl, fun other _ => ?_⟩
    simp [stringParts?, hunit, hread other trivial]
  | case3 letter text hother ih =>
    obtain ⟨c, hletter, h⟩ := Option.bind_eq_some_iff.1 h
    obtain ⟨⟨more, behind⟩, hmore, h⟩ := Option.bind_eq_some_iff.1 h
    obtain ⟨rfl, rfl⟩ := Prod.mk.inj (Option.some.inj h)
    obtain ⟨token, rfl, hread⟩ := ih hmore
    refine ⟨'\\' :: letter :: token, rfl, fun other _ => ?_⟩
    have hunit : letter ≠ 'u' := by
      rintro rfl
      simp [escape?] at hletter
    simp [stringParts?, hunit, hletter, hread other trivial]
  | case4 text =>
    obtain ⟨rfl, rfl⟩ := Prod.mk.inj (Option.some.inj h)
    exact ⟨['\x22'], rfl, fun other _ => by simp [stringParts?]⟩
  | case5 => simp at h
  | case6 c text hescape hletter hquote hplain ih =>
    obtain ⟨⟨more, behind⟩, hmore, h⟩ := Option.bind_eq_some_iff.1 h
    obtain ⟨rfl, rfl⟩ := Prod.mk.inj (Option.some.inj h)
    obtain ⟨token, rfl, hread⟩ := ih hmore
    refine ⟨c :: token, rfl, fun other _ => ?_⟩
    have hslash : c ≠ '\\' := fun hc => hplain (.inl hc)
    have hcontrol : ¬ c < ' ' := fun hc => hplain (.inr hc)
    simp [stringParts?, hslash, hquote, hcontrol, hread other trivial, -Char.not_lt]

theorem string?_eq_some {text rest : List Char} {s : Option String}
    (h : string? text = some (s, rest)) :
    ∃ token, text = token ++ rest ∧ ReadsToken string? (fun _ => True) token s := by
  obtain ⟨⟨parts, behind⟩, hparts, h⟩ := Option.bind_eq_some_iff.1 h
  obtain ⟨rfl, rfl⟩ := Prod.mk.inj (Option.some.inj h)
  obtain ⟨token, rfl, hread⟩ := stringParts?_eq_some hparts
  exact ⟨token, rfl, fun other _ => by simp [string?, hread other trivial]⟩

theorem afterWord?_eq_some {word text rest : List Char} (h : afterWord? word text = some rest) :
    text = word ++ rest := by
  rw [afterWord?] at h
  split at h
  · next hword =>
    rw [← Option.some.inj h]
    exact (List.prefix_iff_eq_append.1 (List.isPrefixOf_iff_prefix.1 hword)).symm
  · simp at h

/-- A datum without parts is read from a token that starts as such a datum does, and the token
is read again wherever nothing prolongs it. -/
theorem scalar?_eq_some {text rest : List Char} {datum : Datum}
    (h : scalar? text = some (datum, rest)) :
    ∃ c token, text = c :: token ++ rest ∧ startsScalar c = true ∧
      ReadsToken scalar? Stops (c :: token) datum := by
  rw [scalar?.eq_def] at h
  split at h
  · obtain ⟨⟨s, behind⟩, hstring, h⟩ := Option.bind_eq_some_iff.1 h
    obtain ⟨rfl, rfl⟩ := Prod.mk.inj (Option.some.inj h)
    obtain ⟨token, rfl, hread⟩ := string?_eq_some hstring
    exact ⟨'\x22', token, rfl, rfl, fun other _ => by simp [scalar?, hread other trivial]⟩
  · obtain ⟨behind, hword, h⟩ := Option.bind_eq_some_iff.1 h
    obtain ⟨rfl, rfl⟩ := Prod.mk.inj (Option.some.inj h)
    obtain rfl := afterWord?_eq_some hword
    exact ⟨'n', _, rfl, rfl, fun other _ => by simp [scalar?, afterWord?]⟩
  · obtain ⟨behind, hword, h⟩ := Option.bind_eq_some_iff.1 h
    obtain ⟨rfl, rfl⟩ := Prod.mk.inj (Option.some.inj h)
    obtain rfl := afterWord?_eq_some hword
    exact ⟨'t', _, rfl, rfl, fun other _ => by simp [scalar?, afterWord?]⟩
  · obtain ⟨behind, hword, h⟩ := Option.bind_eq_some_iff.1 h
    obtain ⟨rfl, rfl⟩ := Prod.mk.inj (Option.some.inj h)
    obtain rfl := afterWord?_eq_some hword
    exact ⟨'f', _, rfl, rfl, fun other _ => by simp [scalar?, afterWord?]⟩
  · obtain ⟨⟨numeral, behind⟩, hnumeral, h⟩ := Option.bind_eq_some_iff.1 h
    obtain ⟨rfl, rfl⟩ := Prod.mk.inj (Option.some.inj h)
    obtain ⟨c, token, rfl, hstart, hread⟩ := numeral?_eq_some hnumeral
    refine ⟨c, token, rfl, ?_, fun other hother => ?_⟩
    · rcases hstart with rfl | hdigit
      · rfl
      · simp [startsScalar, hdigit]
    · have hletter : c ≠ '\x22' ∧ c ≠ 'n' ∧ c ≠ 't' ∧ c ≠ 'f' := by
        refine ⟨?_, ?_, ?_, ?_⟩ <;> rintro rfl <;> simp at hstart
      have hnumeral := hread other hother
      rw [List.cons_append] at hnumeral
      simp [scalar?, hletter, hnumeral]

end SearchQuery.Json
