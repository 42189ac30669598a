import SearchQuery.Proofs.Decimals
import SearchQuery.Toml.Statement
import SearchQuery.Toml.Written

/-!
Reading strings and whole numbers in TOML. A character inside a string is written in one of
three ways, and each way is read back: the raw text of a string ends at its closing quote, holds
plain characters only, and stands for the string. A whole number ends where the value ends, and
its digits have no sign, no mark of another base and no underscore among them.
-/
namespace SearchQuery.Toml

inductive Escapes (c : Char) : List Char → Prop
  | letter (letter : Char) (h : escape? letter = some c) : Escapes c ['\\', letter]
  | coded (a b : Char) (h : codedChar? ['0', '0', a, b] = some c) :
    Escapes c ['\\', 'u', '0', '0', a, b]
  | plain (h : isPlain c = true) (hquote : c ≠ '\x22') (hslash : c ≠ '\\') : Escapes c [c]

theorem codedChar?_control {n : Nat} (h : n < 32) :
    codedChar? ['0', '0', Value.hexDigit (n / 16), Value.hexDigit (n % 16)] =
      some (Char.ofNat n) := by
  have hall : ∀ n < 32, codedChar? ['0', '0', Nat.digitChar (n / 16), Nat.digitChar (n % 16)] =
      some (Char.ofNat n) := by decide
  exact hall n h

theorem escapes_escaped (c : Char) : Escapes c (escaped c) := by
  by_cases hnamed : c ∈ ['\x22', '\\', '\x08', '\x0c', '\n', '\r', '\t']
  · simp only [List.mem_cons, List.not_mem_nil, or_false] at hnamed
    rcases hnamed with rfl | rfl | rfl | rfl | rfl | rfl | rfl <;> exact .letter _ rfl
  by_cases hlast : c = '\x7f'
  · subst hlast
    exact .coded _ _ (by decide)
  simp only [List.mem_cons, List.not_mem_nil, or_false, not_or] at hnamed
  by_cases hcontrol : c < ' '
  · have hsmall : c.toNat < 32 := hcontrol
    have hcoded := codedChar?_control hsmall
    rw [Char.ofNat_toNat] at hcoded
    simp only [escaped, hlast, Value.escaped, hnamed, hcontrol, if_false, if_true]
    exact .coded _ _ hcoded
  · have hplain : isPlain c = true := by
      simp [isPlain, hlast, Char.not_lt.1 hcontrol]
    simp only [escaped, hlast, Value.escaped, hnamed, hcontrol, if_false]
    exact .plain hplain hnamed.1 hnamed.2.1

theorem isPlain_of_le {c : Char} (hlow : ' ' ≤ c) (hlast : c ≠ '\x7f') : isPlain c = true := by
  simp [isPlain, hlow, hlast]

/-- A hexadecimal digit is a plain character, and neither a quote nor a backslash. -/
theorem plain_of_isDigitOf {c : Char} (h : isDigitOf 16 c = true) :
    isPlain c = true ∧ c ≠ '\x22' ∧ c ≠ '\\' := by
  have hother : ∀ d, isDigitOf 16 d = false → c ≠ d := by
    rintro d hd rfl
    simp [h] at hd
  have hlow : 32 ≤ c.toNat := by
    by_contra hsmall
    have hnone : ¬ '0' ≤ c ∧ ¬ 'a' ≤ c ∧ ¬ 'A' ≤ c := by
      refine ⟨?_, ?_, ?_⟩ <;> intro hle <;> exact hsmall (Nat.le_trans (by decide) hle)
    simp [isDigitOf, digitValue?, hnone] at h
  exact ⟨isPlain_of_le hlow (hother _ (by decide)), hother _ (by decide), hother _ (by decide)⟩

theorem digits_of_codedChar? {digits : List Char} {c : Char} (h : codedChar? digits = some c) :
    ∀ digit ∈ digits, isDigitOf 16 digit = true := by
  simp only [codedChar?, Option.ite_none_right_eq_some] at h
  exact List.all_eq_true.1 h.1.1

theorem mem_of_escape? {letter c : Char} (h : escape? letter = some c) :
    letter ∈ ['\x22', '\\', 'b', 't', 'n', 'f', 'r', 'e'] := by
  by_contra hnone
  simp only [List.mem_cons, List.not_mem_nil, or_false, not_or] at hnone
  simp [escape?, hnone] at h

namespace Escapes

variable {c : Char} {text : List Char} (h : Escapes c text)

include h

theorem rawBasic?_append (more : List Char) :
    rawBasic? (text ++ more) =
      (rawBasic? more).map fun found => (text ++ found.1, found.2) := by
  cases h with
  | letter letter h => simp [rawBasic?]
  | coded a b h =>
    have hdigits := digits_of_codedChar? h
    obtain ⟨-, ha⟩ := plain_of_isDigitOf (hdigits a (by simp))
    obtain ⟨-, hb⟩ := plain_of_isDigitOf (hdigits b (by simp))
    cases hmore : rawBasic? more <;> simp [rawBasic?, ha, hb, hmore]
  | plain h hquote hslash => simp [rawBasic?, hquote, hslash]

theorem all_isPlain : text.all isPlain = true := by
  cases h with
  | letter letter h =>
    have hletter : isPlain letter = true := by
      have hall : ['\x22', '\\', 'b', 't', 'n', 'f', 'r', 'e'].all isPlain = true := by decide
      exact List.all_eq_true.1 hall letter (mem_of_escape? h)
    simp [hletter, isPlain_of_le]
  | coded a b h =>
    have hdigits := digits_of_codedChar? h
    obtain ⟨ha, -⟩ := plain_of_isDigitOf (hdigits a (by simp))
    obtain ⟨hb, -⟩ := plain_of_isDigitOf (hdigits b (by simp))
    simp [ha, hb, isPlain_of_le]
  | plain h => simp [h]

theorem unescape?_append (more : List Char) :
    unescape? (text ++ more) = (unescape? more).map (c :: ·) := by
  cases h with
  | letter letter h =>
    have hletter := mem_of_escape? h
    simp only [List.mem_cons, List.not_mem_nil, or_false] at hletter
    rcases hletter with rfl | rfl | rfl | rfl | rfl | rfl | rfl | rfl <;>
      cases hmore : unescape? more <;> simp [unescape?, h, hmore]
  | coded a b h => cases hmore : unescape? more <;> simp [unescape?, h, hmore]
  | plain h hquote hslash => cases hmore : unescape? more <;> simp [unescape?, hslash, hmore]

theorem append_ne (more others : List Char) : text ++ more ≠ '\x22' :: others := by
  cases h with
  | plain h hquote => simp [hquote]
  | _ => simp

end Escapes

/-- A string is read back from its text between quotes, after the first of them. -/
theorem basic?_quoted (s rest : List Char) :
    basic? (s.flatMap escaped ++ '\x22' :: rest) = some (s, rest) := by
  have hraw : rawBasic? (s.flatMap escaped ++ '\x22' :: rest) =
      some (s.flatMap escaped, rest) := by
    induction s with
    | nil => simp [rawBasic?]
    | cons c tail ih =>
      rw [List.flatMap_cons, List.append_assoc, (escapes_escaped c).rawBasic?_append, ih]
      rfl
  have hplain : (s.flatMap escaped).all isPlain = true := by
    rw [List.all_flatMap, List.all_eq_true]
    exact fun c _ => (escapes_escaped c).all_isPlain
  have htext : unescape? (s.flatMap escaped) = some s := by
    clear hraw hplain
    induction s with
    | nil => rfl
    | cons c tail ih =>
      rw [List.flatMap_cons, (escapes_escaped c).unescape?_append, ih]
      rfl
  simp only [basic?, hraw, hplain, htext, Option.bind_eq_bind, Option.bind_some, if_true,
    Option.pure_def]

theorem quoted_append (s rest : List Char) :
    quoted s ++ rest = '\x22' :: (s.flatMap escaped ++ '\x22' :: rest) := by
  simp [quoted]

/-- A string is read back where no quote follows it: what starts with three quotes would go
on over several lines. -/
theorem string?_quoted (s : List Char) {rest : List Char} (hrest : rest.head? ≠ some '\x22') :
    string? (quoted s ++ rest) = some (s, rest) := by
  rw [quoted_append, ← basic?_quoted s rest]
  refine string?.eq_2 _ fun more h => ?_
  cases s with
  | nil =>
    obtain rfl : rest = '\x22' :: more := (List.cons.inj h).2
    exact hrest rfl
  | cons c tail =>
    rw [List.flatMap_cons, List.append_assoc] at h
    exact (escapes_escaped c).append_ne _ _ h

section Words

variable {rest : List Char} (hrest : Follows rest)

include hrest

/-- A word ends where its value ends. -/
theorem bare_append {word : List Char} (hword : ∀ c ∈ word, isBareChar c = true) :
    bare (word ++ rest) = (word, rest) := by
  induction word with
  | nil =>
    cases rest with
    | nil => rfl
    | cons c tail =>
      have hstop : isBareChar c = false ∧ isBlank c = false := by
        rcases hrest c rfl with rfl | rfl | rfl | rfl <;> decide
      simp [bare, hstop]
  | cons c word ih =>
    rw [List.forall_mem_cons] at hword
    simp [bare, hword.1, ih hword.2]

end Words

theorem isBareChar_of_isDigit {c : Char} (h : c.isDigit = true) : isBareChar c = true := by
  have hnone : ([' ', '\t', '\r', '\n', '#', ',', '=', '[', ']', '\x7b', '\x7d'].all
      fun d => !d.isDigit) = true := by decide
  rw [isBareChar, Bool.not_eq_true', Bool.eq_false_iff, ne_eq, List.contains_iff_mem]
  intro hmem
  have hno := List.all_eq_true.1 hnone c hmem
  simp [h] at hno

theorem isBareChar_of_mem_wholeText {n : Int} {c : Char} (h : c ∈ wholeText n) :
    isBareChar c = true := by
  unfold wholeText at h
  split at h
  · rcases List.mem_cons.1 h with rfl | h
    · decide
    · exact isBareChar_of_isDigit (isDigit_of_mem_digitsOf h)
  · exact isBareChar_of_isDigit (isDigit_of_mem_digitsOf h)

/-- Digits alone have no underscores among them. -/
theorem ungrouped?_of_isDigit {digits : List Char} (hdigits : ∀ c ∈ digits, c.isDigit = true)
    (hsome : digits ≠ []) : ungrouped? 10 digits = some digits := by
  induction digits with
  | nil => exact absurd rfl hsome
  | cons c rest ih =>
    rw [List.forall_mem_cons] at hdigits
    have hc := isDigitOf_ten hdigits.1
    cases rest with
    | nil => simp [ungrouped?, hc]
    | cons d tail =>
      have hd : d ≠ '_' := by
        rintro rfl
        simp at hdigits
      simp [ungrouped?, hc, hd, ih hdigits.2]

theorem wholeDigits?_digitsOf (n : Nat) : wholeDigits? (digitsOf n) = some (digitsOf n) := by
  have hdigits := ungrouped?_of_isDigit (fun _ => isDigit_of_mem_digitsOf) (digitsOf_ne_nil n)
  unfold wholeDigits?
  rw [hdigits]
  split
  · next c tail h =>
    have hdigit := Option.some.inj h
    have hzero : n = 0 := eq_zero_of_leading_zero (by simp [hdigit])
    simp [hzero, digitsOf_zero] at hdigit
  · rfl

/-- Digits alone are a number in base ten, without a sign. -/
theorem integer?_of_isDigit {digits : List Char} (hdigits : ∀ c ∈ digits, c.isDigit = true)
    (hwhole : wholeDigits? digits = some digits) :
    integer? digits = some (fitting (valueOfDigits 10 digits)) := by
  have hother : ∀ c, c.isDigit = false → c ∉ digits := fun c hc hmem => by
    simp [hdigits c hmem] at hc
  have hsigned : signed digits = (false, digits) := by
    refine signed.eq_3 _ (fun _ h => ?_) fun _ h => ?_
    · exact hother '-' (by decide) (by simp [h])
    · exact hother '+' (by decide) (by simp [h])
  have hopened := integer?.eq_4 digits
    (fun _ h => hother 'x' (by decide) (by simp [h]))
    (fun _ h => hother 'o' (by decide) (by simp [h]))
    (fun _ h => hother 'b' (by decide) (by simp [h]))
  simp [hopened, hsigned, hwhole]

theorem integer?_wholeText {n : Int} (hlow : -Int.pow 2 63 ≤ n) (hhigh : n < Int.pow 2 64) :
    integer? (wholeText n) = some (.int n) := by
  have hdigits := wholeDigits?_digitsOf n.natAbs
  have hfits : fitting n = .int n := by
    have hpow : Int.pow 2 63 ≤ Int.pow 2 127 ∧ Int.pow 2 64 ≤ Int.pow 2 128 := by decide
    exact if_pos ⟨by omega, by omega⟩
  by_cases hneg : n < 0
  · have hsize : -(n.natAbs : Int) = n := by omega
    have hopened := integer?.eq_4 ('-' :: digitsOf n.natAbs)
      (fun _ h => by simp at h) (fun _ h => by simp at h) (fun _ h => by simp at h)
    rw [wholeText, if_pos hneg, hopened]
    simp only [signed, hdigits, valueOfDigits_digitsOf, if_true, hsize, hfits]
  · have hsize : (n.natAbs : Int) = n := by omega
    have hread := integer?_of_isDigit (fun _ => isDigit_of_mem_digitsOf) hdigits
    rw [valueOfDigits_digitsOf, hsize, hfits] at hread
    rwa [wholeText, if_neg hneg]

theorem scalar?_wholeText {n : Int} (hlow : -Int.pow 2 63 ≤ n) (hhigh : n < Int.pow 2 64) :
    scalar? (wholeText n) = some (.int n) := by
  obtain ⟨c, tail, htext, hstart⟩ := exists_wholeText_cons n
  have hword : c ≠ 't' ∧ c ≠ 'f' := by
    constructor <;> rintro rfl <;> simp at hstart
  rw [scalar?, integer?_wholeText hlow hhigh, htext]
  simp [hword]

end SearchQuery.Toml
