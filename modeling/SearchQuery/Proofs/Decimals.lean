import Mathlib.Data.List.TakeDrop
import SearchQuery.Numeral
import SearchQuery.Value.Compact

/-!
Whole numbers as texts. A natural number is written in digits of which the first one is no
zero, but for zero itself, and its digits stand for the number again. A reader that takes the
longest run of digits stops at the end of the number, since what follows a value in a text is
nothing, a comma, a closing bracket or a line end.
-/
namespace SearchQuery

/-- Whether a text can follow a value: it is empty, or it starts with what separates values
or closes a list of them. -/
def Follows (rest : List Char) : Prop :=
  ∀ c ∈ rest.head?, c = ',' ∨ c = ']' ∨ c = '\x7d' ∨ c = '\n'

theorem follows_nil : Follows [] := by simp [Follows]

theorem follows_cons {c : Char} (h : c = ',' ∨ c = ']' ∨ c = '\x7d' ∨ c = '\n')
    (rest : List Char) : Follows (c :: rest) := by
  simpa [Follows] using h

/-- The longest run of characters of a class is found again in front of a text that starts
with none of them. -/
theorem span_append_of_stop {p : Char → Bool} {run rest : List Char}
    (hrun : ∀ c ∈ run, p c = true) (hstop : ∀ c ∈ rest.head?, p c = false) :
    (run ++ rest).span p = (run, rest) := by
  have hrest : rest.takeWhile p = [] ∧ rest.dropWhile p = rest := by
    cases rest with
    | nil => exact ⟨rfl, rfl⟩
    | cons c tail =>
      have hc : p c = false := hstop c (by simp)
      simp [hc]
  rw [List.span_eq_takeWhile_dropWhile, List.takeWhile_append_of_pos hrun,
    List.dropWhile_append_of_pos hrun, hrest.1, hrest.2, List.append_nil]

theorem digitValue?_of_isDigit {c : Char} (h : c.isDigit = true) :
    digitValue? c = some (c.toNat - '0'.toNat) := by
  have hrange : '0' ≤ c ∧ c ≤ '9' := by
    simpa [Char.isDigit, Char.le_def] using h
  rw [digitValue?, if_pos hrange]

theorem isDigitOf_ten {c : Char} (h : c.isDigit = true) : isDigitOf 10 c = true := by
  have hnine : c.toNat ≤ 57 := by
    have hrange : 48 ≤ c.val ∧ c.val ≤ 57 := by simpa [Char.isDigit] using h
    exact hrange.2
  rw [isDigitOf, digitValue?_of_isDigit h]
  simp only [Option.any_some, decide_eq_true_eq, Char.reduceToNat]
  omega

theorem isDigit_of_mem_digitsOf {n : Nat} {c : Char} (h : c ∈ digitsOf n) : c.isDigit = true :=
  Nat.isDigit_of_mem_toDigits (by decide) (by decide) h

theorem digitsOf_ne_nil (n : Nat) : digitsOf n ≠ [] := Nat.toDigits_ne_nil

/-- The digits of a number stand for the number. -/
theorem valueOfDigits_digitsOf (n : Nat) : valueOfDigits 10 (digitsOf n) = n := by
  have hvalue : ∀ digits : List Char, (∀ c ∈ digits, c.isDigit = true) → ∀ start,
      digits.foldl (fun n c => n * 10 + (digitValue? c).getD 0) start =
        Nat.ofDigitChars 10 digits start := by
    intro digits hdigits
    induction digits with
    | nil => exact fun _ => rfl
    | cons c rest ih =>
      intro start
      rw [List.forall_mem_cons] at hdigits
      rw [List.foldl_cons, ih hdigits.2, Nat.ofDigitChars_cons, digitValue?_of_isDigit hdigits.1,
        Option.getD_some, Nat.mul_comm]
  rw [valueOfDigits, hvalue _ fun _ => isDigit_of_mem_digitsOf]
  exact Nat.ofDigitChars_ten_toDigits

/-- Only zero is written with a zero in front. -/
theorem eq_zero_of_leading_zero {n : Nat} (h : (digitsOf n).head? = some '0') : n = 0 := by
  induction n using Nat.strongRecOn with
  | ind n ih =>
    rw [digitsOf, Nat.toDigits_eq_if (by decide)] at h
    split at h
    · simpa [Nat.zero_eq_digitChar, eq_comm] using h
    · next hlarge =>
      rw [List.head?_append, Option.or_of_isSome (List.isSome_head?.2 Nat.toDigits_ne_nil)] at h
      have hzero := ih (n / 10) (by omega) h
      omega

theorem digitsOf_zero : digitsOf 0 = ['0'] := Nat.toDigits_zero 10

def startsScalar (c : Char) : Bool := ['\x22', '-', 'n', 't', 'f'].contains c || c.isDigit

theorem ne_of_startsScalar {c d : Char} (h : startsScalar c = true)
    (hd : startsScalar d = false) : c ≠ d := by
  rintro rfl
  simp [h] at hd

theorem exists_wholeText_cons (n : Int) :
    ∃ c tail, wholeText n = c :: tail ∧ (c = '-' ∨ c.isDigit = true) := by
  unfold wholeText
  split
  · exact ⟨'-', _, rfl, .inl rfl⟩
  · obtain ⟨c, tail, hdigits⟩ := List.exists_cons_of_ne_nil (digitsOf_ne_nil n.natAbs)
    exact ⟨c, tail, hdigits, .inr (isDigit_of_mem_digitsOf (hdigits ▸ List.mem_cons_self))⟩

end SearchQuery
