import Mathlib.Data.List.Forall2
import SearchQuery.Proofs.TomlScalars
import SearchQuery.Spec.Drafting
import SearchQuery.Spec.Example
import SearchQuery.Spec.Schema

/-!
Texts that are commented out. Each line of such a text is empty or a comment. Lines like these
hold no statement in TOML, so the text is read as the spec that leaves everything out. Lines that
are put together with a line feed behind each are taken apart again as they were, which is why a
text keeps its lines when it is commented out, and why to do so again changes nothing.
-/
namespace SearchQuery

/-- Whether the only ASCII control characters of a text are tabs, line feeds, and carriage returns
right before a line feed. A carriage return at the end would be taken for a part of the line end
that commenting puts behind it. -/
def PlainText (text : List Char) : Prop :=
  ∀ c rest, c :: rest <:+ text → c < ' ' ∨ c = '\x7f' →
    c = '\t' ∨ c = '\n' ∨ c = '\r' ∧ rest.head? = some '\n'

def PlainLine (line : List Char) : Prop := ∀ c ∈ line, Toml.isPlain c = true

def IsComment (line : List Char) : Prop := line = [] ∨ line.head? = some '#'

def unlines (parts : List (List Char)) : List Char := parts.flatMap fun line => line ++ ['\n']

theorem unlines_cons (line : List Char) (more : List (List Char)) :
    unlines (line :: more) = line ++ '\n' :: unlines more := by
  simp [unlines]

theorem length_le_length_unlines (parts : List (List Char)) :
    parts.length ≤ (unlines parts).length := by
  induction parts with
  | nil => simp
  | cons line parts ih =>
    rw [unlines_cons, List.length_append, List.length_cons, List.length_cons]
    omega

section Plain

variable {c : Char} {line rest text : List Char}

theorem plainLine_nil : PlainLine [] := fun _ h => absurd h List.not_mem_nil

theorem plainLine_cons_iff : PlainLine (c :: line) ↔ Toml.isPlain c = true ∧ PlainLine line :=
  List.forall_mem_cons

theorem plainText_nil : PlainText [] := fun _ _ h =>
  absurd (List.suffix_nil.1 h) (List.cons_ne_nil _ _)

theorem Toml.eq_tab_of_isPlain (h : isPlain c = true) (hcontrol : c < ' ' ∨ c = '\x7f') :
    c = '\t' := by
  simp only [isPlain, Bool.or_eq_true, Bool.and_eq_true, beq_iff_eq, bne_iff_ne,
    decide_eq_true_eq] at h
  rcases h with htab | ⟨hlow, hlast⟩
  · exact htab
  · rcases hcontrol with hcontrol | hcontrol
    · exact absurd hlow (Char.not_le.2 hcontrol)
    · exact absurd hcontrol hlast

/-- The first character of a plain text may stand on a line, or it starts a line end. -/
theorem plainText_cons_iff :
    PlainText (c :: rest) ↔
      (Toml.isPlain c = true ∨ c = '\n' ∨ c = '\r' ∧ rest.head? = some '\n') ∧
        PlainText rest := by
  constructor
  · intro h
    refine ⟨?_, fun d more hsuffix => h d more (hsuffix.trans (List.suffix_cons c rest))⟩
    by_cases hcontrol : c < ' ' ∨ c = '\x7f'
    · rcases h c rest List.suffix_rfl hcontrol with htab | hend
      · exact .inl (by simp [Toml.isPlain, htab])
      · exact .inr hend
    · rw [not_or, Char.not_lt] at hcontrol
      exact .inl (Toml.isPlain_of_le hcontrol.1 hcontrol.2)
  · rintro ⟨hfirst, hrest⟩ d more hsuffix hcontrol
    rcases List.suffix_cons_iff.1 hsuffix with heq | hsuffix
    · obtain ⟨rfl, rfl⟩ := List.cons.inj heq
      exact hfirst.imp_left fun hplain => Toml.eq_tab_of_isPlain hplain hcontrol
    · exact hrest d more hsuffix hcontrol

instance decidablePlainText : (text : List Char) → Decidable (PlainText text)
  | [] => .isTrue plainText_nil
  | _ :: rest =>
    have := decidablePlainText rest
    decidable_of_iff _ plainText_cons_iff.symm

theorem PlainText.tail (h : PlainText (c :: rest)) : PlainText rest := (plainText_cons_iff.1 h).2

/-- A character that starts no line end is no control character but the tab. -/
theorem PlainText.isPlain_head (h : PlainText (c :: rest)) (hfeed : c ≠ '\n')
    (hreturn : ∀ more, c = '\r' → rest = '\n' :: more → False) : Toml.isPlain c = true := by
  rcases (plainText_cons_iff.1 h).1 with hc | hc | ⟨hc, hnext⟩
  · exact hc
  · exact absurd hc hfeed
  · obtain ⟨more, hmore⟩ := List.head?_eq_some_iff.1 hnext
    exact (hreturn more hc hmore).elim

/-- The lines of a plain text hold no control character but the tab. -/
theorem plainLine_of_mem_lines (h : PlainText text) : ∀ line ∈ lines text, PlainLine line := by
  -- The first two steps are line ends, the last two are characters of the last line and of
  -- another one.
  induction text using lines.induct with
  | case1 => simp [lines]
  | case2 rest ih =>
    rw [lines, List.forall_mem_cons]
    exact ⟨plainLine_nil, ih h.tail.tail⟩
  | case3 rest hreturn ih =>
    rw [lines.eq_3 _ _ hreturn, if_pos rfl, List.forall_mem_cons]
    exact ⟨plainLine_nil, ih h.tail⟩
  | case4 c rest hreturn hfeed hrest ih =>
    rw [lines.eq_3 _ _ hreturn, if_neg hfeed, hrest, List.forall_mem_singleton]
    exact plainLine_cons_iff.2 ⟨h.isPlain_head hfeed hreturn, plainLine_nil⟩
  | case5 c rest hreturn hfeed line later hrest ih =>
    rw [hrest, List.forall_mem_cons] at ih
    rw [lines.eq_3 _ _ hreturn, if_neg hfeed, hrest, List.forall_mem_cons]
    obtain ⟨hline, hlater⟩ := ih h.tail
    exact ⟨plainLine_cons_iff.2 ⟨h.isPlain_head hfeed hreturn, hline⟩, hlater⟩

/-- A line in front of a line feed is the first line of a text. -/
theorem lines_append (hline : PlainLine line) (rest : List Char) :
    lines (line ++ '\n' :: rest) = line :: lines rest := by
  induction line with
  | nil => simp [lines]
  | cons c line ih =>
    obtain ⟨hc, hline⟩ := plainLine_cons_iff.1 hline
    have hfeed : c ≠ '\n' := by
      rintro rfl
      simp [Toml.isPlain] at hc
    have hreturn : c ≠ '\r' := by
      rintro rfl
      simp [Toml.isPlain] at hc
    rw [List.cons_append, lines.eq_3 _ _ fun _ h => absurd h hreturn, if_neg hfeed, ih hline]

/-- Lines are taken apart as they were put together. -/
theorem lines_unlines {parts : List (List Char)} (h : ∀ line ∈ parts, PlainLine line) :
    lines (unlines parts) = parts := by
  induction parts with
  | nil => rfl
  | cons line parts ih =>
    rw [List.forall_mem_cons] at h
    rw [unlines_cons, lines_append h.1, ih h.2]

end Plain

section Comments

variable {line : List Char}

theorem isComment_iff : IsComment line ↔ line = [] ∨ ∃ comment, line = '#' :: comment := by
  rw [IsComment, List.head?_eq_some_iff]

theorem commentLine_of_isComment (h : IsComment line) : commentLine line = line := by
  rcases isComment_iff.1 h with rfl | ⟨comment, rfl⟩
  · rfl
  · simp [commentLine]

/-- An empty line or a comment stays as it is, and every other line gets a number sign and a
blank in front. -/
theorem commentLine_cases (line : List Char) :
    IsComment line ∧ commentLine line = line ∨ commentLine line = '#' :: ' ' :: line := by
  cases line with
  | nil => exact .inl ⟨.inl rfl, rfl⟩
  | cons c rest =>
    by_cases hc : c = '#'
    · have hcomment : IsComment (c :: rest) := .inr (by rw [hc, List.head?_cons])
      exact .inl ⟨hcomment, commentLine_of_isComment hcomment⟩
    · exact .inr (by rw [commentLine, if_neg hc])

theorem isComment_commentLine (line : List Char) : IsComment (commentLine line) := by
  rcases commentLine_cases line with ⟨hline, hsame⟩ | hcommented
  · rwa [hsame]
  · rw [hcommented]
    exact .inr rfl

theorem PlainLine.commentLine (h : PlainLine line) : PlainLine (commentLine line) := by
  rcases commentLine_cases line with ⟨-, hsame⟩ | hcommented
  · rwa [hsame]
  · rw [hcommented, plainLine_cons_iff, plainLine_cons_iff]
    exact ⟨by simp [Toml.isPlain], by simp [Toml.isPlain], h⟩

end Comments

namespace Toml

theorem lineEnd?_comment {comment : List Char} (h : PlainLine comment) (rest : List Char) :
    lineEnd? ('#' :: (comment ++ '\n' :: rest)) = some rest := by
  have hblanks : skipBlanks ('#' :: (comment ++ '\n' :: rest)) =
      '#' :: (comment ++ '\n' :: rest) := by
    simp [skipBlanks, isBlank]
  have hcomment : (comment ++ '\n' :: rest).dropWhile isPlain = '\n' :: rest := by
    rw [List.dropWhile_append_of_pos h]
    simp [isPlain]
  simp [lineEnd?, hblanks, hcomment]

/-- An empty line or a comment is passed over. -/
theorem statements?_comment {line : List Char} (hline : IsComment line) (hplain : PlainLine line)
    (bound : Nat) (rest : List Char) :
    statements? (bound + 1) (line ++ '\n' :: rest) = statements? bound rest := by
  rcases isComment_iff.1 hline with rfl | ⟨comment, rfl⟩
  · simp [statements?, skipBlanks, isBlank, startsStatement, lineEnd?]
  · have hend := lineEnd?_comment (plainLine_cons_iff.1 hplain).2 rest
    simp [statements?, skipBlanks, isBlank, startsStatement, hend]

/-- Comments and empty lines in front of a text are passed over. -/
theorem statements?_unlines_append {parts : List (List Char)}
    (hcomments : ∀ line ∈ parts, IsComment line) (hplain : ∀ line ∈ parts, PlainLine line)
    (bound : Nat) (rest : List Char) :
    statements? (bound + parts.length) (unlines parts ++ rest) = statements? bound rest := by
  induction parts with
  | nil => rfl
  | cons line parts ih =>
    rw [List.forall_mem_cons] at hcomments hplain
    have htext : unlines (line :: parts) ++ rest = line ++ '\n' :: (unlines parts ++ rest) := by
      simp [unlines_cons]
    rw [htext, List.length_cons, ← Nat.add_assoc, statements?_comment hcomments.1 hplain.1,
      ih hcomments.2 hplain.2]

/-- A text of comments and empty lines is an empty table. -/
theorem datum?_unlines {parts : List (List Char)} (hcomments : ∀ line ∈ parts, IsComment line)
    (hplain : ∀ line ∈ parts, PlainLine line) :
    datum? (String.ofList (unlines parts)) = some (.object []) := by
  have hmark : afterMark (unlines parts) = unlines parts := by
    cases parts with
    | nil => rfl
    | cons line parts =>
      rw [unlines_cons]
      rcases isComment_iff.1 (hcomments line List.mem_cons_self) with rfl | ⟨comment, rfl⟩
      · simp [afterMark]
      · simp [afterMark]
  have hstatements : statements? ((unlines parts).length + 1) (unlines parts) = some [] := by
    -- Every line has a character, its line feed, so one step for each is within the bound.
    have hlength := length_le_length_unlines parts
    obtain ⟨bound, hbound⟩ : ∃ n, (unlines parts).length + 1 = n + 1 + parts.length :=
      ⟨(unlines parts).length - parts.length, by omega⟩
    have hpassed := statements?_unlines_append hcomments hplain (bound + 1) []
    rw [List.append_nil] at hpassed
    rw [hbound, hpassed]
    rfl
  simp only [datum?, String.toList_ofList, hmark, hstatements]
  rfl

end Toml

section Commented

theorem commented_eq (text : String) :
    commented text = String.ofList (unlines ((lines text.toList).map commentLine)) := by
  rw [commented, unlines, List.flatMap_map]

variable {text : String} (h : PlainText text.toList)

include h

theorem plainLine_of_mem_commented :
    ∀ line ∈ (lines text.toList).map commentLine, PlainLine line := by
  intro line hline
  obtain ⟨before, hbefore, rfl⟩ := List.mem_map.1 hline
  exact (plainLine_of_mem_lines h before hbefore).commentLine

/-- To comment a text out is to comment out its lines. -/
theorem lines_commented :
    lines (commented text).toList = (lines text.toList).map commentLine := by
  rw [commented_eq, String.toList_ofList, lines_unlines (plainLine_of_mem_commented h)]

theorem commented_commented : commented (commented text) = commented text := by
  have hagain : ((lines text.toList).map commentLine).map commentLine =
      (lines text.toList).map commentLine := by
    rw [List.map_map]
    exact List.map_congr_left fun line _ => commentLine_of_isComment (isComment_commentLine line)
  rw [commented_eq, lines_commented h, hagain, ← commented_eq]

/-- A text that is commented out is read as the spec without any setting. -/
theorem parse_commented : Spec.parse .toml (commented text) = .ok {} := by
  have hcomments : ∀ line ∈ (lines text.toList).map commentLine, IsComment line := by
    intro line hline
    obtain ⟨before, -, rfl⟩ := List.mem_map.1 hline
    exact isComment_commentLine before
  have hdatum : Toml.datum? (commented text) = some (.object []) := by
    rw [commented_eq]
    exact Toml.datum?_unlines hcomments (plainLine_of_mem_commented h)
  have htoml : Spec.tomlDatum? (commented text) = some (.object []) := by
    rw [Spec.tomlDatum?, hdatum]
    rfl
  have hread : Spec.ofDatum? (.object []) = some {} := rfl
  rw [Spec.parse, htoml, Option.bind_some, hread]

end Commented

/-- A text whose control characters are tabs and parts of line ends loses all effect when it is
commented out. It keeps the number of its lines; each of them is now empty or a comment, and is
as before or has a number sign and a blank in front. In TOML it is read as the spec without any
setting, whose draft is the one with nothing in it and whose request is the empty object. To
comment it out again changes nothing. -/
theorem commented_inert {text : String} (h : PlainText text.toList) :
    (lines (commented text).toList).length = (lines text.toList).length ∧
      List.Forall₂
        (fun before after => IsComment after ∧ (after = before ∨ after = '#' :: ' ' :: before))
        (lines text.toList) (lines (commented text).toList) ∧
      Spec.parse .toml (commented text) = .ok {} ∧
      (Spec.parse .toml (commented text)).bind Spec.draft = .ok (Draft.fresh .root) ∧
      (Spec.parse .toml (commented text)).bind Spec.render = .ok [] ∧
      commented (commented text) = commented text := by
  have hlines := lines_commented h
  have hparse := parse_commented h
  refine ⟨?_, ?_, hparse, ?_, ?_, commented_commented h⟩
  · rw [hlines, List.length_map]
  · rw [hlines, List.forall₂_map_right_iff, List.forall₂_same]
    exact fun line _ => ⟨isComment_commentLine line, (commentLine_cases line).imp_left And.right⟩
  · rw [hparse]
    rfl
  · rw [hparse]
    rfl

/-- Settings between lines that hold a comment, nothing or blanks, with line ends of both kinds
and none behind the last line, which is in the middle of a string. -/
def unevenLines : String := "# Page\r\nsize = 10\n\n \t\r\nbase.a = \x27\x27\x27\n  b\x27\x27\x27"

theorem commented_inert_unevenLines :
    PlainText unevenLines.toList ∧
      commented unevenLines =
        "# Page\n# size = 10\n\n#  \t\n# base.a = \x27\x27\x27\n#   b\x27\x27\x27\n" ∧
      (lines (commented unevenLines).toList).length = 6 ∧
      Spec.parse .toml (commented unevenLines) = .ok {} ∧
      (Spec.parse .toml (commented unevenLines)).bind Spec.render = .ok [] ∧
      commented (commented unevenLines) = commented unevenLines := by
  have hplain : PlainText unevenLines.toList := by decide
  have hlines : (lines unevenLines.toList).length = 6 := by decide
  obtain ⟨hlength, -, hparse, -, hrender, hagain⟩ := commented_inert hplain
  exact ⟨hplain, by decide, hlength.trans hlines, hparse, hrender, hagain⟩

end SearchQuery
