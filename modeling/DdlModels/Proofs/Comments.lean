import DdlModels.Proofs.ColumnEnds

/-!
# Stripping comments

Comments outside of quotes are replaced by spaces. A scan of the text without its comments ends where a
scan of the text itself ends that leaps over comments.
-/

namespace DdlModels.Sql

def Leap.comments : Leap := Leap.lines.orElse (.ofLexeme .blockComment rfl)

/-- Leaps over texts in quotes and over comments. -/
def Leap.mindful : Leap := Leap.literals.orElse Leap.comments

/-- The text with a space for each comment outside of quotes. -/
def strip (text : List Char) : List Char :=
  match text with
  | [] => []
  | c :: rest =>
    match _literal : Leap.literals.over? (c :: rest) with
    | some after => (c :: rest).take ((c :: rest).length - after.length) ++ strip after
    | none =>
      match _comment : Leap.comments.over? (c :: rest) with
      | some after => ' ' :: strip after
      | none => c :: strip rest
termination_by text.length
decreasing_by
  · exact Leap.literals.shortens _literal
  · exact Leap.comments.shortens _comment
  · simp

/-- Whether every quote outside of comments is closed. -/
def terminated (text : List Char) : Bool :=
  match text with
  | [] => true
  | c :: rest =>
    match _literal : Leap.literals.over? (c :: rest) with
    | some after => terminated after
    | none =>
      match _comment : Leap.comments.over? (c :: rest) with
      | some after => terminated after
      | none => !isQuote c && terminated rest
termination_by text.length
decreasing_by
  · exact Leap.literals.shortens _literal
  · exact Leap.comments.shortens _comment
  · simp

section Steps

variable {c : Char} {rest after literal : List Char}

theorem strip_nil : strip [] = [] := by rw [strip.eq_def]

theorem strip_literal (h : Leap.literals.over? (literal ++ after) = some after) :
    strip (literal ++ after) = literal ++ strip after := by
  cases literal with
  | nil =>
    have shorter := Leap.literals.shortens h
    simp at shorter
  | cons c literal =>
    rw [List.cons_append] at h ⊢
    rw [strip.eq_def]
    simp only
    split
    case h_1 other jump =>
      obtain rfl := Option.some.inj (h.symm.trans jump)
      have count : (c :: (literal ++ after)).length - after.length = (c :: literal).length := by
        simp only [List.length_cons, List.length_append]
        omega
      rw [count, ← List.cons_append, List.take_left, List.cons_append]
    case h_2 jump => simp [jump] at h

theorem strip_comment (noliteral : Leap.literals.over? (c :: rest) = none)
    (h : Leap.comments.over? (c :: rest) = some after) : strip (c :: rest) = ' ' :: strip after := by
  rw [strip.eq_def]
  simp only
  split
  case h_1 other jump => simp [noliteral] at jump
  case h_2 jump =>
    split
    case h_1 other jump => rw [Option.some.inj (h.symm.trans jump)]
    case h_2 jump => simp [jump] at h

theorem strip_char (noliteral : Leap.literals.over? (c :: rest) = none)
    (h : Leap.comments.over? (c :: rest) = none) : strip (c :: rest) = c :: strip rest := by
  rw [strip.eq_def]
  simp only
  split
  case h_1 other jump => simp [noliteral] at jump
  case h_2 jump =>
    split
    case h_1 other jump => simp [h] at jump
    case h_2 jump => rfl

end Steps

/-- A stripped text begins as the text does, or with a space. -/
theorem strip_head {text : List Char} {c : Char} (h : c ∈ (strip text).head?) : c ∈ text.head? ∨ c = ' ' := by
  cases text with
  | nil =>
    rw [strip_nil] at h
    contradiction
  | cons d rest =>
    cases literal : Leap.literals.over? (d :: rest) with
    | some after =>
      obtain ⟨quote, inner, -, split⟩ := literal_split literal
      rw [split] at literal h ⊢
      rw [strip_literal literal] at h
      exact .inl h
    | none =>
      cases comment : Leap.comments.over? (d :: rest) with
      | some after =>
        rw [strip_comment literal comment] at h
        exact .inr (Option.some.inj h).symm
      | none =>
        rw [strip_char literal comment] at h
        exact .inl h

theorem literal_of_strip {literal after : List Char}
    (h : Leap.literals.over? (literal ++ after) = some after) :
    Leap.literals.over? (literal ++ strip after) = some (strip after) := by
  refine literalRest?_swap h ?_
  intro c hc
  rcases strip_head hc with here | rfl
  · exact .inl here
  · exact .inr rfl

/-- A text in which all quotes are closed and which has no more comments once it is stripped. -/
inductive Clear : List Char → Prop where
  | nil : Clear []
  | literal {literal after : List Char} : Leap.literals.over? (literal ++ after) = some after →
    Clear after → Clear (literal ++ after)
  | comment {c : Char} {rest after : List Char} : isQuote c = false →
    Leap.comments.over? (c :: rest) = some after → Clear after → Clear (c :: rest)
  | char {c : Char} {rest : List Char} : isQuote c = false → Leap.comments.over? (c :: rest) = none →
    Leap.comments.over? (c :: strip rest) = none → Clear rest → Clear (c :: rest)

theorem comments_over_none {c : Char} (h : c ∉ ['-', '#', '/']) (text : List Char) :
    Leap.comments.over? (c :: text) = none := by
  simp only [List.mem_cons, List.not_mem_nil, or_false, not_or] at h
  refine Option.or_eq_none_iff.mpr ⟨lines_over_none h.1 h.2.1 text, ?_⟩
  change (readBlockComment (c :: text)).rest? = none
  rw [readBlockComment]
  · rfl
  · rintro rest ⟨rfl, -⟩
    exact h.2.2 rfl

theorem comment_begins {c : Char} {text after : List Char}
    (h : Leap.comments.over? (c :: text) = some after) : c ∈ ['-', '#', '/'] := by
  by_contra absent
  rw [comments_over_none absent] at h
  contradiction

theorem not_quote_of_comment {c : Char} {text after : List Char}
    (h : Leap.comments.over? (c :: text) = some after) : isQuote c = false := by
  have all : ∀ c ∈ ['-', '#', '/'], isQuote c = false := Text.forall_among (by decide)
  exact all c (comment_begins h)

theorem strip_space (text : List Char) : strip (' ' :: text) = ' ' :: strip text :=
  strip_char (Leap.literals_over_none rfl text) (comments_over_none (by decide) text)

theorem clear_of_terminated {text : List Char} (closed : terminated text) (bare : strip (strip text) = strip text) :
    Clear text := by
  fun_induction terminated text with
  | case1 => exact .nil
  | case2 c rest after literal ih =>
    obtain ⟨quote, inner, -, split⟩ := literal_split literal
    rw [split] at literal bare ⊢
    rw [strip_literal literal, strip_literal (literal_of_strip literal)] at bare
    exact .literal literal (ih closed (List.append_cancel_left bare))
  | case3 c rest literal after comment ih =>
    rw [strip_comment literal comment, strip_space] at bare
    exact .comment (not_quote_of_comment comment) comment (ih closed (List.cons.inj bare).2)
  | case4 c rest literal comment ih =>
    simp only [Bool.and_eq_true, Bool.not_eq_true'] at closed
    rw [strip_char literal comment] at bare
    have noliteral := Leap.literals_over_none closed.1 (strip rest)
    cases uncovered : Leap.comments.over? (c :: strip rest) with
    | some after =>
      -- a comment that stripping uncovers would become a space
      rw [strip_comment noliteral uncovered] at bare
      have space := (List.cons.inj bare).1
      have mark := comment_begins uncovered
      rw [← space] at mark
      contradiction
    | none =>
      rw [strip_char noliteral uncovered] at bare
      exact .char closed.1 comment uncovered (ih closed.2 (List.cons.inj bare).2)

namespace Clear

variable {text : List Char}

theorem strip_strip (h : Clear text) : strip (strip text) = strip text := by
  induction h with
  | nil => rw [strip_nil, strip_nil]
  | literal jump _ ih => rw [strip_literal jump, strip_literal (literal_of_strip jump), ih]
  | comment quote jump _ ih =>
    rw [strip_comment (Leap.literals_over_none quote _) jump, strip_space, ih]
  | char quote jump uncovered _ ih =>
    rw [strip_char (Leap.literals_over_none quote _) jump, strip_char (Leap.literals_over_none quote _) uncovered,
      ih]

protected theorem strip (h : Clear text) : Clear (strip text) := by
  induction h with
  | nil =>
    rw [strip_nil]
    exact .nil
  | literal jump _ ih =>
    rw [strip_literal jump]
    exact .literal (literal_of_strip jump) ih
  | comment quote jump _ ih =>
    rw [strip_comment (Leap.literals_over_none quote _) jump]
    exact .char rfl (comments_over_none (by decide) _) (comments_over_none (by decide) _) ih
  | char quote jump uncovered clear ih =>
    rw [strip_char (Leap.literals_over_none quote _) jump]
    exact .char quote uncovered (by rw [clear.strip_strip]; exact uncovered) ih

theorem mindful_literal {literal after : List Char} (h : Leap.literals.over? (literal ++ after) = some after) :
    Leap.mindful.over? (literal ++ after) = some after :=
  Option.or_eq_some_iff.mpr (.inl h)

theorem mindful_comment {c : Char} {rest after : List Char} (quote : isQuote c = false)
    (h : Leap.comments.over? (c :: rest) = some after) : Leap.mindful.over? (c :: rest) = some after :=
  Option.or_eq_some_iff.mpr (.inr ⟨Leap.literals_over_none quote rest, h⟩)

theorem mindful_char {c : Char} {rest : List Char} (quote : isQuote c = false)
    (h : Leap.comments.over? (c :: rest) = none) : Leap.mindful.over? (c :: rest) = none :=
  Option.or_eq_none_iff.mpr ⟨Leap.literals_over_none quote rest, h⟩

theorem literal_cons {literal after : List Char} (h : Leap.literals.over? (literal ++ after) = some after) :
    ∃ quote inner, isQuote quote ∧ literal = quote :: inner := by
  obtain ⟨quote, inner, hquote, split⟩ := literal_split h
  exact ⟨quote, inner ++ [quote], hquote, List.append_cancel_right split⟩

theorem groupEnd?_strip (h : Clear text) (depth : Nat) :
    groupEnd? .literals depth (strip text) = (groupEnd? .mindful depth text).map strip ∧
      ∀ rest, groupEnd? .mindful depth text = some rest → Clear rest := by
  induction h generalizing depth with
  | nil =>
    rw [strip_nil, groupEnd?_nil, groupEnd?_nil]
    exact ⟨rfl, by simp⟩
  | @literal literal after jump _ ih =>
    obtain ⟨quote, inner, -, rfl⟩ := literal_cons jump
    have left : groupEnd? .literals depth (strip ((quote :: inner) ++ after)) =
        groupEnd? .literals depth (strip after) := by
      rw [strip_literal jump]
      exact groupEnd?_leap (literal_of_strip jump)
    have right : groupEnd? .mindful depth ((quote :: inner) ++ after) = groupEnd? .mindful depth after :=
      groupEnd?_leap (mindful_literal jump)
    rw [left, right]
    exact ih depth
  | @comment c rest after quote jump _ ih =>
    rw [strip_comment (Leap.literals_over_none quote rest) jump, groupEnd?_leap (mindful_comment quote jump),
      groupEnd?_char (Leap.literals_over_none rfl _)]
    exact ih depth
  | @char c rest quote jump _ clear ih =>
    rw [strip_char (Leap.literals_over_none quote rest) jump, groupEnd?_char (mindful_char quote jump),
      groupEnd?_char (Leap.literals_over_none quote _)]
    simp only [quote, Bool.false_eq_true, if_false]
    by_cases opens : c = '('
    · rw [if_pos opens, if_pos opens]
      exact ih (depth + 1)
    · rw [if_neg opens, if_neg opens]
      by_cases closes : c = ')'
      · rw [if_pos closes, if_pos closes]
        cases depth with
        | zero =>
          refine ⟨rfl, ?_⟩
          rintro _ ⟨⟩
          exact clear
        | succ depth => exact ih depth
      · rw [if_neg closes, if_neg closes]
        exact ih depth

end Clear

/-- Two rules that leap alike, one in a text and the other in the text without its comments. -/
structure Leap.Strips (mindful plain : Leap) : Prop where
  literal {text after : List Char} : Leap.literals.over? text = some after →
    mindful.over? text = some after ∧ plain.over? text = some after
  comment {c : Char} {rest after : List Char} : isQuote c = false →
    Leap.comments.over? (c :: rest) = some after → mindful.over? (c :: rest) = some after
  space (text : List Char) : plain.over? (' ' :: text) = none
  char {c : Char} {rest : List Char} : isQuote c = false → Leap.comments.over? (c :: rest) = none →
    Clear rest → plain.over? (c :: strip rest) = (mindful.over? (c :: rest)).map strip ∧
      ∀ after, mindful.over? (c :: rest) = some after → Clear after

theorem Leap.mindful_strips : Leap.Strips .mindful .literals where
  literal h := ⟨Option.or_eq_some_iff.mpr (.inl h), h⟩
  comment := Clear.mindful_comment
  space text := Leap.literals_over_none rfl text
  char := by
    intro c rest quote jump _
    rw [Clear.mindful_char quote jump, Leap.literals_over_none quote]
    exact ⟨rfl, by simp⟩

theorem Leap.mindful_withGroups_strips : Leap.Strips Leap.mindful.withGroups Leap.literals.withGroups where
  literal := by
    intro text after h
    obtain ⟨quote, inner, hquote, rfl⟩ := literal_split h
    have not_open : quote ≠ '(' := by
      rintro rfl
      contradiction
    exact ⟨Option.or_eq_some_iff.mpr (.inr ⟨Leap.groups_over_ne not_open _, Clear.mindful_literal h⟩),
      Option.or_eq_some_iff.mpr (.inr ⟨Leap.groups_over_ne not_open _, h⟩)⟩
  comment := by
    intro c rest after quote h
    have not_open : c ≠ '(' := by
      rintro rfl
      exact absurd (comment_begins h) (by decide)
    exact Option.or_eq_some_iff.mpr (.inr ⟨Leap.groups_over_ne not_open _, Clear.mindful_comment quote h⟩)
  space text := Leap.withGroups_over_none (by decide) rfl text
  char := by
    intro c rest quote jump clear
    have mindful : Leap.mindful.withGroups.over? (c :: rest) = Leap.mindful.groups.over? (c :: rest) := by
      change (Leap.mindful.groups.over? _).or (Leap.mindful.over? _) = _
      rw [Clear.mindful_char quote jump, Option.or_none]
    have plain : Leap.literals.withGroups.over? (c :: strip rest) = Leap.literals.groups.over? (c :: strip rest) := by
      change (Leap.literals.groups.over? _).or (Leap.literals.over? _) = _
      rw [Leap.literals_over_none quote, Option.or_none]
    rw [mindful, plain]
    by_cases opens : c = '('
    · subst opens
      exact clear.groupEnd?_strip 0
    · rw [Leap.groups_over_ne opens, Leap.groups_over_ne opens]
      exact ⟨rfl, by simp⟩

/-- A scan of the text without its comments ends where one ends that leaps over them. -/
theorem Clear.scan_strip {mindful plain : Leap} {text : List Char} (h : Clear text)
    (strips : mindful.Strips plain) (stops : List Char) (space : ' ' ∉ stops) :
    scan plain stops (strip text) = strip (scan mindful stops text) ∧ Clear (scan mindful stops text) := by
  -- on the length of the text, for what is left after a group may be shorter by much
  induction hn : text.length using Nat.strongRecOn generalizing text with
  | ind n ih =>
    cases h with
    | nil =>
      rw [strip_nil, scan_nil, scan_nil, strip_nil]
      exact ⟨rfl, .nil⟩
    | @literal literal after jump clear =>
      have shorter := Leap.literals.shortens jump
      rw [strip_literal jump, scan_over (strips.literal jump).1, scan_over (strips.literal (literal_of_strip jump)).2]
      exact ih after.length (by omega) clear rfl
    | @comment c rest after quote jump clear =>
      have shorter := Leap.comments.shortens jump
      rw [strip_comment (Leap.literals_over_none quote rest) jump, scan_over (strips.comment quote jump),
        scan_char (strips.space _), if_neg space]
      exact ih after.length (by omega) clear rfl
    | @char c rest quote jump uncovered clear =>
      obtain ⟨same, kept⟩ := strips.char quote jump clear
      have stripped : strip (c :: rest) = c :: strip rest := strip_char (Leap.literals_over_none quote rest) jump
      rw [stripped]
      cases leapt : mindful.over? (c :: rest) with
      | some after =>
        rw [leapt] at same
        have shorter := mindful.shortens leapt
        rw [scan_leap leapt, scan_leap same]
        exact ih after.length (by omega) (kept after leapt) rfl
      | none =>
        rw [leapt] at same
        rw [scan_char leapt, scan_char same]
        by_cases stop : c ∈ stops
        · rw [if_pos stop, if_pos stop, stripped]
          exact ⟨rfl, .char quote jump uncovered clear⟩
        · rw [if_neg stop, if_neg stop]
          rw [List.length_cons] at hn
          exact ih rest.length (by omega) clear rfl

end DdlModels.Sql
