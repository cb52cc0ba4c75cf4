import DdlModels.Proofs.Layout
import DdlModels.Proofs.Separated

/-!
# Blanks

White space and comments are passed over up to something else. More text after a space changes nothing,
unless a text ends in blanks: then they go on into what follows.
-/

namespace DdlModels.Sql

open Script

variable {text rest more : List Char}

theorem skipBlanks_eq (h : Grammar.blanks.Reads text [] rest) : skipBlanks text = rest := by
  obtain ⟨taken, found⟩ := h
  simp only [skipBlanks, found]

theorem spaces_miss {c : Char} (space : isSpace c = false) (text : List Char) :
    (Grammar.lexeme .spaces).Misses (c :: text) := by
  refine ⟨[(c :: text, .multiSpace)], ?_⟩
  change readRun .multiSpace isSpace (c :: text) = _
  simp [readRun, space]

/-- What blanks can begin with. -/
def blankStarts : List Char := '\x0d' :: gapStarts

theorem blank_misses {c : Char} (h : c ∉ blankStarts) (text : List Char) : Grammar.blank.Misses (c :: text) := by
  simp only [blankStarts, gapStarts, List.mem_cons, List.not_mem_nil, or_false, not_or] at h
  have space : isSpace c = false := by simp [isSpace, h]
  have line : (Grammar.lexeme .lineComment).blocked (refusedAt c) := by simp [Grammar.blocked, refusedAt, h]
  have block : (Grammar.lexeme .blockComment).blocked (refusedAt c) := by simp [Grammar.blocked, refusedAt, h]
  have start := refuses_at c text
  exact (spaces_miss space text).choice
    ((Grammar.misses_of_blocked start line).choice (Grammar.misses_of_blocked start block))

theorem blanks_read (text : List Char) :
    Grammar.blanks.Reads text [] (skipBlanks text) ∧ Grammar.blank.Misses (skipBlanks text) := by
  induction hn : text.length using Nat.strongRecOn generalizing text with
  | ind n ih =>
    rcases Grammar.reads_or_misses (rfl : Grammar.blank.calm) rfl text with ⟨rest, turn⟩ | visible
    · have shorter := turn.length_lt rfl
      obtain ⟨read, stop⟩ := ih rest.length (by omega) rest rfl
      have whole : Grammar.blanks.Reads text [] (skipBlanks rest) := turn.many rfl read
      rw [skipBlanks_eq whole]
      exact ⟨whole, stop⟩
    · have whole : Grammar.blanks.Reads text [] text := Grammar.Misses.many visible
      rw [skipBlanks_eq whole]
      exact ⟨whole, visible⟩

theorem skipBlanks_of_blank (h : Grammar.blank.Reads text [] rest) : skipBlanks text = skipBlanks rest :=
  skipBlanks_eq (h.many rfl (blanks_read rest).1)

theorem skipBlanks_of_visible (h : Grammar.blank.Misses text) : skipBlanks text = text :=
  skipBlanks_eq (Grammar.Misses.many h)

theorem skipBlanks_space {c : Char} (hc : isSpace c) (text : List Char) :
    skipBlanks (c :: text) = skipBlanks text :=
  skipBlanks_eq (blanks_read_space hc (blanks_read text).1)

section Same

variable {part : Grammar} {nodes : List Node} {other left : List Char}

/-- What is looked for after blanks does not depend on the blanks. -/
theorem blanks_misses_iff (same : skipBlanks text = skipBlanks other) :
    (Grammar.blanks ++ part).Misses text ↔ (Grammar.blanks ++ part).Misses other := by
  rw [(blanks_read text).1.then_misses_iff, (blanks_read other).1.then_misses_iff, same]

theorem blanks_reads_iff (same : skipBlanks text = skipBlanks other) :
    (Grammar.blanks ++ part).Reads text nodes left ↔ (Grammar.blanks ++ part).Reads other nodes left := by
  rw [(blanks_read text).1.then_iff, (blanks_read other).1.then_iff, same]

end Same

theorem skipBlanks_suffix (text : List Char) : skipBlanks text <:+ text := by
  obtain ⟨taken, split⟩ := (blanks_read text).1.splits
  exact ⟨taken, split.symm⟩

theorem skipBlanks_nil : skipBlanks [] = [] := skipBlanks_of_visible ⟨_, rfl⟩

private theorem line_separated (text more : List Char) :
    readToLineEnd (text ++ ' ' :: '\n' :: more) =
      if text.dropWhile (!breaksLine ·) = [] then .ok [] (text ++ [' ']) ('\n' :: more)
      else (readToLineEnd text).followedBy (' ' :: '\n' :: more) := by
  have drop : (text ++ ' ' :: '\n' :: more).dropWhile (!breaksLine ·) =
      if text.dropWhile (!breaksLine ·) = [] then '\n' :: more
      else text.dropWhile (!breaksLine ·) ++ ' ' :: '\n' :: more := by
    induction text with
    | nil => rfl
    | cons c text ih =>
      cases hc : breaksLine c with
      | true => simp [hc]
      | false => simpa [hc] using ih
  have take : (text ++ ' ' :: '\n' :: more).takeWhile (!breaksLine ·) =
      if text.dropWhile (!breaksLine ·) = [] then text ++ [' '] else text.takeWhile (!breaksLine ·) := by
    clear drop
    induction text with
    | nil => rfl
    | cons c text ih =>
      cases hc : breaksLine c with
      | true => simp [hc]
      | false =>
        simp only [List.cons_append, List.takeWhile_cons, List.dropWhile_cons, hc, Bool.not_false, if_true]
        rw [ih]
        split <;> rfl
  have ends (c : Char) (left : List Char) :
      atLineEnd ((c :: left) ++ ' ' :: '\n' :: more) = atLineEnd (c :: left) := by
    by_cases hc : c = '\x0d'
    · subst hc
      cases left <;> rfl
    · cases left <;> simp [atLineEnd, hc]
  rw [readToLineEnd, readToLineEnd, drop, take]
  split
  case isTrue => rfl
  case isFalse nonempty =>
    obtain ⟨c, left, hleft⟩ := List.exists_cons_of_ne_nil nonempty
    rw [hleft, ends]
    split <;> rfl

private theorem commentBody_separated (mark inner more : List Char) :
    (∀ rest, (∃ taken, (readToLineEnd inner).after [] mark = .ok [] taken rest) →
      ∃ taken, (readToLineEnd (inner ++ ' ' :: '\n' :: more)).after [] mark =
        .ok [] taken (if rest = [] then '\n' :: more else rest ++ ' ' :: '\n' :: more)) ∧
    ((∃ errors, (readToLineEnd inner).after [] mark = .miss errors) →
      ∃ errors, (readToLineEnd (inner ++ ' ' :: '\n' :: more)).after [] mark = .miss errors) := by
  rw [line_separated]
  by_cases empty : inner.dropWhile (!breaksLine ·) = []
  · have whole : readToLineEnd inner = .ok [] (inner.takeWhile (!breaksLine ·)) [] := by
      simp [readToLineEnd, empty, atLineEnd]
    rw [if_pos empty, whole]
    constructor
    · rintro rest ⟨taken, found⟩
      obtain ⟨-, -, rfl⟩ := Reply.ok.inj found
      exact ⟨mark ++ (inner ++ [' ']), rfl⟩
    · rintro ⟨left, missed⟩
      contradiction
  · rw [if_neg empty]
    cases reply : readToLineEnd inner with
    | ok nodes body left =>
      have hleft : inner.dropWhile (!breaksLine ·) = left := by
        rw [readToLineEnd] at reply
        split at reply
        · exact (Reply.ok.inj reply).2.2
        · contradiction
      constructor
      · rintro rest ⟨taken, found⟩
        obtain ⟨hnodes, -, rfl⟩ := Reply.ok.inj found
        rw [if_neg (hleft ▸ empty)]
        exact ⟨mark ++ body, by simp_all [Reply.followedBy, Reply.after]⟩
      · rintro ⟨left, missed⟩
        contradiction
    | miss => exact ⟨by simp [Reply.after], fun _ => ⟨_, rfl⟩⟩
    | fail => exact ⟨by simp [Reply.after], by simp [Reply.after]⟩

private theorem lineComment_separated (text more : List Char) :
    (∀ rest, (Grammar.lexeme .lineComment).Reads text [] rest →
      (Grammar.lexeme .lineComment).Reads (text ++ ' ' :: '\n' :: more) []
        (if rest = [] then '\n' :: more else rest ++ ' ' :: '\n' :: more)) ∧
    ((Grammar.lexeme .lineComment).Misses text →
      (Grammar.lexeme .lineComment).Misses (text ++ ' ' :: '\n' :: more)) := by
  simp only [Grammar.Reads, Grammar.Misses, Grammar.read_lexeme, Lexeme.read]
  fun_cases readLineComment text with
  | case1 inner => exact commentBody_separated ['-', '-'] inner more
  | case2 inner => exact commentBody_separated ['#'] inner more
  | case3 _ no_dashes no_hash =>
    refine ⟨by simp, ?_⟩
    intro _
    refine ⟨[(text ++ ' ' :: '\n' :: more, .tag), (text ++ ' ' :: '\n' :: more, .alt)], ?_⟩
    rw [readLineComment]
    · rintro rest same
      cases text with
      | nil => simp at same
      | cons c text =>
        cases text with
        | nil => simp at same
        | cons d text =>
          simp only [List.cons_append, List.cons.injEq] at same
          obtain ⟨rfl, rfl, -⟩ := same
          exact no_dashes text rfl
    · rintro rest same
      cases text with
      | nil => simp at same
      | cons c text =>
        simp only [List.cons_append, List.cons.injEq] at same
        obtain ⟨rfl, -⟩ := same
        exact no_hash text rfl

theorem blockComment_misses (closed : ¬ ['/', '*'] <:+: text) :
    (Grammar.lexeme .blockComment).Misses text := by
  refine ⟨[(text, .tag)], ?_⟩
  change readBlockComment text = _
  rw [readBlockComment]
  rintro rest rfl
  exact closed ⟨[], rest, rfl⟩

/-- Blanks at the end of a text go on into what follows; otherwise nothing changes. -/
theorem skipBlanks_separated (closed : ¬ ['/', '*'] <:+: text) (more : List Char) :
    skipBlanks (text ++ ' ' :: '\n' :: more) =
      if skipBlanks text = [] then skipBlanks more else skipBlanks text ++ ' ' :: '\n' :: more := by
  induction hn : text.length using Nat.strongRecOn generalizing text with
  | ind n ih =>
    cases text with
    | nil => rw [List.nil_append, skipBlanks_space rfl, skipBlanks_space rfl, skipBlanks_nil, if_pos rfl]
    | cons c text =>
      by_cases space : isSpace c
      · rw [List.cons_append, skipBlanks_space space, skipBlanks_space space]
        rw [List.length_cons] at hn
        exact ih text.length (by omega) (fun inside => closed (inside.trans (List.suffix_cons c text).isInfix)) rfl
      · have no_spaces (left : List Char) : (Grammar.lexeme .spaces).Misses (c :: left) :=
          spaces_miss (by simpa using space) left
        have lines := lineComment_separated (c :: text) more
        rcases Grammar.reads_or_misses (rfl : (Grammar.lexeme .lineComment).calm) rfl (c :: text) with ⟨rest, read⟩ | missed
        · have turn : Grammar.blank.Reads (c :: text) [] rest := (no_spaces text).orElse read.orElse
          have longer : Grammar.blank.Reads (c :: text ++ ' ' :: '\n' :: more) [] _ :=
            (no_spaces _).orElse (lines.1 rest read).orElse
          rw [skipBlanks_of_blank turn, skipBlanks_of_blank longer]
          by_cases empty : rest = []
          · rw [if_pos empty, empty, skipBlanks_nil, if_pos rfl, skipBlanks_space rfl]
          · rw [if_neg empty]
            have shorter := turn.length_lt rfl
            obtain ⟨taken, split⟩ := turn.splits
            exact ih rest.length (by omega) (fun inside => closed (split ▸ inside.trans
              (List.suffix_append taken rest).isInfix)) rfl
        · have visible : Grammar.blank.Misses (c :: text) :=
            (no_spaces text).choice (missed.choice (blockComment_misses closed))
          have open_end : (Grammar.lexeme .blockComment).Misses (c :: text ++ ' ' :: '\n' :: more) := by
            refine ⟨[(c :: text ++ ' ' :: '\n' :: more, .tag)], ?_⟩
            change readBlockComment (c :: text ++ ' ' :: '\n' :: more) = _
            rw [readBlockComment]
            intro rest same
            cases text with
            | nil => simp at same
            | cons d text =>
              simp only [List.cons_append, List.cons.injEq] at same
              obtain ⟨rfl, rfl, -⟩ := same
              exact closed ⟨[], text, rfl⟩
          have still : Grammar.blank.Misses (c :: text ++ ' ' :: '\n' :: more) :=
            (no_spaces _).choice ((lines.2 missed).choice open_end)
          rw [skipBlanks_of_visible visible, skipBlanks_of_visible still, if_neg (List.cons_ne_nil c text)]

end DdlModels.Sql
