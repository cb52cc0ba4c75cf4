import DdlModels.Proofs.Lookahead

/-!
# Layouts

Tokens are laid out in a text with gaps between them, made of white space and comments. Reading blanks
leads to the next token, whatever the gap before it.
-/

namespace DdlModels.Sql

open Text Grammar

/-- White space and comments, perhaps none. -/
inductive Gap : List Char → Prop where
  | nil : Gap []
  | space {c : Char} {rest : List Char} : c ∈ [' ', '\t', '\n'] → Gap rest → Gap (c :: rest)
  /-- A block comment, which ends at its first closing mark. -/
  | block {body rest : List Char} : ¬ ['*', '/'] <:+: body → Gap rest →
      Gap ('/' :: '*' :: (body ++ '*' :: '/' :: rest))
  /-- A line comment with the line feed after it. -/
  | line {mark body rest : List Char} : mark ∈ [['-', '-'], ['#']] →
      (∀ c ∈ body, breaksLine c = false) → Gap rest → Gap (mark ++ (body ++ '\n' :: rest))

/-- What may stand before a token. -/
inductive Spacing where
  /-- Any gap, perhaps an empty one. -/
  | free
  /-- A gap. -/
  | apart
  /-- White space. -/
  | white
  deriving DecidableEq

def Spacing.Allows : Spacing → List Char → Prop
  | free, gap => Gap gap
  | apart, gap => Gap gap ∧ gap ≠ []
  | white, gap => (∀ c ∈ gap, c ∈ [' ', '\t', '\n']) ∧ gap ≠ []

/-- What a token is written as. -/
inductive Form where
  /-- A keyword, in any case. -/
  | word (name : String)
  /-- A text as it is. -/
  | exact (text : List Char)

def Form.Writes : Form → List Char → Prop
  | word name, text => Spells name text
  | exact piece, text => text = piece

/-- A token, and what may stand before it. -/
structure Token where
  spacing : Spacing := .apart
  form : Form

/-- A text in which tokens stand one after another, and a gap at the end. -/
inductive Laid : List Token → List Char → Prop where
  | done {gap : List Char} : Gap gap → Laid [] gap
  | token {token : Token} {tokens : List Token} {gap piece rest : List Char} :
      token.spacing.Allows gap → token.form.Writes piece → Laid tokens rest →
      Laid (token :: tokens) (gap ++ (piece ++ rest))

def gapStarts : List Char := [' ', '\t', '\n', '/', '-', '#']

/-- A text that begins with a gap, or is empty. -/
def StartsGap (text : List Char) : Prop := ∀ c ∈ text.head?, c ∈ gapStarts

theorem StartsGap.head_ne {rest : List Char} (h : StartsGap rest) {c : Char} (hc : c ∉ gapStarts) :
    rest.head? ≠ some c := by
  intro same
  exact hc (h c same)

theorem StartsGap.wordEnds {text : List Char} (h : StartsGap text) : WordEnds text := by
  have all : ∀ c ∈ gapStarts, c.toNat < 128 ∧ isWordChar c = false := forall_among (by decide)
  intro c hc
  exact all c (h c hc)

theorem Gap.startsGap {gap rest : List Char} (h : Gap gap) (hrest : StartsGap rest) :
    StartsGap (gap ++ rest) := by
  cases h with
  | nil => exact hrest
  | space mem _ =>
    intro c hc
    obtain rfl := Option.some.inj hc
    have all : ∀ c ∈ [' ', '\t', '\n'], c ∈ gapStarts := forall_among (by decide)
    exact all _ mem
  | block =>
    intro c hc
    obtain rfl := Option.some.inj hc
    decide
  | line mem _ _ =>
    simp only [List.mem_cons, List.not_mem_nil, or_false] at mem
    rcases mem with rfl | rfl
    all_goals
      intro c hc
      obtain rfl := Option.some.inj hc
      decide

theorem Gap.startsGap_of_ne {gap : List Char} (h : Gap gap) (ne : gap ≠ []) (rest : List Char) :
    StartsGap (gap ++ rest) := by
  obtain ⟨c, more, rfl⟩ := List.exists_cons_of_ne_nil ne
  have start : StartsGap (c :: more ++ []) := h.startsGap (by simp [StartsGap])
  intro d hd
  exact start d (by simpa using hd)

theorem gap_of_white {gap : List Char} (h : ∀ c ∈ gap, c ∈ [' ', '\t', '\n']) : Gap gap := by
  induction gap with
  | nil => exact .nil
  | cons c gap ih =>
    exact .space (h c List.mem_cons_self) (ih fun d hd => h d (List.mem_cons_of_mem c hd))

theorem Spacing.Allows.gap {spacing : Spacing} {gap : List Char} (h : spacing.Allows gap) : Gap gap := by
  cases spacing with
  | free => exact h
  | apart => exact h.1
  | white => exact gap_of_white h.1

/-- The next token, if there is one, stands apart from what is before it. -/
def Gapped (tokens : List Token) : Prop := ∀ token ∈ tokens.head?, token.spacing ≠ .free

theorem Laid.startsGap {tokens : List Token} {text : List Char} (h : Laid tokens text)
    (gapped : Gapped tokens) : StartsGap text := by
  cases h with
  | done gap =>
    have start : StartsGap (text ++ []) := gap.startsGap (by simp [StartsGap])
    simpa using start
  | @token token tokens gap piece rest allows _ _ =>
    have ne : gap ≠ [] := by
      have tight := gapped token rfl
      cases spacing : token.spacing with
      | free => contradiction
      | apart | white =>
        rw [spacing] at allows
        exact allows.2
    exact allows.gap.startsGap_of_ne ne _

def Grammar.blank : Grammar := .lexeme .spaces <|> .lexeme .lineComment <|> .lexeme .blockComment

private theorem spaces_read {c : Char} (hc : isSpace c) (text : List Char) :
    blank.Reads (c :: text) [] (text.dropWhile isSpace) := by
  refine Reads.orElse ⟨c :: text.takeWhile isSpace, ?_⟩
  change readRun .multiSpace isSpace (c :: text) = _
  simp [readRun, hc]

theorem blanks_read_space {c : Char} (hc : isSpace c) {text rest : List Char}
    (h : blanks.Reads text [] rest) : blanks.Reads (c :: text) [] rest := by
  have turn := spaces_read hc text
  by_cases more : ∃ d inner, text = d :: inner ∧ isSpace d
  · obtain ⟨d, inner, rfl, hd⟩ := more
    -- the run of spaces begins one character earlier
    have same : (d :: inner).dropWhile isSpace = inner.dropWhile isSpace := by simp [hd]
    rw [same] at turn
    exact turn.many rfl (h.many_rest (spaces_read hd inner))
  · have same : text.dropWhile isSpace = text := by
      cases text with
      | nil => rfl
      | cons d inner =>
        have hd : ¬ isSpace d := fun hd => more ⟨d, inner, rfl, hd⟩
        simp [hd]
    rw [same] at turn
    exact turn.many rfl h

private theorem readToCommentClose_body {body : List Char} (h : ¬ ['*', '/'] <:+: body)
    (start rest : List Char) :
    readToCommentClose start (body ++ '*' :: '/' :: rest) = .ok [] (body ++ ['*', '/']) rest := by
  induction body with
  | nil => rfl
  | cons c body ih =>
    have inner : ¬ ['*', '/'] <:+: body := fun inside => h (inside.trans (List.suffix_cons c body).isInfix)
    have open_end : ∀ after, c = '*' → body ++ '*' :: '/' :: rest ≠ '/' :: after := by
      rintro after rfl same
      cases body with
      | nil => simp at same
      | cons d body =>
        obtain rfl := (List.cons.inj same).1
        exact h ⟨[], body, rfl⟩
    rw [List.cons_append, readToCommentClose, ih inner]
    · rfl
    · rintro after rfl same
      exact open_end after rfl same

theorem blockComment_reads {body : List Char} (h : ¬ ['*', '/'] <:+: body) (rest : List Char) :
    blank.Reads ('/' :: '*' :: (body ++ '*' :: '/' :: rest)) [] rest := by
  have start := refuses_at '/' ('*' :: (body ++ '*' :: '/' :: rest))
  refine (misses_of_blocked start (by decide)).orElse
    ((misses_of_blocked start (by decide)).orElse ⟨'/' :: '*' :: (body ++ ['*', '/']), ?_⟩)
  change readBlockComment ('/' :: '*' :: (body ++ '*' :: '/' :: rest)) = _
  rw [readBlockComment, readToCommentClose_body h]
  rfl

theorem readToLineEnd_body {body rest : List Char} (plain : ∀ c ∈ body, breaksLine c = false)
    (stop : ∀ c ∈ rest.head?, breaksLine c) :
    readToLineEnd (body ++ rest) =
      if atLineEnd rest then .ok [] body rest else .miss [(body ++ rest, .tag)] := by
  obtain ⟨take, drop⟩ : (body ++ rest).takeWhile (!breaksLine ·) = body ∧
      (body ++ rest).dropWhile (!breaksLine ·) = rest :=
    span_until (by simpa using plain) (by simpa using stop)
  rw [readToLineEnd, take, drop]

theorem readLineComment_mark {mark : List Char} (marks : mark ∈ [['-', '-'], ['#']]) (text : List Char) :
    readLineComment (mark ++ text) = (readToLineEnd text).after [] mark := by
  simp only [List.mem_cons, List.not_mem_nil, or_false] at marks
  rcases marks with rfl | rfl <;> rfl

theorem mark_head {mark : List Char} (marks : mark ∈ [['-', '-'], ['#']]) :
    ∃ c more, mark = c :: more ∧ c ∈ ['-', '#'] := by
  simp only [List.mem_cons, List.not_mem_nil, or_false] at marks
  rcases marks with rfl | rfl
  · exact ⟨'-', ['-'], rfl, by decide⟩
  · exact ⟨'#', [], rfl, by decide⟩

theorem lineComment_reads {mark text taken rest : List Char} (marks : mark ∈ [['-', '-'], ['#']])
    (line : readToLineEnd text = .ok [] taken rest) : blank.Reads (mark ++ text) [] rest := by
  have read : (Grammar.lexeme .lineComment).Reads (mark ++ text) [] rest := by
    refine ⟨mark ++ taken, ?_⟩
    change readLineComment _ = _
    rw [readLineComment_mark marks, line]
    rfl
  obtain ⟨c, more, rfl, hc⟩ := mark_head marks
  have all : ∀ c ∈ ['-', '#'], (Grammar.lexeme .spaces).blocked (refusedAt c) := forall_among (by decide)
  exact (misses_of_blocked (refuses_at c _) (all c hc)).orElse read.orElse

theorem Gap.before {gap text rest : List Char} (h : Gap gap) (blank : blanks.Reads text [] rest) :
    blanks.Reads (gap ++ text) [] rest := by
  induction h with
  | nil => exact blank
  | @space c gap mem _ ih =>
    have all : ∀ c ∈ [' ', '\t', '\n'], isSpace c = true := forall_among (by decide)
    exact blanks_read_space (all c mem) ih
  | @block body gap closed _ ih =>
    have turn := blockComment_reads closed (gap ++ text)
    simp only [List.cons_append, List.append_assoc]
    exact Reads.many turn rfl ih
  | @line mark body gap mem plain _ ih =>
    have line : readToLineEnd (body ++ '\n' :: (gap ++ text)) = .ok [] body ('\n' :: (gap ++ text)) :=
      readToLineEnd_body plain (by rintro c ⟨⟩; rfl)
    have turn := lineComment_reads mem line
    rw [List.append_assoc, List.append_assoc, List.cons_append]
    exact Reads.many turn rfl (blanks_read_space rfl ih)

/-- Blanks are read up to what is no blank. -/
theorem Gap.reads {gap rest : List Char} (h : Gap gap) (visible : blank.Misses rest) :
    blanks.Reads (gap ++ rest) [] rest :=
  h.before visible.many

variable {spacing : Spacing} {name : String} {piece text : List Char} {tokens : List Token}

theorem Laid.word (h : Laid (⟨spacing, .word name⟩ :: tokens) text) (gapped : Gapped tokens)
    (keyword : name ≠ "" ∧ name.toList.all isKeywordChar) :
    ∃ word rest, blanks.Reads text [] (word ++ rest) ∧ BeginsWithWord name word rest ∧
      Laid tokens rest := by
  cases h with
  | @token _ _ gap word rest allows writes laid =>
    have begins : BeginsWithWord name word rest :=
      ⟨writes, keyword.1, keyword.2, (laid.startsGap gapped).wordEnds⟩
    have visible : blank.Misses (word ++ rest) := misses_of_blocked begins.refuses (by rfl)
    exact ⟨word, rest, allows.gap.reads visible, begins, laid⟩

theorem Laid.exact (h : Laid (⟨spacing, .exact piece⟩ :: tokens) text)
    (visible : ∀ rest, blank.Misses (piece ++ rest)) :
    ∃ rest, blanks.Reads text [] (piece ++ rest) ∧ Laid tokens rest := by
  cases h with
  | @token _ _ gap _ rest allows writes laid =>
    obtain rfl := writes
    exact ⟨rest, allows.gap.reads (visible rest), laid⟩

end DdlModels.Sql
