import DdlModels.Proofs.Comments
import DdlModels.Proofs.TreeShape

/-!
# Pieces of a stripped text

Words, symbols, numbers, texts in quotes and blanks are read alike in a text and in what is left of it
without its comments.
-/

namespace DdlModels

namespace Node

mutual
def bare : Node → Node
  | ⟨kind, _, children⟩ => ⟨kind, "", bareAll children⟩
def bareAll : List Node → List Node
  | [] => []
  | node :: nodes => bare node :: bareAll nodes
end

theorem bareAll_append (nodes more : List Node) : bareAll (nodes ++ more) = bareAll nodes ++ bareAll more := by
  induction nodes with
  | nil => rfl
  | cons node nodes ih =>
    rw [List.cons_append, bareAll, bareAll, ih]
    rfl

end Node

namespace Sql

open Text Script Grammar

/-- Likeness of a text with what is left of it without comments, and of nodes up to their texts. -/
def stripped : Likeness where
  texts text other := Clear text ∧ other = strip text
  errors _ _ := True
  taken _ _ := True
  nodes nodes others := Node.bareAll others = Node.bareAll nodes
  errors_nil := trivial
  errors_append _ _ _ := trivial
  taken_nil := trivial
  taken_append _ _ := trivial
  nodes_nil := rfl
  nodes_append first second := by rw [Node.bareAll_append, Node.bareAll_append, first, second]
  nodes_leaf _ _ := rfl
  nodes_branch kind _ children := by simp only [Node.bareAll, Node.bare, children]

/-- Whether a character is no quote, begins no comment and is not what a comment is replaced by. -/
def isUnmarked (c : Char) : Bool := ! List.contains ['\x27', '\x22', '\x60', '-', '#', '/', ' '] c

variable {text other rest rest' : List Char} {nodes nodes' : List Node} {c : Char} {part : Grammar}

theorem isUnmarked_iff : isUnmarked c ↔ isQuote c = false ∧ c ∉ ['-', '#', '/'] ∧ c ≠ ' ' := by
  simp [isUnmarked, isQuote, and_assoc]

theorem strip_unmarked (h : isUnmarked c) (text : List Char) : strip (c :: text) = c :: strip text := by
  obtain ⟨quote, mark, -⟩ := isUnmarked_iff.mp h
  exact strip_char (Leap.literals_over_none quote text) (comments_over_none mark text)

theorem Clear.tail (h : Clear (c :: text)) (quote : isQuote c = false)
    (jump : Leap.comments.over? (c :: text) = none) :
    Clear text ∧ Leap.comments.over? (c :: strip text) = none := by
  generalize whole : c :: text = start at h
  cases h with
  | nil => contradiction
  | @literal literal after leapt _ =>
    rw [← whole, Leap.literals_over_none quote] at leapt
    contradiction
  | @comment d rest after _ leapt _ =>
    rw [← whole, jump] at leapt
    contradiction
  | char _ _ uncovered clear =>
    obtain ⟨rfl, rfl⟩ := List.cons.inj whole
    exact ⟨clear, uncovered⟩

theorem Clear.unmarked (h : Clear (c :: text)) (hc : isUnmarked c) : Clear text := by
  obtain ⟨quote, mark, -⟩ := isUnmarked_iff.mp hc
  exact (h.tail quote (comments_over_none mark text)).1

theorem Clear.quote (h : Clear (c :: text)) (hc : isQuote c) :
    ∃ after, Leap.literals.over? (c :: text) = some after ∧ Clear after ∧
      ∃ inner, strip (c :: text) = c :: inner ∧ Leap.literals.over? (c :: inner) = some (strip after) := by
  generalize whole : c :: text = start at h
  cases h with
  | nil => contradiction
  | @literal literal after leapt clear =>
    refine ⟨after, leapt, clear, ?_⟩
    obtain ⟨quote, inner, -, rfl⟩ := Clear.literal_cons leapt
    obtain ⟨rfl, -⟩ := List.cons.inj whole
    exact ⟨inner ++ strip after, strip_literal leapt, literal_of_strip leapt⟩
  | comment quote _ _ | char quote _ _ _ =>
    rw [← (List.cons.inj whole).1, hc] at quote
    contradiction

theorem strip_head_unmarked (hc : isUnmarked c) : c ∈ (strip text).head? ↔ c ∈ text.head? := by
  constructor
  · intro h
    rcases strip_head h with same | space
    · exact same
    · exact absurd space (isUnmarked_iff.mp hc).2.2
  · intro h
    cases text with
    | nil => contradiction
    | cons d text =>
      obtain rfl := Option.some.inj h
      rw [strip_unmarked hc]
      rfl

theorem alike_of_reads (h : part.Reads text nodes rest) (h' : part.Reads other nodes' rest')
    (same : Node.bareAll nodes' = Node.bareAll nodes) (clear : Clear rest) (left : rest' = strip rest) :
    Reply.Alike stripped (part.read text) (part.read other) := by
  obtain ⟨taken, found⟩ := h
  obtain ⟨taken', found'⟩ := h'
  rw [found, found']
  exact .ok same trivial ⟨clear, left⟩

theorem alike_of_misses (h : part.Misses text) (h' : part.Misses other) :
    Reply.Alike stripped (part.read text) (part.read other) := by
  obtain ⟨left, missed⟩ := h
  obtain ⟨left', missed'⟩ := h'
  rw [missed, missed']
  exact .miss trivial

theorem Clear.run {member : Char → Bool} (unmarked : ∀ c, member c → isUnmarked c) (h : Clear text) :
    (strip text).takeWhile member = text.takeWhile member ∧
      (strip text).dropWhile member = strip (text.dropWhile member) ∧ Clear (text.dropWhile member) := by
  have apart {c : Char} (marked : isUnmarked c = false) : member c = false := by
    by_contra isMember
    rw [unmarked c (by simpa using isMember)] at marked
    contradiction
  induction text with
  | nil =>
    rw [strip_nil]
    exact ⟨rfl, strip_nil.symm, .nil⟩
  | cons c text ih =>
    cases hc : member c with
    | true =>
      have clear := h.unmarked (unmarked c hc)
      obtain ⟨take, drop, kept⟩ := ih clear
      rw [strip_unmarked (unmarked c hc)]
      simp only [List.takeWhile_cons, List.dropWhile_cons, hc, if_true, take, drop]
      exact ⟨trivial, trivial, kept⟩
    | false =>
      have stays : ∀ d ∈ (strip (c :: text)).head?, member d = false := by
        intro d hd
        rcases strip_head hd with same | rfl
        · rw [← Option.some.inj same]
          exact hc
        · exact apart (by decide)
      have none : (c :: text).dropWhile member = c :: text := by simp [hc]
      rw [none]
      cases left : strip (c :: text) with
      | nil => exact ⟨by simp [hc], rfl, h⟩
      | cons d inner =>
        have hd := stays d (by rw [left]; rfl)
        exact ⟨by simp [hc, hd], by simp [hd], h⟩

private theorem readRun_stripped {kind : ErrorKind} {member : Char → Bool} (unmarked : ∀ c, member c → isUnmarked c)
    (h : Clear text) : Reply.Alike stripped (readRun kind member text) (readRun kind member (strip text)) := by
  obtain ⟨take, drop, clear⟩ := h.run unmarked
  rw [readRun, readRun, take, drop]
  split
  case isTrue => exact .miss trivial
  case isFalse => exact .ok rfl trivial ⟨clear, rfl⟩

theorem isUnmarked_of_isWordChar (c : Char) (h : isWordChar c) : isUnmarked c := by
  have all : ∀ c ∈ ['\x27', '\x22', '\x60', '-', '#', '/', ' '], isWordChar c = false :=
    forall_among (by decide)
  by_contra marked
  have mem : c ∈ ['\x27', '\x22', '\x60', '-', '#', '/', ' '] := by
    by_contra absent
    exact marked (by simpa [isUnmarked] using absent)
  rw [all c mem] at h
  contradiction

theorem isUnmarked_of_isDigit (c : Char) (h : c.isDigit) : isUnmarked c :=
  isUnmarked_of_isWordChar c
    (isWordChar_of_isDigit h)

private theorem readWordAmong_stripped (words : List String) (h : Clear text) :
    Reply.Alike stripped (readWordAmong words text) (readWordAmong words (strip text)) := by
  obtain ⟨take, drop, clear⟩ := h.run isUnmarked_of_isWordChar
  rw [readWordAmong, readWordAmong, readRun, readRun, take, drop]
  by_cases empty : (text.takeWhile isWordChar).isEmpty
  · rw [if_pos empty, if_pos empty]
    exact .miss trivial
  · rw [if_neg empty, if_neg empty]
    simp only
    split
    · exact .ok rfl trivial ⟨clear, rfl⟩
    · exact .miss trivial

theorem symbol_stripped (hc : isUnmarked c) (h : Clear text) :
    Reply.Alike stripped ((symbol c).read text) ((symbol c).read (strip text)) := by
  by_cases here : c ∈ text.head?
  · cases text with
    | nil => contradiction
    | cons d text =>
      obtain rfl := Option.some.inj here
      rw [strip_unmarked hc]
      exact alike_of_reads (symbol_reads d text) (symbol_reads d _) rfl (h.unmarked hc) rfl
  · refine alike_of_misses (symbol_misses_head here) (symbol_misses_head ?_)
    intro there
    exact here ((strip_head_unmarked hc).mp there)

theorem quoted_stripped {quote : Char} (hquote : isQuote quote) (h : Clear text) :
    Reply.Alike stripped ((quoted quote).read text) ((quoted quote).read (strip text)) := by
  have closes {inner rest : List Char} (jump : Leap.literals.over? (quote :: inner) = some rest) :
      (quoted quote).Reads (quote :: inner) [] rest := by
    change literalRest? (quote :: inner) = some rest at jump
    rw [literalRest?, if_pos hquote] at jump
    exact quoted_reads jump
  by_cases here : quote ∈ text.head?
  · cases text with
    | nil => contradiction
    | cons d text =>
      obtain rfl := Option.some.inj here
      obtain ⟨after, jump, clear, inner, left, jump'⟩ := h.quote hquote
      rw [left]
      exact alike_of_reads (closes jump) (closes jump') rfl clear rfl
  · refine alike_of_misses (quoted_misses_head here) (quoted_misses_head ?_)
    intro there
    rcases strip_head there with same | rfl
    · exact here same
    · contradiction

theorem strip_eq_nil : strip text = [] ↔ text = [] := by
  constructor
  · intro empty
    cases text with
    | nil => rfl
    | cons c text =>
      cases literal : Leap.literals.over? (c :: text) with
      | some after =>
        obtain ⟨quote, inner, -, split⟩ := literal_split literal
        rw [split] at literal empty
        rw [strip_literal literal] at empty
        contradiction
      | none =>
        cases comment : Leap.comments.over? (c :: text) with
        | some after =>
          rw [strip_comment literal comment] at empty
          contradiction
        | none =>
          rw [strip_char literal comment] at empty
          contradiction
  · rintro rfl
    exact strip_nil

private theorem continuesWord_dropWhile (text : List Char) :
    continuesWord (text.dropWhile isWordChar) = false := by
  induction text with
  | nil => rfl
  | cons c text ih =>
    cases hc : isWordChar c with
    | true => simpa [hc] using ih
    | false => simp [hc, continuesWord]

theorem keyword_stripped {name : String} (chars : name.toList.all isKeywordChar) (h : Clear text) :
    Reply.Alike stripped ((keyword name).read text) ((keyword name).read (strip text)) := by
  obtain ⟨take, drop, clear⟩ := h.run isUnmarked_of_isWordChar
  have stops := continuesWord_dropWhile text
  have stops' := continuesWord_dropWhile (strip text)
  have hword : ∀ c ∈ text.takeWhile isWordChar, isWordChar c := fun c hc => List.mem_takeWhile_imp hc
  have swap := readKeyword_swap (List.all_eq_true.mp chars) hword stops (drop ▸ stops') strip_eq_nil.symm
  rw [← drop, List.takeWhile_append_dropWhile] at swap
  have whole : text.takeWhile isWordChar ++ (strip text).dropWhile isWordChar = strip text := by
    rw [← take, List.takeWhile_append_dropWhile]
  rw [whole] at swap
  rcases swap with ⟨read, read'⟩ | ⟨missed, missed'⟩
  · exact alike_of_reads ⟨_, read⟩ ⟨_, read'⟩ rfl clear drop
  · exact alike_of_misses missed missed'

/-- Whether a grammar is a lexeme that no comment begins in. -/
def lexemePiece : Grammar → Bool
  | .lexeme (.symbol c) => isUnmarked c
  | .lexeme (.quoted quote) => isQuote quote
  | .lexeme (.keyword name) => name.toList.all isKeywordChar
  | .lexeme (.wordAmong _) | .lexeme .word | .lexeme .digits => true
  | _ => false

theorem lexemePiece_stripped (hpiece : lexemePiece part) (h : Clear text) :
    Reply.Alike stripped (part.read text) (part.read (strip text)) := by
  cases part with
  | lexeme piece =>
    cases piece with
    | symbol c => exact symbol_stripped hpiece h
    | quoted quote => exact quoted_stripped hpiece h
    | keyword name => exact keyword_stripped hpiece h
    | wordAmong words => exact readWordAmong_stripped words h
    | word => exact readRun_stripped isUnmarked_of_isWordChar h
    | digits => exact readRun_stripped isUnmarked_of_isDigit h
    | _ => contradiction
  | _ => contradiction

theorem Leap.comments_describes : Leap.comments.Describes (.lexeme .lineComment <|> .lexeme .blockComment) := by
  have describes {piece : Lexeme} {advances : piece.advances}
      (always : ∀ text, (∃ rest, (lexeme piece).Reads text [] rest) ∨ (lexeme piece).Misses text) (length : Nat) :
      (Leap.ofLexeme piece advances).DescribesUpTo length (lexeme piece) := by
    constructor
    · intro text rest _ jump
      rcases always text with ⟨left, taken, found⟩ | ⟨left, missed⟩
      · change (piece.read text).rest? = some rest at jump
        change piece.read text = _ at found
        rw [found] at jump
        obtain rfl := Option.some.inj jump
        exact ⟨taken, found⟩
      · change (piece.read text).rest? = some rest at jump
        change piece.read text = _ at missed
        rw [missed] at jump
        contradiction
    · intro text _ jump
      rcases always text with ⟨left, taken, found⟩ | missed
      · change (piece.read text).rest? = none at jump
        change piece.read text = _ at found
        rw [found] at jump
        contradiction
      · exact missed
  intro length
  exact (describes (reads_or_misses rfl rfl) length).choice (describes (reads_or_misses rfl rfl) length)

private theorem skipBlanks_comment (jump : Leap.comments.over? (c :: text) = some rest) :
    skipBlanks (c :: text) = skipBlanks rest := by
  have space : ∀ c ∈ ['-', '#', '/'], isSpace c = false := forall_among (by decide)
  have reads := (Leap.comments_describes _).reads (Nat.le_refl _) jump
  exact skipBlanks_of_blank ((spaces_miss (space c (comment_begins jump)) text).orElse reads)

private theorem skipBlanks_visible (space : isSpace c = false)
    (jump : Leap.comments.over? (c :: text) = none) : skipBlanks (c :: text) = c :: text := by
  have misses := (Leap.comments_describes _).misses (Nat.le_refl _) jump
  exact skipBlanks_of_visible ((spaces_miss space text).choice misses)

theorem Clear.skipBlanks_strip (h : Clear text) :
    skipBlanks (strip text) = strip (skipBlanks text) ∧ Clear (skipBlanks text) := by
  induction h with
  | nil =>
    rw [strip_nil, skipBlanks_nil, strip_nil]
    exact ⟨rfl, .nil⟩
  | @literal literal after jump clear _ =>
    obtain ⟨quote, inner, hquote, rfl⟩ := Clear.literal_cons jump
    have marks : ∀ c ∈ ['\x27', '\x22', '\x60'], isSpace c = false ∧ c ∉ ['-', '#', '/'] :=
      forall_among (by decide)
    obtain ⟨space, mark⟩ := marks quote (by simpa [isQuote, or_assoc] using hquote)
    have visible (text : List Char) : skipBlanks (quote :: text) = quote :: text :=
      skipBlanks_visible space (comments_over_none mark text)
    rw [strip_literal jump, List.cons_append, List.cons_append, visible, visible, ← List.cons_append,
      ← List.cons_append, strip_literal jump]
    exact ⟨rfl, .literal jump clear⟩
  | @comment c rest after quote jump _ ih =>
    rw [strip_comment (Leap.literals_over_none quote rest) jump, skipBlanks_space rfl, skipBlanks_comment jump]
    exact ih
  | @char c rest quote jump uncovered clear ih =>
    have left : strip (c :: rest) = c :: strip rest := strip_char (Leap.literals_over_none quote rest) jump
    cases space : isSpace c with
    | true =>
      rw [left, skipBlanks_space space, skipBlanks_space space]
      exact ih
    | false =>
      rw [left, skipBlanks_visible space jump, skipBlanks_visible space uncovered, left]
      exact ⟨rfl, .char quote jump uncovered clear⟩

theorem blanks_stripped (h : Clear text) :
    Reply.Alike stripped (blanks.read text) (blanks.read (strip text)) := by
  obtain ⟨skips, clear⟩ := h.skipBlanks_strip
  exact alike_of_reads (blanks_read text).1 (blanks_read (strip text)).1 rfl clear skips

theorem lexemes_stripped {grammar : Grammar} (made : grammar.madeOf lexemePiece) (h : Clear text) :
    Reply.Alike stripped (grammar.read text) (grammar.read (strip text)) := by
  refine read_alike made ⟨h, rfl⟩ ?_
  intro part place place' hpiece _ texts
  rw [texts.2]
  exact lexemePiece_stripped hpiece texts.1

private theorem comment_dashes (jump : Leap.comments.over? ('-' :: text) = some rest) :
    ∃ inner, text = '-' :: inner := by
  rcases Option.or_eq_some_iff.mp jump with line | ⟨-, block⟩
  · cases text with
    | nil => contradiction
    | cons d inner =>
      by_cases dash : d = '-'
      · exact ⟨inner, by rw [dash]⟩
      · rw [lines_over_hyphen dash] at line
        contradiction
  · change (readBlockComment ('-' :: text)).rest? = some rest at block
    rw [readBlockComment] at block
    · contradiction
    · simp

private theorem hyphen_stripped (h : Clear text)
    (nocomment : '-' ∈ text.head? → Leap.comments.over? text = none) :
    Reply.Alike stripped ((symbol '-').read text) ((symbol '-').read (strip text)) := by
  by_cases here : '-' ∈ text.head?
  · have jump := nocomment here
    cases text with
    | nil => contradiction
    | cons d text =>
      obtain rfl := Option.some.inj here
      rw [strip_char (Leap.literals_over_none rfl text) jump]
      exact alike_of_reads (symbol_reads '-' text) (symbol_reads '-' _) rfl (h.tail rfl jump).1 rfl
  · refine alike_of_misses (symbol_misses_head here) (symbol_misses_head ?_)
    intro there
    rcases strip_head there with same | space
    · exact here same
    · exact absurd space (by decide)

private theorem sign_stripped
    (alike : ∀ text, Clear text → Reply.Alike stripped (part.read text) (part.read (strip text)))
    (apart : ∀ text other, Reply.Alike stripped (part.read ('-' :: text)) (part.read (' ' :: other)))
    (h : Clear text) : Reply.Alike stripped ((sign ++ part).read text) ((sign ++ part).read (strip text)) := by
  by_cases nocomment : '-' ∈ text.head? → Leap.comments.over? text = none
  · have plus := symbol_stripped (c := '+') rfl h
    have either : Reply.Alike stripped ((symbol '+' <|> symbol '-').read text)
        ((symbol '+' <|> symbol '-').read (strip text)) := by
      exact choice_alike plus ⟨h, rfl⟩ fun _ => hyphen_stripped h nocomment
    have signs : Reply.Alike stripped (sign.read text) (sign.read (strip text)) := by
      rw [sign, read_optional, read_optional]
      exact either.orElse fun _ => .ok rfl trivial ⟨h, rfl⟩
    refine signs.andThen ?_
    intro _ _ rest rest' _ texts
    rw [texts.2]
    exact alike rest texts.1
  · -- the sign is the first hyphen of a comment
    obtain ⟨here, jump⟩ := Classical.not_imp.mp nocomment
    cases text with
    | nil => contradiction
    | cons d text =>
      obtain rfl := Option.some.inj here
      obtain ⟨after, jump⟩ := Option.ne_none_iff_exists'.mp jump
      obtain ⟨inner, rfl⟩ := comment_dashes jump
      rw [strip_comment (Leap.literals_over_none rfl _) jump, read_seq, read_seq]
      obtain ⟨taken, found⟩ : sign.Reads ('-' :: '-' :: inner) [] ('-' :: inner) :=
        ((symbol_misses (by decide) _).orElse (symbol_reads '-' _)).optional
      obtain ⟨taken', found'⟩ : sign.Reads (' ' :: strip after) [] (' ' :: strip after) :=
        ((symbol_misses (by decide) _).choice (symbol_misses (by decide) _)).optional
      rw [found, found']
      exact (apart inner (strip after)).after rfl trivial

theorem number_stripped (h : Clear text) : Reply.Alike stripped (number.read text) (number.read (strip text)) := by
  have none {c : Char} (digit : c.isDigit = false) (text : List Char) : digits.Misses (c :: text) :=
    digits_misses (by simpa using digit)
  have main {text : List Char} (h : Clear text) : Reply.Alike stripped
      ((sign ++ (digits ++ .optional (symbol '.' ++ .optional digits) <|> symbol '.' ++ digits)).read text)
      ((sign ++ (digits ++ .optional (symbol '.' ++ .optional digits) <|> symbol '.' ++ digits)).read
        (strip text)) := by
    refine sign_stripped (fun _ clear => lexemes_stripped (by decide) clear) ?_ h
    intro text other
    have misses {c : Char} (digit : c.isDigit = false) (point : c ≠ '.') (text : List Char) :
        (digits ++ .optional (symbol '.' ++ .optional digits) <|> symbol '.' ++ digits).Misses (c :: text) :=
      (none digit text).seq_first.choice (symbol_misses point text).seq_first
    exact alike_of_misses (misses (by decide) (by decide) text) (misses (by decide) (by decide) other)
  have power {text : List Char} (h : Clear text) : Reply.Alike stripped
      ((sign ++ .cut digits).read text) ((sign ++ .cut digits).read (strip text)) := by
    refine sign_stripped ?_ ?_ h
    · intro text clear
      exact (lexemePiece_stripped (show lexemePiece digits from rfl) clear).cut
    · intro text other
      exact (alike_of_misses (none (by decide : '-'.isDigit = false) text)
        (none (by decide : ' '.isDigit = false) other)).cut
  refine (main h).andThen ?_
  intro _ _ rest rest' _ texts
  rw [texts.2]
  have exponent : Reply.Alike stripped
      (((symbol 'e' <|> symbol 'E') ++ sign ++ .cut digits).read rest)
      (((symbol 'e' <|> symbol 'E') ++ sign ++ .cut digits).read (strip rest)) := by
    rw [Grammar.seq_assoc, Grammar.seq_assoc]
    have mark : Reply.Alike stripped ((symbol 'e' <|> symbol 'E').read rest)
        ((symbol 'e' <|> symbol 'E').read (strip rest)) := lexemes_stripped (by decide) texts.1
    refine mark.andThen ?_
    intro _ _ left left' _ texts
    rw [texts.2]
    exact power texts.1
  change Reply.Alike stripped ((Grammar.optional _).read rest) ((Grammar.optional _).read (strip rest))
  rw [read_optional, read_optional]
  exact exponent.orElse fun _ => .ok rfl trivial ⟨texts.1, rfl⟩

end Sql

end DdlModels
