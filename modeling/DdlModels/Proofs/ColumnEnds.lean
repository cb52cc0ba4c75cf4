import DdlModels.Proofs.Blanks

/-!
# Where columns end

A scan that leaps over groups, texts in quotes and line comments finds the comma or the parenthesis that
ends a column. Nothing that is read of the column changes where the scan ends. If it ends well, then what is
read does not change when more text follows.
-/

namespace DdlModels.Sql

open Text Script

deriving instance DecidableEq for Lexeme, Grammar

/-- A text without block comments and without the Kelvin sign. -/
def Plain (text : List Char) : Prop := ¬ ['/', '*'] <:+: text ∧ '\u212A' ∉ text

theorem Plain.suffix {text rest : List Char} (h : Plain text) (suffix : rest <:+ text) : Plain rest := by
  constructor
  · intro inside
    exact h.1 (inside.trans suffix.isInfix)
  · intro kelvin
    exact h.2 (suffix.mem kelvin)

theorem Plain.reads {grammar : Grammar} {text rest : List Char} {nodes : List Node} (h : Plain text)
    (reads : grammar.Reads text nodes rest) : Plain rest := by
  obtain ⟨taken, split⟩ := reads.splits
  exact h.suffix ⟨taken, split.symm⟩

/-- Leaps over comments that run to the end of a line. -/
def Leap.lines : Leap := .ofLexeme .lineComment rfl

/-- Leaps over what may stand in a column and holds commas or parentheses of its own. -/
def columnLeap : Leap := Leap.lines.orElse Leap.literals.withGroups

/-- The text from the character that ends a column. -/
def columnEnd (text : List Char) : List Char := scan columnLeap definitionStops text

/-- A column ends as it should. -/
def Settled (text : List Char) : Prop :=
  ∃ c rest, columnEnd text = c :: rest ∧ c ∈ [',', ')']

/-- Whether the scan passes over a character, whatever follows. -/
def isQuiet (c : Char) : Bool := !definitionStops.contains c && c != '-' && c != '#'

variable {text rest : List Char} {nodes : List Node} {c : Char}

theorem lines_over_none (dash : c ≠ '-') (hash : c ≠ '#') (text : List Char) :
    Leap.lines.over? (c :: text) = none := by
  change (readLineComment (c :: text)).rest? = none
  rw [readLineComment]
  · rfl
  · rintro rest ⟨rfl, -⟩
    exact dash rfl
  · rintro rest ⟨rfl, -⟩
    exact hash rfl

theorem columnLeap_over (text : List Char) : columnLeap.over? text =
    (Leap.lines.over? text).or ((Leap.literals.groups.over? text).or (Leap.literals.over? text)) := rfl

theorem columnEnd_char (noline : Leap.lines.over? (c :: text) = none) (plain : c ∉ definitionStops) :
    columnEnd (c :: text) = columnEnd text := by
  have jump : columnLeap.over? (c :: text) = none :=
    Option.or_eq_none_iff.mpr ⟨noline, definitionStops_quiet c plain text⟩
  rw [columnEnd, scan_char jump, if_neg plain]
  rfl

theorem columnEnd_quiet (h : isQuiet c) (text : List Char) : columnEnd (c :: text) = columnEnd text := by
  simp only [isQuiet, Bool.and_eq_true, bne_iff_ne, Bool.not_eq_true', List.contains_eq_mem,
    decide_eq_false_iff_not] at h
  exact columnEnd_char (lines_over_none h.1.2 h.2 text) h.1.1

theorem columnEnd_append {before : List Char} (quiet : ∀ c ∈ before, isQuiet c) (text : List Char) :
    columnEnd (before ++ text) = columnEnd text := by
  induction before with
  | nil => rfl
  | cons c before ih =>
    rw [List.cons_append, columnEnd_quiet (quiet c List.mem_cons_self)]
    exact ih fun d hd => quiet d (List.mem_cons_of_mem c hd)

theorem columnEnd_leap (h : columnLeap.over? (c :: text) = some rest) :
    columnEnd (c :: text) = columnEnd rest := scan_leap h

theorem lines_over_hyphen (other : c ≠ '-') (text : List Char) :
    Leap.lines.over? ('-' :: c :: text) = none := by
  change (readLineComment ('-' :: c :: text)).rest? = none
  rw [readLineComment]
  · rfl
  · intro rest same
    exact other (List.cons.inj (List.cons.inj same).2).1
  · simp

theorem columnEnd_hyphen (other : c ≠ '-') (text : List Char) :
    columnEnd ('-' :: c :: text) = columnEnd (c :: text) :=
  columnEnd_char (lines_over_hyphen other text) (by decide)

theorem Settled.ne_nil (h : Settled text) : text ≠ [] := by
  rintro rfl
  obtain ⟨c, rest, ends, -⟩ := h
  rw [columnEnd, scan_nil] at ends
  contradiction

theorem isQuiet_of_isWordChar (h : isWordChar c) : isQuiet c := by
  have all : ∀ d ∈ '-' :: '#' :: definitionStops, isWordChar d = false := forall_among (by decide)
  by_contra loud
  have mem : c ∈ '-' :: '#' :: definitionStops := by
    simp only [isQuiet, Bool.and_eq_true, bne_iff_ne, Bool.not_eq_true', List.contains_eq_mem,
      decide_eq_false_iff_not, not_and, not_not] at loud
    by_cases stops : c ∈ definitionStops
    · simp [stops]
    · by_cases dash : c = '-'
      · simp [dash]
      · simp [loud ⟨stops, dash⟩]
  rw [all c mem] at h
  contradiction

theorem isQuiet_of_isDigit (h : c.isDigit) : isQuiet c := isQuiet_of_isWordChar (isWordChar_of_isDigit h)

private theorem run_quiet {kind : ErrorKind} {member : Char → Bool} (quiet : ∀ c, member c → isQuiet c)
    {taken : List Char} (h : readRun kind member text = .ok nodes taken rest) :
    columnEnd text = columnEnd rest := by
  rw [readRun] at h
  split at h
  · contradiction
  · obtain ⟨-, rfl, rfl⟩ := Reply.ok.inj h
    have split : text = text.takeWhile member ++ text.dropWhile member :=
      List.takeWhile_append_dropWhile.symm
    rw [split, columnEnd_append fun c hc => quiet c (List.mem_takeWhile_imp hc)]
    rw [← split]

theorem readKeyword_wordChars {keyword taken : List Char} (chars : ∀ k ∈ keyword, isKeywordChar k)
    (kelvin : '\u212A' ∉ text) (h : readKeyword keyword text = .ok nodes taken rest) :
    ∀ c ∈ taken, isWordChar c := by
  induction keyword generalizing text taken with
  | nil =>
    obtain rfl : taken = [] := by
      have whole : splitBytes? (byteSize []) text = some ([], text) := by cases text <;> rfl
      have agrees : agree text [] = true := by cases text <;> rfl
      rw [readKeyword, if_pos agrees, whole] at h
      simp only at h
      split at h
      · simp at h
      · exact (Reply.ok.inj h).2.1.symm
    simp
  | cons k keyword ih =>
    have hk := chars k List.mem_cons_self
    cases text with
    | nil =>
      have same : readKeyword (k :: keyword) ([] ++ [' ']) = _ := readKeyword_separated chars kelvin
      rw [h] at same
      have space := lowerChar_ne_of_not_word (c := ' ') (by decide) (by decide) hk
      simp [readKeyword, agree, space, Reply.followedBy] at same
    | cons c text =>
      by_cases same : lowerChar c = lowerChar k
      · have hc : c ≠ '\u212A' := fun kelvin' => kelvin (kelvin' ▸ List.mem_cons_self)
        have ascii := ascii_of_lowerChar_eq same hk hc
        obtain ⟨-, more, rfl, next⟩ := (readKeyword_cons_eq_ok ascii (keywordChar_ascii hk)).mp h
        have hword : isWordChar c := by
          by_contra other
          exact lowerChar_ne_of_not_word ascii (by simpa using other) hk same
        have inner := ih (fun d hd => chars d (List.mem_cons_of_mem k hd))
          (fun inside => kelvin (List.mem_cons_of_mem c inside)) next
        intro d hd
        rcases List.mem_cons.mp hd with rfl | hd
        · exact hword
        · exact inner d hd
      · simp [readKeyword, agree, same] at h

theorem reads_symbol (h : (Grammar.symbol c).Reads text nodes rest) : text = c :: rest := by
  obtain ⟨taken, found⟩ := h
  change readSymbol c text = _ at found
  cases text with
  | nil => contradiction
  | cons d text =>
    rw [readSymbol] at found
    split at found
    case isTrue same =>
      obtain ⟨-, -, rfl⟩ := Reply.ok.inj found
      rw [beq_iff_eq.mp same]
    case isFalse => contradiction

private theorem reads_digits (h : Grammar.digits.Reads text nodes rest) :
    columnEnd text = columnEnd rest ∧ ∃ d more, text = d :: more ∧ d.isDigit := by
  obtain ⟨taken, found⟩ := h
  change readRun .digit Char.isDigit text = _ at found
  refine ⟨run_quiet (fun _ => isQuiet_of_isDigit) found, ?_⟩
  rw [readRun] at found
  cases text with
  | nil => contradiction
  | cons d text =>
    cases hd : d.isDigit with
    | false => simp [hd] at found
    | true => exact ⟨d, text, rfl, hd⟩

theorem reads_quoted {quote : Char} (h : (Grammar.quoted quote).Reads text nodes rest) :
    ∃ inner, text = quote :: inner ∧ (readToClose quote inner).rest? = some rest := by
  obtain ⟨taken, found⟩ := h
  change readQuoted quote text = _ at found
  cases text with
  | nil => contradiction
  | cons d text =>
    rw [readQuoted] at found
    split at found
    case isTrue same =>
      obtain ⟨inner, found, -⟩ := Reply.after_eq_ok found
      refine ⟨text, by rw [beq_iff_eq.mp same], ?_⟩
      rw [found]
      rfl
    case isFalse => contradiction

private theorem quote_ne {quote : Char} (h : isQuote quote) :
    quote ≠ '(' ∧ quote ≠ '-' ∧ quote ≠ '#' := by
  refine ⟨?_, ?_, ?_⟩ <;> intro same <;> rw [same] at h <;> contradiction

private theorem columnEnd_literal {quote : Char} (hquote : isQuote quote)
    (closes : (readToClose quote text).rest? = some rest) :
    columnEnd (quote :: text) = columnEnd rest := by
  have others := quote_ne hquote
  have literal : Leap.literals.over? (quote :: text) = some rest := by
    change literalRest? (quote :: text) = some rest
    rw [literalRest?, if_pos hquote, closes]
  apply columnEnd_leap
  rw [columnLeap_over, lines_over_none others.2.1 others.2.2, Leap.groups_over_ne others.1, literal]
  rfl

private theorem columnEnd_group (h : Grammar.group.Reads text nodes rest) :
    columnEnd text = columnEnd rest := by
  have jump := Leap.groups_describes.over_eq h
  cases text with
  | nil => simp [Leap.groups] at jump
  | cons c text =>
    have opening : c = '(' := by
      by_contra other
      rw [Leap.groups_over_ne other] at jump
      contradiction
    subst opening
    apply columnEnd_leap
    rw [columnLeap_over, lines_over_none (by decide) (by decide), jump]
    rfl

private theorem isQuiet_of_isSpace (c : Char) (h : isSpace c) : isQuiet c := by
  simp only [isSpace, Bool.or_eq_true, beq_iff_eq] at h
  rcases h with ((rfl | rfl) | rfl) | rfl <;> decide

theorem columnEnd_blanks (plain : Plain text) : columnEnd text = columnEnd (skipBlanks text) := by
  induction hn : text.length using Nat.strongRecOn generalizing text with
  | ind n ih =>
    rcases Grammar.reads_or_misses (rfl : Grammar.blank.calm) rfl text with ⟨rest, turn⟩ | visible
    · have shorter := turn.length_lt rfl
      rw [skipBlanks_of_blank turn, ← ih rest.length (by omega) (plain.reads turn) rfl]
      rcases turn.of_choice with ⟨taken, spaces⟩ | ⟨-, turn⟩
      · exact run_quiet isQuiet_of_isSpace spaces
      · rcases turn.of_choice with ⟨taken, line⟩ | ⟨-, block⟩
        · have jump : Leap.lines.over? text = some rest := by
            change (readLineComment text).rest? = some rest
            change readLineComment text = _ at line
            rw [line]
            rfl
          cases text with
          | nil => contradiction
          | cons c text =>
            apply columnEnd_leap
            rw [columnLeap_over, jump]
            rfl
        · exact absurd (blockComment_misses plain.1) block.not_misses
    · rw [skipBlanks_of_visible visible]

private theorem columnEnd_sign {between : List Char} (h : Grammar.sign.Reads text nodes between)
    (number : ∃ d more, between = d :: more ∧ d ≠ '-') : columnEnd text = columnEnd between := by
  obtain ⟨d, more, rfl, other⟩ := number
  rcases h.of_optional with sign | ⟨-, -, rfl⟩
  · rcases sign.of_choice with plus | ⟨-, minus⟩
    · rw [reads_symbol plus]
      exact columnEnd_quiet (by decide) _
    · rw [reads_symbol minus]
      exact columnEnd_hyphen other more
  · rfl

/-- The hyphen of a number never begins a comment, for a digit or a point follows it. -/
private theorem columnEnd_number (h : Grammar.number.Reads text nodes rest) : columnEnd text = columnEnd rest := by
  have ne_hyphen {d : Char} (hd : d.isDigit) : d ≠ '-' := by
    intro same
    rw [same] at hd
    contradiction
  obtain ⟨_, _, place, signed, exponent, -⟩ := h.of_seq
  obtain ⟨_, _, start, sign, main, -⟩ := signed.of_seq
  have head : columnEnd text = columnEnd place := by
    rcases main.of_choice with whole | ⟨-, part⟩
    · obtain ⟨_, _, after, digits, fraction, -⟩ := whole.of_seq
      obtain ⟨run, d, more, hd, digit⟩ := reads_digits digits
      rw [columnEnd_sign sign ⟨d, more, hd, ne_hyphen digit⟩, run]
      rcases fraction.of_optional with fraction | ⟨-, -, rfl⟩
      · obtain ⟨_, _, point, dot, decimals, -⟩ := fraction.of_seq
        rw [reads_symbol dot, columnEnd_quiet (by decide)]
        rcases decimals.of_optional with decimals | ⟨-, -, rfl⟩
        · exact (reads_digits decimals).1
        · rfl
      · rfl
    · obtain ⟨_, _, point, dot, decimals, -⟩ := part.of_seq
      have hstart := reads_symbol dot
      rw [columnEnd_sign sign ⟨'.', point, hstart, by decide⟩, hstart, columnEnd_quiet (by decide)]
      exact (reads_digits decimals).1
  rw [head]
  rcases exponent.of_optional with exponent | ⟨-, -, rfl⟩
  · obtain ⟨_, _, power, marked, digits, -⟩ := exponent.of_seq
    obtain ⟨_, _, after, mark, sign, -⟩ := marked.of_seq
    obtain ⟨run, d, more, hd, digit⟩ := reads_digits digits.of_cut
    rcases mark.of_choice with small | ⟨-, capital⟩
    · rw [reads_symbol small, columnEnd_quiet (by decide), columnEnd_sign sign ⟨d, more, hd, ne_hyphen digit⟩, run]
    · rw [reads_symbol capital, columnEnd_quiet (by decide), columnEnd_sign sign ⟨d, more, hd, ne_hyphen digit⟩, run]
  · rfl

def columnPiece : Grammar → Bool
  | .group => true
  | .lexeme (.symbol c) => isQuiet c && c != ' '
  | .lexeme (.quoted quote) => isQuote quote
  | .lexeme piece => piece.plain
  | grammar =>
    grammar == Grammar.blanks || grammar == Grammar.number

theorem column_madeOf_pieces : Grammar.column.madeOf columnPiece := by decide

theorem columnEnd_piece {part : Grammar} (h : columnPiece part) (plain : Plain text)
    (reads : part.Reads text nodes rest) : columnEnd text = columnEnd rest := by
  cases part with
  | group => exact columnEnd_group reads
  | lexeme piece =>
    cases piece with
    | symbol c =>
      have both := Bool.and_eq_true_iff.mp h
      rw [reads_symbol reads]
      exact columnEnd_quiet both.1 rest
    | quoted quote =>
      obtain ⟨inner, rfl, closes⟩ := reads_quoted reads
      exact columnEnd_literal h closes
    | keyword name =>
      obtain ⟨taken, found⟩ := reads
      have split := readKeyword_splits name.toList text
      change readKeyword name.toList text = _ at found
      rw [found] at split
      have words := readKeyword_wordChars (List.all_eq_true.mp h) plain.2 found
      rw [show text = taken ++ rest from split]
      exact columnEnd_append (fun c hc => isQuiet_of_isWordChar (words c hc)) rest
    | wordAmong words =>
      obtain ⟨taken, found⟩ := reads
      change readWordAmong words text = _ at found
      rw [readWordAmong] at found
      split at found
      case h_1 _ _ _ run =>
        split at found
        · obtain ⟨-, -, rfl⟩ := Reply.ok.inj found
          exact run_quiet (fun _ => isQuiet_of_isWordChar) run
        · contradiction
      case h_2 other => exact absurd found (other _ _ _)
    | word =>
      obtain ⟨taken, found⟩ := reads
      exact run_quiet (fun _ => isQuiet_of_isWordChar) found
    | digits => exact (reads_digits reads).1
    | spaces | lineComment | blockComment | run => contradiction
  | _ =>
    simp only [columnPiece, Bool.or_eq_true, beq_iff_eq] at h
    rcases h with same | same
    · rw [same] at reads
      obtain ⟨rfl, rfl⟩ := reads.unique (blanks_read text).1
      exact columnEnd_blanks plain
    · rw [same] at reads
      exact columnEnd_number reads

theorem Settled.reads {part : Grammar} (h : Settled text) (hpiece : columnPiece part) (plain : Plain text)
    (reads : part.Reads text nodes rest) : Settled rest := by
  obtain ⟨c, left, ends, close⟩ := h
  exact ⟨c, left, (columnEnd_piece hpiece plain reads).symm.trans ends, close⟩

/-- What would stop the scan for no good reason is leapt over. -/
theorem Settled.leaps (h : Settled (c :: text)) (stops : c ∈ definitionStops) (other : c ∉ [',', ')']) :
    columnLeap.over? (c :: text) ≠ none := by
  intro jump
  obtain ⟨d, rest, ends, close⟩ := h
  rw [columnEnd, scan_char jump, if_pos stops] at ends
  obtain ⟨rfl, -⟩ := List.cons.inj ends
  exact other close

private theorem group_continues (h : Settled text) (more : List Char) :
    Grammar.group.Continues more text := by
  cases text with
  | nil => exact absurd rfl h.ne_nil
  | cons c text =>
    by_cases opening : c = '('
    · subst opening
      have leaps := h.leaps (by decide) (by decide)
      rw [columnLeap_over, lines_over_none (by decide) (by decide),
        Leap.literals_over_none (c := '(') rfl] at leaps
      cases jump : Leap.literals.groups.over? ('(' :: text) with
      | none => simp [jump] at leaps
      | some rest =>
        exact .of_reads ((Leap.groups_describes _).reads (Nat.le_refl _) jump)
          ((Leap.groups_describes _).reads (Nat.le_refl _) (Leap.groups_append jump more))
    · have missed (left : List Char) : Grammar.group.read (c :: left) = .miss [(c :: left, .char '(')] := by
        rw [Grammar.read_group]
        change ((readSymbol '(' (c :: left)).andThen _).andThen _ = _
        simp [readSymbol, opening, Reply.andThen]
      rw [Grammar.Continues, List.cons_append, missed, missed]
      rfl

private theorem quoted_continues {quote : Char} (hquote : isQuote quote) (h : Settled text)
    (more : List Char) : (Grammar.quoted quote).Continues more text := by
  cases text with
  | nil => exact absurd rfl h.ne_nil
  | cons c text =>
    by_cases same : c = quote
    · subst same
      have others := quote_ne hquote
      have stops : ∀ d, isQuote d → d ∈ definitionStops ∧ d ∉ [',', ')'] := by
        intro d hd
        simp only [isQuote, Bool.or_eq_true, beq_iff_eq] at hd
        rcases hd with (rfl | rfl) | rfl <;> decide
      have leaps := h.leaps (stops c hquote).1 (stops c hquote).2
      rw [columnLeap_over, lines_over_none others.2.1 others.2.2, Leap.groups_over_ne others.1] at leaps
      rcases readToClose_ok_or_miss c text with ⟨taken, rest, found⟩ | ⟨rest, missed⟩
      · have closes : (readToClose c text).rest? = some rest := by
          rw [found]
          rfl
        have settled : Settled rest := by
          obtain ⟨d, left, ends, close⟩ := h
          exact ⟨d, left, (columnEnd_literal hquote closes).symm.trans ends, close⟩
        have longer : (readToClose c (text ++ more)).rest? = some (rest ++ more) := by
          rw [readToClose_append (isQuote_ne_backslash hquote) found (.inl settled.ne_nil)]
          rfl
        exact .of_reads (Grammar.quoted_reads closes) (Grammar.quoted_reads longer)
      · have jump : Leap.literals.over? (c :: text) = none := by
          change literalRest? (c :: text) = none
          rw [literalRest?, if_pos hquote, missed]
          rfl
        rw [jump] at leaps
        exact absurd rfl leaps
    · have missed (left : List Char) :
          (Grammar.quoted quote).read (c :: left) = .miss [(c :: left, .char quote)] := by
        change readQuoted quote (c :: left) = _
        simp [readQuoted, same]
      rw [Grammar.Continues, List.cons_append, missed, missed]
      rfl

private theorem blanks_continues (h : Settled text) (plain : Plain text) (more : List Char) :
    Grammar.blanks.Continues (' ' :: '\n' :: more) text := by
  have settled : Settled (skipBlanks text) := by
    obtain ⟨c, left, ends, close⟩ := h
    exact ⟨c, left, (columnEnd_blanks plain).symm.trans ends, close⟩
  have longer := (blanks_read (text ++ ' ' :: '\n' :: more)).1
  rw [skipBlanks_separated plain.1, if_neg settled.ne_nil] at longer
  exact .of_reads (blanks_read text).1 longer

theorem piece_continues {part : Grammar} (hpiece : columnPiece part) (h : Settled text) (plain : Plain text)
    (more : List Char) : part.Continues (' ' :: '\n' :: more) text := by
  cases part with
  | group => exact group_continues h _
  | lexeme piece =>
    cases piece with
    | symbol c => exact Lexeme.continues (Bool.and_eq_true_iff.mp hpiece).2 plain.2
    | quoted quote => exact quoted_continues hpiece h _
    | keyword | wordAmong | word | digits => exact Lexeme.continues hpiece plain.2
    | spaces | lineComment | blockComment | run => contradiction
  | _ =>
    simp only [columnPiece, Bool.or_eq_true, beq_iff_eq] at hpiece
    rcases hpiece with same | same
    · rw [same]
      exact blanks_continues h plain more
    · rw [same]
      exact number_continues plain.2 _

theorem column_continues (h : Settled text) (plain : Plain text) (more : List Char) :
    Grammar.column.Continues (' ' :: '\n' :: more) text := by
  refine .of_pieces (P := fun place => Settled place ∧ Plain place) column_madeOf_pieces ⟨h, plain⟩ ?_ ?_
  · intro part place hpiece hplace
    exact piece_continues hpiece hplace.1 hplace.2 more
  · intro part place hpiece hplace nodes rest reads
    exact ⟨hplace.1.reads hpiece hplace.2 reads, hplace.2.reads reads⟩

theorem columnEnd_column (plain : Plain text) (reads : Grammar.column.Reads text nodes rest) :
    columnEnd text = columnEnd rest := by
  have kept : Plain rest ∧ columnEnd text = columnEnd rest := by
    refine Grammar.Reads.invariant (P := fun place => Plain place ∧ columnEnd text = columnEnd place)
      column_madeOf_pieces ⟨plain, rfl⟩ ?_ reads
    intro part place hpiece hplace nodes rest reads
    exact ⟨hplace.1.reads reads, hplace.2.trans (columnEnd_piece hpiece hplace.1 reads)⟩
  exact kept.2

end DdlModels.Sql
