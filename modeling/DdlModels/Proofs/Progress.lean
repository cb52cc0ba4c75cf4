import DdlModels.Proofs.ColumnEnds
import DdlModels.Proofs.Swapping

/-!
# Progress

Whatever is read again and again takes something at every turn, so that no repetition is refused for a turn that
took nothing. Every step through a script shortens what is left of it, so that a script has no more steps than
characters.
-/

namespace DdlModels.Sql

namespace Grammar

/-- The parts of a grammar that are read again and again. -/
def repeated : Grammar → List Grammar
  | .lexeme _ | .group => []
  | .many part => part :: part.repeated
  | .optional part | .cut part | .context _ part | .leaf _ part | .trimmedLeaf _ part => part.repeated
  | .seq first second | .choice first second | .butNot first second | .branch _ first second =>
    first.repeated ++ second.repeated

/-- What is read again and again in the statement of a table, which ends like any other statement, and in a group.
A further definition is read in two parts. -/
def loops : List Grammar :=
  tableStatement.repeated ++ groupBody.repeated ++ [blanks ++ symbol ',', blanks ++ definition]

theorem loops_advance : ∀ part ∈ loops, part.advances := by decide +kernel

example : blank ∈ loops ∧ symbol '.' ++ identifier ∈ loops ∧ blanks ++ typeModifier ∈ loops ∧
    blanks ++ columnAttribute ∈ loops ∧ blanks ++ referenceAction ∈ loops := by
  decide +kernel

theorem many_not_misses {part : Grammar} (h : part.advances) (text : List Char) : ¬ (many part).Misses text :=
  sure_not_misses (show (many part).sure from h)

end Grammar

/-- Whether a character stands for itself inside of quotes. -/
def isPlainIn (quote c : Char) : Bool := c != quote && !(escapes quote && c == '\\')

def readPair (quote : Char) : List Char → Reply
  | c :: d :: rest =>
    if escapes quote && c == '\\' || c == quote && d == quote then .ok [] [c, d] rest
    else .miss [(c :: d :: rest, .alt)]
  | text => .miss [(text, .alt)]

/-- Reads a piece of the inside of quotes: plain characters, or a character that a backslash hides, or a doubled
quote. -/
def readInside (quote : Char) (text : List Char) : Reply :=
  (readRun .takeWhile1 (isPlainIn quote) text).orElse fun _ => readPair quote text

variable {quote c : Char} {text : List Char}

theorem readPair_splits (quote : Char) (text : List Char) : (readPair quote text).Splits text := by
  fun_cases readPair quote text with
  | case1 => rfl
  | case2 | case3 => trivial

theorem readPair_advances (quote : Char) (text : List Char) : (readPair quote text).Advances := by
  fun_cases readPair quote text with
  | case1 => exact List.cons_ne_nil _ _
  | case2 | case3 => trivial

theorem readInside_splits (quote : Char) (text : List Char) : (readInside quote text).Splits text :=
  (readRun_splits _ _ text).orElse (readPair_splits quote text)

theorem readInside_advances (quote : Char) (text : List Char) : (readInside quote text).Advances :=
  (readRun_advances _ _ text).orElse (readPair_advances quote text)

theorem readInside_shortens {nodes : List Node} {taken rest : List Char}
    (found : readInside quote text = .ok nodes taken rest) : rest.length < text.length :=
  Reply.length_lt found (readInside_splits quote text) (readInside_advances quote text)

theorem readMany_turn {read : List Char → Reply} {nodes : List Node} {taken rest : List Char}
    (found : read text = .ok nodes taken rest) (shorter : rest.length < text.length) :
    readMany read text = (readMany read rest).after nodes taken := by
  rw [readMany, found]
  simp only [shorter, if_true]

theorem readMany_stop {read : List Char → Reply} {errors : Errors} (missed : read text = .miss errors) :
    readMany read text = .ok [] [] text := by
  rw [readMany, missed]

theorem readInside_pair {d : Char} {rest : List Char}
    (pair : (escapes quote && c == '\\' || c == quote && d == quote) = true) :
    readInside quote (c :: d :: rest) = .ok [] [c, d] rest := by
  have special : isPlainIn quote c = false := by
    simp only [Bool.or_eq_true, Bool.and_eq_true, beq_iff_eq] at pair
    rcases pair with ⟨hides, rfl⟩ | ⟨rfl, -⟩
    · simp [isPlainIn, hides]
    · simp [isPlainIn]
  simp [readInside, readRun, special, Reply.orElse, readPair, pair]

theorem isPlainIn_of (other : ¬ (c == quote) = true) (bare : (escapes quote && c == '\\') = false) :
    isPlainIn quote c := by
  rw [isPlainIn, bare]
  simpa using other

theorem readMany_plain (plain : isPlainIn quote c) (text : List Char) :
    readMany (readInside quote) (c :: text) = (readMany (readInside quote) text).after [] [c] := by
  have first : readInside quote (c :: text) =
      .ok [] (c :: text.takeWhile (isPlainIn quote)) (text.dropWhile (isPlainIn quote)) := by
    simp [readInside, readRun, plain, Reply.orElse]
  rw [readMany_turn first (readInside_shortens first)]
  -- a run that goes on is one piece with the character, and was the first piece of the rest
  by_cases alone : (text.takeWhile (isPlainIn quote)).isEmpty
  · have stays := List.takeWhile_append_dropWhile (p := isPlainIn quote) (l := text)
    rw [List.isEmpty_iff.mp alone, List.nil_append] at stays
    rw [stays, List.isEmpty_iff.mp alone]
  · have next : readInside quote text =
        .ok [] (text.takeWhile (isPlainIn quote)) (text.dropWhile (isPlainIn quote)) := by
      simp only [readInside, readRun, alone]
      rfl
    rw [readMany_turn next (readInside_shortens next)]
    cases readMany (readInside quote) (text.dropWhile (isPlainIn quote)) <;> rfl

theorem readMany_symbol {rest : List Char} {errors : Errors} (special : isPlainIn quote c = false)
    (alone : readPair quote (c :: rest) = .miss errors) :
    (readMany (readInside quote) (c :: rest)).andThen (readSymbol quote) = readSymbol quote (c :: rest) := by
  have missed : readInside quote (c :: rest) = .miss errors := by
    simp [readInside, readRun, special, Reply.orElse, alone]
  rw [readMany_stop missed]
  simp only [Reply.andThen]
  cases readSymbol quote (c :: rest) <;> rfl

theorem readToClose_eq (quote : Char) (text : List Char) :
    readToClose quote text = (readMany (readInside quote) text).andThen (readSymbol quote) := by
  have end_of_text : (readMany (readInside quote) []).andThen (readSymbol quote) = .miss [([], .char quote)] := by
    have missed : readInside quote [] = .miss [([], .alt)] := rfl
    rw [readMany_stop missed]
    rfl
  fun_induction readToClose quote text with
  | case1 => exact end_of_text.symm
  | case2 c same =>
    obtain rfl := beq_iff_eq.mp same
    rw [readMany_symbol (by simp [isPlainIn]) rfl]
    simp [readSymbol]
  | case3 c other escape =>
    rw [readMany_symbol (by simp [isPlainIn, escape]) rfl]
    simp [readSymbol, other]
  | case4 c other bare =>
    rw [readMany_plain (isPlainIn_of other (by simpa using bare)), Reply.after_andThen, end_of_text]
    rfl
  | case5 c d more pair ih =>
    rw [readMany_turn (readInside_pair pair) (by simp only [List.length_cons]; omega), Reply.after_andThen, ih]
  | case6 c d more pair same =>
    obtain rfl := beq_iff_eq.mp same
    rw [readMany_symbol (by simp [isPlainIn]) (by rw [readPair, if_neg pair])]
    simp [readSymbol]
  | case7 c d more pair other ih =>
    simp only [Bool.not_eq_true, Bool.or_eq_false_iff] at pair
    rw [readMany_plain (isPlainIn_of other pair.1), Reply.after_andThen, ih]

namespace Script

/-- Reads statements in at most that many steps. -/
def readWithin : Nat → List Char → Option Script
  | 0, _ => none
  | steps + 1, text =>
    match next text with
    | .ended => some {}
    | .separator rest => readWithin steps rest
    | .statement statement rest => (readWithin steps rest).map (cons statement)
    | .halted fault => some (halted fault)

/-- A script has no more steps than characters, but for the last one. -/
theorem readWithin_eq {steps : Nat} (enough : text.length < steps) : readWithin steps text = some (readFrom text) := by
  induction steps generalizing text with
  | zero => omega
  | succ steps ih =>
    rw [readWithin, readFrom_eq]
    cases found : next text with
    | ended | halted => rfl
    | separator rest =>
      have shorter : rest.length < text.length := next_rest_length_lt (by rw [found]; rfl)
      exact ih (by omega)
    | statement statement rest =>
      have shorter : rest.length < text.length := next_rest_length_lt (by rw [found]; rfl)
      simp only
      rw [ih (by omega)]
      rfl

end Script

open Grammar Script

theorem blanks_leave_none (text : List Char) :
    ∃ rest, blanks.Reads text [] rest ∧ (∀ c ∈ rest.head?, isSpace c = false) ∧ (lexeme .lineComment).Misses rest ∧
      (lexeme .blockComment).Misses rest ∧ blanks.read rest = .ok [] [] rest := by
  obtain ⟨reads, visible⟩ := blanks_read text
  obtain ⟨spaces, comments⟩ := visible.of_choice
  have again : blanks.Reads ([] ++ skipBlanks text) [] (skipBlanks text) := Misses.many visible
  exact ⟨skipBlanks text, reads, readRun_misses_iff.mp spaces, comments.of_choice.1, comments.of_choice.2,
    again.read_eq⟩

/-- Every loop of the reader makes progress. -/
theorem every_loop_progresses (text : List Char) :
    (∀ part ∈ loops, (part.read text).Advances ∧ ¬ (many part).Misses text) ∧
    (∀ quote, readToClose quote text = (readMany (readInside quote) text).andThen (readSymbol quote) ∧
      (readInside quote text).Advances ∧ ∀ errors, readMany (readInside quote) text ≠ .miss errors) ∧
    (∃ rest, blanks.Reads text [] rest ∧ (∀ c ∈ rest.head?, isSpace c = false) ∧ (lexeme .lineComment).Misses rest ∧
      (lexeme .blockComment).Misses rest ∧ blanks.read rest = .ok [] [] rest) ∧
    (∃ rest, definitionTail.Reads text [] rest) ∧
    (∃ rest, statementTail.Reads text [] rest) ∧
    (∀ rest, (next text).rest? = some rest → rest.length < text.length) ∧
    ∀ steps, text.length < steps → (readWithin steps text).map (·.tree text) = some (parse (String.ofList text)) := by
  refine ⟨?_, ?_, blanks_leave_none text, ⟨_, definitionTail_reads text⟩, ⟨_, statementTail_reads text⟩,
    fun _ => next_rest_length_lt, ?_⟩
  · intro part mem
    have advances := loops_advance part mem
    exact ⟨read_advances advances text, many_not_misses advances text⟩
  · intro quote
    exact ⟨readToClose_eq quote text, readInside_advances quote text, readMany_not_miss readInside_shortens text⟩
  · intro steps enough
    rw [readWithin_eq enough, parse, readScript, String.toList_ofList]
    rfl

end DdlModels.Sql
