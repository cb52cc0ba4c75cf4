import DdlModels.Sql.Reply
import DdlModels.Text.Excerpt
import DdlModels.Text.LetterCase
import DdlModels.Text.CharClass

/-!
# Lexemes

The smallest pieces of a script: symbols, words, quoted texts, and what stands between them. Every
lexeme that is read takes at least one character.
-/

namespace DdlModels.Sql

open Text

def readSymbol (c : Char) : List Char → Reply
  | [] => .miss [([], .char c)]
  | d :: rest => if d == c then .ok [] [d] rest else .miss [(d :: rest, .char c)]

/-- Reads the longest run of characters of a class, at least one. -/
def readRun (kind : ErrorKind) (member : Char → Bool) (text : List Char) : Reply :=
  if (text.takeWhile member).isEmpty then .miss [(text, kind)]
  else .ok [] (text.takeWhile member) (text.dropWhile member)

/-- Whether two texts agree up to letter case as far as both of them go. -/
def agree : List Char → List Char → Bool
  | a :: as, b :: bs => lowerChar a == lowerChar b && agree as bs
  | _, _ => true

/-- Whether a word goes on at the beginning of a text. -/
def continuesWord : List Char → Bool
  | [] => false
  | c :: _ => isWordChar c

/-- Reads a keyword. The text has to agree with it up to letter case and to fill as many bytes, and
the word may not go on after it. -/
def readKeyword (keyword : List Char) (text : List Char) : Reply :=
  if agree text keyword then
    match splitBytes? (byteSize keyword) text with
    | some (taken, rest) => if continuesWord rest then .miss [(rest, .not)] else .ok [] taken rest
    | none => .miss [(text, .tag)]
  else .miss [(text, .tag)]

/-- Reads a whole word that is one of the given ones up to the case of ASCII letters. -/
def readWordAmong (words : List String) (text : List Char) : Reply :=
  match readRun .takeWhile1 isWordChar text with
  | .ok nodes word rest =>
    if words.any fun candidate => candidate.toList == word.map Char.toUpper then
      .ok nodes word rest
    else .miss [(text, .tag)]
  | reply => reply

/-- Whether a backslash hides the character after it. Between backquotes it does not. -/
def escapes (quote : Char) : Bool := quote != '\x60'

/-- Reads up to the closing quote. Two quotes in a row do not close. -/
def readToClose (quote : Char) : List Char → Reply
  | [] => .miss [([], .char quote)]
  | [c] =>
    if c == quote then .ok [] [c] []
    else if escapes quote && c == '\\' then .miss [([c], .char quote)]
    else .miss [([], .char quote)]
  | c :: d :: rest =>
    if escapes quote && c == '\\' || c == quote && d == quote then
      (readToClose quote rest).after [] [c, d]
    else if c == quote then .ok [] [c] (d :: rest)
    else (readToClose quote (d :: rest)).after [] [c]

def readQuoted (quote : Char) : List Char → Reply
  | [] => .miss [([], .char quote)]
  | c :: rest =>
    if c == quote then (readToClose quote rest).after [] [c] else .miss [(c :: rest, .char quote)]

/-- Whether a character ends a line, alone or with another. -/
def breaksLine (c : Char) : Bool := c == '\n' || c == '\x0d'

/-- Whether a line ends here: at the end of the text, or before a line feed that may have a carriage
return before it. -/
def atLineEnd : List Char → Bool
  | [] => true
  | ['\x0d'] => false
  | '\x0d' :: c :: _ => c == '\n'
  | _ => true

/-- Reads the rest of a line, which may not hold a carriage return of its own. -/
def readToLineEnd (text : List Char) : Reply :=
  if atLineEnd (text.dropWhile (!breaksLine ·)) then
    .ok [] (text.takeWhile (!breaksLine ·)) (text.dropWhile (!breaksLine ·))
  else .miss [(text, .tag)]

/-- Reads a comment that runs to the end of its line. -/
def readLineComment : List Char → Reply
  | '-' :: '-' :: rest => (readToLineEnd rest).after [] ['-', '-']
  | '#' :: rest => (readToLineEnd rest).after [] ['#']
  | text => .miss [(text, .tag), (text, .alt)]

/-- Reads up to the end of a block comment that begins at `start`. -/
def readToCommentClose (start : List Char) : List Char → Reply
  | [] => .miss [(start, .takeUntil)]
  | '*' :: '/' :: rest => .ok [] ['*', '/'] rest
  | c :: rest => (readToCommentClose start rest).after [] [c]

def readBlockComment : List Char → Reply
  | '/' :: '*' :: rest => (readToCommentClose rest rest).after [] ['/', '*']
  | text => .miss [(text, .tag)]

def isSpace (c : Char) : Bool := c == ' ' || c == '\t' || c == '\n' || c == '\x0d'

/-- A smallest piece of a script. -/
inductive Lexeme where
  /-- One character. -/
  | symbol (c : Char)
  /-- A keyword in any case, which is not part of a longer word. -/
  | keyword (name : String)
  /-- A whole word that is one of these, in any case. -/
  | wordAmong (words : List String)
  /-- A word. -/
  | word
  /-- Decimal digits. -/
  | digits
  /-- White space. -/
  | spaces
  /-- A comment to the end of its line. -/
  | lineComment
  /-- A comment with a closing mark. -/
  | blockComment
  /-- A text in quotes. -/
  | quoted (quote : Char)
  /-- Characters other than these. -/
  | run (stops : List Char)

namespace Lexeme

def read : Lexeme → List Char → Reply
  | symbol c, text => readSymbol c text
  | keyword name, text => readKeyword name.toList text
  | wordAmong words, text => readWordAmong words text
  | word, text => readRun .takeWhile1 isWordChar text
  | digits, text => readRun .digit Char.isDigit text
  | spaces, text => readRun .multiSpace isSpace text
  | lineComment, text => readLineComment text
  | blockComment, text => readBlockComment text
  | quoted quote, text => readQuoted quote text
  | run stops, text => readRun .isNot (fun c => !stops.contains c) text

end Lexeme

theorem readSymbol_splits (c : Char) (text : List Char) : (readSymbol c text).Splits text := by
  fun_cases readSymbol c text with
  | case1 | case3 => trivial
  | case2 d rest => rfl

theorem readRun_splits (kind : ErrorKind) (member : Char → Bool) (text : List Char) :
    (readRun kind member text).Splits text := by
  fun_cases readRun kind member text with
  | case1 => trivial
  | case2 => exact List.takeWhile_append_dropWhile.symm

theorem readKeyword_splits (keyword text : List Char) : (readKeyword keyword text).Splits text := by
  fun_cases readKeyword keyword text with
  | case2 _ taken rest found => exact splitBytes?_append found
  | _ => trivial

theorem readWordAmong_splits (words : List String) (text : List Char) :
    (readWordAmong words text).Splits text := by
  have h := readRun_splits .takeWhile1 isWordChar text
  fun_cases readWordAmong words text with
  | case1 nodes word rest read => rwa [read] at h
  | case2 => trivial
  | case3 => exact h

theorem readToClose_splits (quote : Char) (text : List Char) :
    (readToClose quote text).Splits text := by
  fun_induction readToClose quote text with
  | case1 | case3 | case4 => trivial
  | case2 | case6 => simp [Reply.Splits, Reply.Holds, Reply.Obeys]
  | case5 c d rest _ ih => exact ih.after []
  | case7 c d rest _ _ ih => exact ih.after []

theorem readQuoted_splits (quote : Char) (text : List Char) :
    (readQuoted quote text).Splits text := by
  fun_cases readQuoted quote text with
  | case1 | case3 => trivial
  | case2 c rest => exact (readToClose_splits quote rest).after []

theorem readToLineEnd_splits (text : List Char) : (readToLineEnd text).Splits text := by
  fun_cases readToLineEnd text with
  | case1 => exact List.takeWhile_append_dropWhile.symm
  | case2 => trivial

theorem readLineComment_splits (text : List Char) : (readLineComment text).Splits text := by
  fun_cases readLineComment text with
  | case1 | case2 => exact (readToLineEnd_splits _).after []
  | case3 => trivial

theorem readToCommentClose_splits (start text : List Char) :
    (readToCommentClose start text).Splits text := by
  fun_induction readToCommentClose start text with
  | case1 => trivial
  | case2 rest => rfl
  | case3 c rest _ ih => exact ih.after []

theorem readBlockComment_splits (text : List Char) : (readBlockComment text).Splits text := by
  fun_cases readBlockComment text with
  | case1 => exact (readToCommentClose_splits _ _).after []
  | case2 => trivial

namespace Lexeme

theorem read_splits (lexeme : Lexeme) (text : List Char) : (lexeme.read text).Splits text := by
  cases lexeme with
  | symbol c => exact readSymbol_splits _ _
  | keyword name => exact readKeyword_splits _ _
  | wordAmong words => exact readWordAmong_splits _ _
  | word | digits | spaces | run => exact readRun_splits _ _ _
  | lineComment => exact readLineComment_splits _
  | blockComment => exact readBlockComment_splits _
  | quoted quote => exact readQuoted_splits _ _

end Lexeme

theorem readSymbol_advances (c : Char) (text : List Char) : (readSymbol c text).Advances := by
  fun_cases readSymbol c text <;> simp [Reply.Advances, Reply.Holds, Reply.Obeys]

theorem readRun_advances (kind : ErrorKind) (member : Char → Bool) (text : List Char) :
    (readRun kind member text).Advances := by
  fun_cases readRun kind member text with
  | case1 => trivial
  | case2 h => simpa [Reply.Advances, Reply.Holds, Reply.Obeys] using h

theorem readKeyword_advances {keyword : List Char} (h : keyword ≠ []) (text : List Char) :
    (readKeyword keyword text).Advances := by
  fun_cases readKeyword keyword text with
  | case2 _ taken rest found =>
    refine ne_nil_of_splitBytes? found ?_
    cases keyword with
    | nil => contradiction
    | cons c keyword => exact Nat.add_pos_left c.utf8Size_pos _
  | _ => trivial

theorem readWordAmong_advances (words : List String) (text : List Char) :
    (readWordAmong words text).Advances := by
  have h := readRun_advances .takeWhile1 isWordChar text
  fun_cases readWordAmong words text with
  | case1 nodes word rest read => rwa [read] at h
  | case2 => trivial
  | case3 => exact h

theorem readLineComment_advances (text : List Char) : (readLineComment text).Advances := by
  fun_cases readLineComment text with
  | case1 | case2 => exact .after (.inl (List.cons_ne_nil _ _)) []
  | case3 => trivial

theorem readBlockComment_advances (text : List Char) : (readBlockComment text).Advances := by
  fun_cases readBlockComment text with
  | case1 => exact .after (.inl (List.cons_ne_nil _ _)) []
  | case2 => trivial

theorem readQuoted_advances (quote : Char) (text : List Char) :
    (readQuoted quote text).Advances := by
  fun_cases readQuoted quote text with
  | case2 => exact .after (.inl (List.cons_ne_nil _ _)) []
  | case1 | case3 => trivial

namespace Lexeme

/-- Whether the lexeme is sure to take something, which only an empty keyword is not. -/
def advances : Lexeme → Bool
  | keyword name => !name.toList.isEmpty
  | _ => true

theorem read_advances {lexeme : Lexeme} (h : lexeme.advances) (text : List Char) :
    (lexeme.read text).Advances := by
  cases lexeme with
  | symbol c => exact readSymbol_advances _ _
  | keyword name => exact readKeyword_advances (by simpa [advances] using h) _
  | wordAmong words => exact readWordAmong_advances _ _
  | word | digits | spaces | run => exact readRun_advances _ _ _
  | lineComment => exact readLineComment_advances _
  | blockComment => exact readBlockComment_advances _
  | quoted quote => exact readQuoted_advances _ _

end Lexeme

end DdlModels.Sql
