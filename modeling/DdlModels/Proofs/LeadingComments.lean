import DdlModels.Proofs.PassedOver

/-!
# Comments in front of a script

A comment in front of a script changes nothing but the places of errors. The exception is a line comment
with a carriage return inside of its line: that is no comment to the reader but the beginning of a
statement, which goes on up to the next semicolon.
-/

namespace DdlModels.Sql

open Script Grammar Text

/-- A comment. -/
inductive Comment where
  /-- A mark, the rest of its line and the line feed. -/
  | line (mark body : List Char) (marks : mark ∈ [['-', '-'], ['#']]) (inLine : '\n' ∉ body)
  /-- A text between an opening and a closing mark. -/
  | block (body : List Char) (inside : ¬ ['*', '/'] <:+: body)

namespace Comment

def text : Comment → List Char
  | line mark body .. => mark ++ (body ++ ['\n'])
  | block body _ => '/' :: '*' :: (body ++ ['*', '/'])

/-- Whether a carriage return stands in the line elsewhere than directly before its line feed. -/
def breaks : Comment → Bool
  | line _ body .. => body.dropLast.contains '\x0d'
  | block .. => false

end Comment

variable {body inner mark rest : List Char}

private theorem split_at_return (body : List Char) : ∃ inner tail, body = inner ++ tail ∧ '\x0d' ∉ inner ∧
    ∀ c ∈ tail.head?, c = '\x0d' := by
  refine ⟨body.takeWhile (· != '\x0d'), body.dropWhile (· != '\x0d'),
    List.takeWhile_append_dropWhile.symm, ?_, ?_⟩
  · intro inside
    simpa using List.mem_takeWhile_imp inside
  · intro c hc
    have stop := List.head?_dropWhile_not (· != '\x0d') body
    rw [show (body.dropWhile (· != '\x0d')).head? = some c from hc] at stop
    simpa using stop

/-- A line is read to its end unless it breaks inside, and blanks go on after it. -/
theorem readToLineEnd_line (inLine : '\n' ∉ body) (rest : List Char) :
    if body.dropLast.contains '\x0d' then ∃ left, readToLineEnd (body ++ '\n' :: rest) = .miss left
    else ∃ taken left, readToLineEnd (body ++ '\n' :: rest) = .ok [] taken left ∧
      skipBlanks left = skipBlanks rest := by
  obtain ⟨inner, tail, rfl, noReturn, start⟩ := split_at_return body
  have plain : ∀ c ∈ inner, breaksLine c = false := by
    intro c hc
    have feed : c ≠ '\n' := fun same => inLine (List.mem_append_left tail (same ▸ hc))
    have carriage : c ≠ '\x0d' := fun same => noReturn (same ▸ hc)
    simp [breaksLine, feed, carriage]
  match tail with
  | [] =>
    have sound : (inner ++ []).dropLast.contains '\x0d' = false := by
      simpa using fun inside => noReturn (List.dropLast_subset inner inside)
    rw [if_neg (by rw [sound]; decide), List.append_nil, readToLineEnd_body plain (by rintro c ⟨⟩; rfl)]
    exact ⟨inner, '\n' :: rest, rfl, skipBlanks_space rfl rest⟩
  | [c] =>
    obtain rfl := start c rfl
    have sound : (inner ++ ['\x0d']).dropLast.contains '\x0d' = false := by
      simpa using noReturn
    rw [if_neg (by rw [sound]; decide), List.append_assoc,
      readToLineEnd_body plain (by rintro c ⟨⟩; rfl)]
    exact ⟨inner, '\x0d' :: '\n' :: rest, rfl, by rw [skipBlanks_space rfl, skipBlanks_space rfl]⟩
  | c :: d :: tail =>
    obtain rfl := start c rfl
    have broken : (inner ++ '\x0d' :: d :: tail).dropLast.contains '\x0d' := by
      simp [List.dropLast_append_of_ne_nil]
    have other : (d == '\n') = false := by
      simp only [beq_eq_false_iff_ne]
      rintro rfl
      exact inLine (by simp)
    rw [if_pos broken, List.append_assoc, readToLineEnd_body plain (by rintro c ⟨⟩; rfl)]
    refine ⟨[(inner ++ ('\x0d' :: d :: tail ++ '\n' :: rest), .tag)], if_neg ?_⟩
    simp [atLineEnd, other]

variable {c : Char}

theorem blocked_at_mark (hc : c ∈ ['-', '#']) :
    (Grammar.lexeme .spaces).blocked (refusedAt c) ∧ (Grammar.lexeme .blockComment).blocked (refusedAt c) ∧
      tableStatement.blocked (refusedAt c) ∧ c ∉ statementStops := by
  simp only [List.mem_cons, List.not_mem_nil, or_false] at hc
  rcases hc with rfl | rfl <;> decide

namespace Comment

variable (comment : Comment)

theorem skipBlanks_text (sound : comment.breaks = false) (rest : List Char) :
    skipBlanks (comment.text ++ rest) = skipBlanks rest := by
  cases comment with
  | line mark body marks inLine =>
    have line := readToLineEnd_line inLine rest
    rw [show body.dropLast.contains '\x0d' = false from sound, if_neg (by decide)] at line
    obtain ⟨taken, left, found, skips⟩ := line
    have whole : (line mark body marks inLine).text ++ rest = mark ++ (body ++ '\n' :: rest) := by simp [text]
    rw [whole, ← skips]
    exact skipBlanks_of_blank (lineComment_reads marks found)
  | block body inside =>
    have turn := blockComment_reads inside rest
    have whole : (block body inside).text ++ rest = '/' :: '*' :: (body ++ '*' :: '/' :: rest) := by simp [text]
    rw [whole]
    exact skipBlanks_of_blank turn

/-- A comment whose line breaks is passed over as a statement, with everything up to where that ends. -/
theorem next_text (broken : comment.breaks) (rest : List Char) :
    ∃ taken, next (comment.text ++ rest) =
      .statement (.skipped taken) (scan Leap.literals statementStops (comment.text ++ rest)) := by
  cases comment with
  | line mark body marks inLine =>
    have line := readToLineEnd_line inLine rest
    rw [if_pos (show body.dropLast.contains '\x0d' from broken)] at line
    obtain ⟨left, missed⟩ := line
    have whole : (line mark body marks inLine).text ++ rest = mark ++ (body ++ '\n' :: rest) := by simp [text]
    have lineMissed : (Grammar.lexeme .lineComment).Misses (mark ++ (body ++ '\n' :: rest)) := by
      refine ⟨left, ?_⟩
      change readLineComment _ = _
      rw [readLineComment_mark marks, missed]
      rfl
    obtain ⟨c, more, rfl, hc⟩ := mark_head marks
    obtain ⟨spaces, block, table, plain⟩ := blocked_at_mark hc
    have start := refuses_at c (more ++ (body ++ '\n' :: rest))
    rw [whole]
    have visible : blank.Misses (c :: more ++ (body ++ '\n' :: rest)) :=
      (misses_of_blocked start spaces).choice (lineMissed.choice (misses_of_blocked start block))
    exact next_of_plain plain (skipBlanks_of_visible visible) (misses_of_blocked start table)
  | block => contradiction

theorem foregoing (sound : comment.breaks = false) : Foregoing comment.text [] := by
  intro rest
  have same : Script.next (comment.text ++ rest) = Script.next rest := by
    rw [Script.next, Script.next, comment.skipBlanks_text sound]
  rw [readFrom_eq, same, ← readFrom_eq]
  exact ⟨rfl, rfl⟩

end Comment

/-- What is left of a script after a statement that is passed over. -/
def pastStatement (script : String) : String :=
  String.ofList (scan Leap.literals statementStops script.toList)

/-- A comment in front of a script changes nothing, unless its line breaks: then the script goes on only
where the statement that it seems to begin has come to its end. -/
theorem parse_after_comment (comment : Comment) (source : String) :
    let script := String.ofList comment.text ++ source
    parse script =
      if comment.breaks then
        (parse (pastStatement script)).mapError
          (·.later (byteSize script.toList - byteSize (pastStatement script).toList))
      else (parse source).mapError (·.later (byteSize comment.text)) := by
  intro script
  have chars : script.toList = comment.text ++ source.toList := by simp [script]
  split
  case isTrue broken =>
    have left : (pastStatement script).toList = scan Leap.literals statementStops script.toList :=
      String.toList_ofList
    obtain ⟨before, split⟩ := (statementTail_reads script.toList).splits
    obtain ⟨taken, step⟩ := comment.next_text broken source.toList
    rw [← chars, ← left] at step
    obtain ⟨tables, fault⟩ := readFrom_of_skipped step
    rw [← left] at split
    exact parse_of_readFrom ⟨before, split.symm⟩ tables fault
  case isFalse sound => exact (comment.foregoing (by simpa using sound)).parse chars

/-- With a carriage return in its line, a comment takes the table after it along. -/
theorem table_swallowed_after_carriage_return :
    let comment := Comment.line ['#'] [' ', 'a', '\x0d', 'b'] (by decide) (by decide)
    parse (String.ofList comment.text ++ "CREATE TABLE t (a INT);") = .ok ⟨.root, "", []⟩ ∧
      ∃ table, parse "CREATE TABLE t (a INT);" = .ok ⟨.root, "", [table]⟩ := by
  intro comment
  constructor
  · have none : (readScript (String.ofList comment.text ++ "CREATE TABLE t (a INT);")).tables = [] :=
      List.length_eq_zero_iff.mp (by decide +kernel)
    exact tree_eq_ok.mpr ⟨by decide +kernel, by rw [← none]⟩
  · obtain ⟨table, one⟩ : ∃ table, (readScript "CREATE TABLE t (a INT);").tables = [table] :=
      List.length_eq_one_iff.mp (by decide +kernel)
    exact ⟨table, tree_eq_ok.mpr ⟨by decide +kernel, by rw [← one]⟩⟩

end DdlModels.Sql
