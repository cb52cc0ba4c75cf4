import Mathlib.Data.List.Induction
import DdlModels.Proofs.Simulation
import DdlModels.Proofs.Words

/-!
# Line endings

A line ends with a line feed, or with a carriage return before it. No lexeme of the grammar tells the one from the
other: what is read, what is left and what is refused of a text with carriage returns before its line feeds is what
it is of the text without them, with the carriage returns added (`Lexeme.read_crlf`).
-/

namespace DdlModels

open Text

namespace Text

/-- What stands for a character where lines end with a carriage return and a line feed. -/
def lineEnding (c : Char) : List Char := if c = '\n' then ['\x0d', '\n'] else [c]

/-- The text with a carriage return before every line feed. -/
def crlf (text : List Char) : List Char := text.flatMap lineEnding

def withReturns (text : String) : String := String.ofList (crlf text.toList)

variable {member : Char → Bool} {text : List Char} {c : Char}

@[simp] theorem crlf_nil : crlf [] = [] := rfl

theorem crlf_line_feed (text : List Char) : crlf ('\n' :: text) = '\x0d' :: '\n' :: crlf text := rfl

theorem crlf_cons (plain : c ≠ '\n') (text : List Char) : crlf (c :: text) = c :: crlf text := by
  rw [crlf, List.flatMap_cons, lineEnding, if_neg plain]
  rfl

theorem crlf_append (first second : List Char) : crlf (first ++ second) = crlf first ++ crlf second :=
  List.flatMap_append

theorem crlf_of_no_line_feed (plain : '\n' ∉ text) : crlf text = text := by
  induction text with
  | nil => rfl
  | cons c text ih =>
    rw [crlf_cons (List.ne_of_not_mem_cons plain).symm, ih (List.not_mem_of_not_mem_cons plain)]

theorem lineEnding_ne_nil (c : Char) : lineEnding c ≠ [] := by
  rw [lineEnding]
  split <;> exact List.cons_ne_nil _ _

theorem crlf_eq_nil : crlf text = [] ↔ text = [] := by
  rw [crlf, List.flatMap_eq_nil_iff]
  constructor
  · intro none
    cases text with
    | nil => rfl
    | cons c text => exact absurd (none c List.mem_cons_self) (lineEnding_ne_nil c)
  · rintro rfl
    nofun

theorem isEmpty_crlf (text : List Char) : (crlf text).isEmpty = text.isEmpty := by
  rw [Bool.eq_iff_iff, List.isEmpty_iff, List.isEmpty_iff, crlf_eq_nil]

/-- A character that is no carriage return stands at the beginning of both texts or of none. -/
theorem crlf_eq_cons {more : List Char} (mark : c ≠ '\x0d') (h : crlf text = c :: more) :
    ∃ rest, text = c :: rest ∧ more = crlf rest := by
  cases text with
  | nil => contradiction
  | cons d rest =>
    by_cases feed : d = '\n'
    · subst feed
      rw [crlf_line_feed] at h
      exact absurd (List.cons.inj h).1.symm mark
    · rw [crlf_cons feed] at h
      obtain ⟨rfl, rfl⟩ := List.cons.inj h
      exact ⟨rest, rfl, rfl⟩

theorem takeWhile_crlf (alike : member '\x0d' = member '\n') (text : List Char) :
    (crlf text).takeWhile member = crlf (text.takeWhile member) ∧
      (crlf text).dropWhile member = crlf (text.dropWhile member) := by
  induction text with
  | nil => exact ⟨rfl, rfl⟩
  | cons c text ih =>
    by_cases feed : c = '\n'
    · subst feed
      rw [crlf_line_feed]
      cases ends : member '\n' with
      | false => simp [alike, ends, crlf, lineEnding]
      | true => simp [alike, ends, ih, crlf_line_feed]
    · rw [crlf_cons feed]
      cases inside : member c with
      | false => simp [inside, crlf_cons feed]
      | true => simp [inside, ih, crlf_cons feed]

theorem rdropWhile_crlf (alike : member '\x0d' = member '\n') (text : List Char) :
    ((crlf text).reverse.dropWhile member).reverse = crlf (text.reverse.dropWhile member).reverse := by
  induction text using List.reverseRecOn with
  | nil => rfl
  | append_singleton text c ih =>
    by_cases feed : c = '\n'
    · subst feed
      have split : crlf (text ++ ['\n']) = crlf text ++ ['\x0d', '\n'] := crlf_append text ['\n']
      cases ends : member '\n' with
      | false => simp [split, ends]
      | true => simp [split, alike, ends, ih]
    · have split : crlf (text ++ [c]) = crlf text ++ [c] := by rw [crlf_append, crlf_cons feed]; rfl
      cases inside : member c with
      | false => simp [split, inside]
      | true => simp [split, inside, ih]

theorem trim_crlf (text : List Char) : trim (crlf text) = crlf (trim text) := by
  have alike : isBlank '\x0d' = isBlank '\n' := rfl
  rw [trim, trimStart, (takeWhile_crlf alike text).2]
  exact rdropWhile_crlf alike _

theorem byteSize_crlf (text : List Char) : byteSize (crlf text) = byteSize text + text.count '\n' := by
  induction text with
  | nil => rfl
  | cons c text ih =>
    by_cases feed : c = '\n'
    · subst feed
      have feed : '\n'.utf8Size = 1 := rfl
      have back : '\x0d'.utf8Size = 1 := rfl
      rw [crlf_line_feed, byteSize, byteSize, byteSize, ih, List.count_cons_self, feed, back]
      omega
    · rw [crlf_cons feed, byteSize, byteSize, ih, List.count_cons_of_ne feed, Nat.add_assoc]

theorem firstLine_crlf (plain : '\x0d' ∉ text) : firstLine (crlf text) = firstLine text := by
  induction text with
  | nil => rfl
  | cons c text ih =>
    have apart := List.ne_of_not_mem_cons plain
    have later := List.not_mem_of_not_mem_cons plain
    by_cases feed : c = '\n'
    · subst feed
      rfl
    · have step (rest : List Char) : firstLine (c :: rest) = c :: firstLine rest := by
        rw [firstLine.eq_def]
        split <;> simp_all
      rw [crlf_cons feed, step, step, ih later]

theorem excerpt_crlf (plain : '\x0d' ∉ text) : excerpt (crlf text) = excerpt text := by
  have start : trimStart (crlf text) = crlf (trimStart text) := (takeWhile_crlf rfl text).2
  have still : '\x0d' ∉ trimStart text := fun inside => plain (List.dropWhile_sublist isBlank |>.subset inside)
  rw [excerpt, start, firstLine_crlf still, excerpt]

end Text

namespace Node

mutual
def withReturns : Node → Node
  | ⟨kind, text, children⟩ => ⟨kind, Text.withReturns text, withReturnsAll children⟩
def withReturnsAll : List Node → List Node
  | [] => []
  | node :: nodes => withReturns node :: withReturnsAll nodes
end

theorem withReturnsAll_eq_map (nodes : List Node) : withReturnsAll nodes = nodes.map withReturns := by
  induction nodes with
  | nil => rfl
  | cons node nodes ih => rw [withReturnsAll, ih, List.map_cons]

theorem withReturnsAll_append (first second : List Node) :
    withReturnsAll (first ++ second) = withReturnsAll first ++ withReturnsAll second := by
  simp only [withReturnsAll_eq_map, List.map_append]

end Node

namespace Sql

def Reply.withReturns : Reply → Reply
  | ok nodes taken rest => ok (Node.withReturnsAll nodes) (crlf taken) (crlf rest)
  | miss errors => miss (errors.move crlf)
  | fail failure => fail (failure.move crlf)

theorem Reply.withReturns_after (reply : Reply) (taken : List Char) :
    (reply.after [] taken).withReturns = reply.withReturns.after [] (crlf taken) := by
  cases reply with
  | ok nodes more rest => simp only [after, withReturns, List.nil_append, crlf_append]
  | miss | fail => rfl

theorem readSymbol_crlf {c : Char} (apart : c ≠ '\x0d') (plain : c ≠ '\n') (text : List Char) :
    readSymbol c (crlf text) = (readSymbol c text).withReturns := by
  cases text with
  | nil => rfl
  | cons d rest =>
    by_cases feed : d = '\n'
    · subst feed
      simp [crlf_line_feed, readSymbol, apart.symm, plain.symm, Reply.withReturns, Errors.move]
    · rw [crlf_cons feed, readSymbol, readSymbol]
      split
      · simp [Reply.withReturns, crlf_cons feed, Node.withReturnsAll]
      · simp [Reply.withReturns, crlf_cons feed, Errors.move]

theorem readRun_crlf {kind : ErrorKind} {member : Char → Bool} (alike : member '\x0d' = member '\n')
    (text : List Char) :
    readRun kind member (crlf text) = (readRun kind member text).withReturns := by
  have parts := takeWhile_crlf alike text
  rw [readRun, readRun, parts.1, parts.2, isEmpty_crlf]
  split <;> rfl

theorem readWordAmong_crlf (words : List String) (text : List Char) :
    readWordAmong words (crlf text) = (readWordAmong words text).withReturns := by
  have run : readRun .takeWhile1 isWordChar (crlf text) = (readRun .takeWhile1 isWordChar text).withReturns :=
    readRun_crlf rfl text
  rw [readWordAmong, readWordAmong, run]
  fun_cases readRun .takeWhile1 isWordChar text with
  | case1 => rfl
  | case2 some =>
    have plain : '\n' ∉ text.takeWhile isWordChar := fun inside =>
      absurd (List.mem_takeWhile_imp inside) (by decide)
    simp only [Reply.withReturns, crlf_of_no_line_feed plain]
    split <;> simp [crlf_of_no_line_feed plain, Node.withReturnsAll, Errors.move]

private theorem agree_of_ne {c k : Char} {text keyword : List Char} (other : lowerChar c ≠ lowerChar k) :
    agree (c :: text) (k :: keyword) = false := by
  simp [agree, other]

/-- A line feed agrees with no keyword, and a carriage return with none either. -/
private theorem agree_crlf {keyword : List Char} (chars : ∀ k ∈ keyword, isKeywordChar k) (text : List Char) :
    agree (crlf text) keyword = agree text keyword := by
  induction keyword generalizing text with
  | nil => cases text <;> cases crlf _ <;> rfl
  | cons k keyword ih =>
    have hk := chars k List.mem_cons_self
    cases text with
    | nil => rfl
    | cons c text =>
      by_cases feed : c = '\n'
      · subst feed
        have feed := lowerChar_ne_of_not_word (c := '\n') (by decide) (by decide) hk
        have back := lowerChar_ne_of_not_word (c := '\x0d') (by decide) (by decide) hk
        rw [crlf_line_feed, agree_of_ne feed, agree_of_ne back]
      · rw [crlf_cons feed, agree, agree, ih fun d inside => chars d (List.mem_cons_of_mem k inside)]

private theorem splitBytes?_crlf {keyword text : List Char} {count : Nat} (chars : ∀ k ∈ keyword, isKeywordChar k)
    (agrees : agree text keyword) (fits : count ≤ keyword.length) :
    splitBytes? count (crlf text) = (splitBytes? count text).map (Prod.map crlf crlf) := by
  induction text generalizing keyword count with
  | nil => cases count <;> rfl
  | cons c text ih =>
    cases count with
    | zero => simp [splitBytes?, crlf]
    | succ count =>
      cases keyword with
      | nil => simp at fits
      | cons k keyword =>
        simp only [agree, Bool.and_eq_true, beq_iff_eq] at agrees
        have plain : c ≠ '\n' := by
          rintro rfl
          exact lowerChar_ne_of_not_word (by decide) (by decide) (chars k List.mem_cons_self) agrees.1
        have less : count + 1 - c.utf8Size ≤ keyword.length := by
          have := c.utf8Size_pos
          simp only [List.length_cons] at fits
          omega
        have later := ih (fun d inside => chars d (List.mem_cons_of_mem k inside)) agrees.2 less
        rw [crlf_cons plain, splitBytes?, splitBytes?, later]
        cases splitBytes? (count + 1 - c.utf8Size) text with
        | none => rfl
        | some split => simp [crlf_cons plain]

theorem byteSize_of_keywordChars {keyword : List Char} (chars : ∀ k ∈ keyword, isKeywordChar k) :
    byteSize keyword = keyword.length := by
  induction keyword with
  | nil => rfl
  | cons k keyword ih =>
    rw [byteSize, ih fun d inside => chars d (List.mem_cons_of_mem k inside),
      utf8Size_of_ascii (keywordChar_ascii (chars k List.mem_cons_self)), List.length_cons, Nat.add_comm]

theorem readKeyword_crlf {keyword : List Char} (chars : ∀ k ∈ keyword, isKeywordChar k) (text : List Char) :
    readKeyword keyword (crlf text) = (readKeyword keyword text).withReturns := by
  have ends (rest : List Char) : continuesWord (crlf rest) = continuesWord rest := by
    cases rest with
    | nil => rfl
    | cons c rest =>
      by_cases feed : c = '\n'
      · subst feed
        rfl
      · rw [crlf_cons feed]
        rfl
  rw [readKeyword, readKeyword, agree_crlf chars]
  cases agrees : agree text keyword with
  | false => rfl
  | true =>
    rw [splitBytes?_crlf chars agrees (byteSize_of_keywordChars chars).le]
    cases splitBytes? (byteSize keyword) text with
    | none => rfl
    | some split =>
      simp only [if_true, Option.map_some, Prod.map, ends]
      split <;> rfl

theorem readToClose_plain {quote c : Char} (other : c ≠ quote) (shown : (escapes quote && c == '\\') = false)
    (text : List Char) : readToClose quote (c :: text) = (readToClose quote text).after [] [c] := by
  cases text with
  | nil => simp [readToClose, other, shown, Reply.after]
  | cons d text => simp [readToClose, other, shown]

private theorem readToClose_crlf_plain {quote c : Char} (apart : quote ≠ '\x0d') (plain : quote ≠ '\n')
    (other : c ≠ quote) (shown : (escapes quote && c == '\\') = false) (text : List Char) :
    readToClose quote (crlf (c :: text)) = (readToClose quote (crlf text)).after [] (crlf [c]) := by
  by_cases feed : c = '\n'
  · subst feed
    rw [crlf_line_feed, readToClose_plain apart.symm (by simp), readToClose_plain plain.symm (by simp)]
    cases readToClose quote (crlf text) <;> rfl
  · rw [crlf_cons feed, readToClose_plain other shown, crlf_cons feed, crlf_nil]

theorem readToClose_crlf {quote : Char} (apart : quote ≠ '\x0d') (plain : quote ≠ '\n') (text : List Char) :
    readToClose quote (crlf text) = (readToClose quote text).withReturns := by
  fun_induction readToClose quote text with
  | case1 => rfl
  | case2 c closed =>
    obtain rfl := beq_iff_eq.mp closed
    simp [crlf_cons plain, readToClose, Reply.withReturns, Node.withReturnsAll]
  | case3 c unclosed hidden =>
    obtain ⟨escaping, slash⟩ := Bool.and_eq_true_iff.mp hidden
    obtain rfl := beq_iff_eq.mp slash
    simp [crlf_cons (c := '\\') (by decide), readToClose, unclosed, escaping, Reply.withReturns, Errors.move]
  | case4 c unclosed shown =>
    rw [readToClose_crlf_plain apart plain (by simpa using unclosed) (by simpa using shown)]
    rfl
  | case5 c d rest pair ih =>
    have kept : c ≠ '\n' := by
      rintro rfl
      simp [plain.symm] at pair
    rw [Reply.withReturns_after, ← ih, crlf_cons kept]
    by_cases feed : d = '\n'
    · subst feed
      have hides : (escapes quote && c == '\\') = true := by simpa [plain.symm] using pair
      rw [crlf_line_feed, readToClose, hides, Bool.true_or, if_pos rfl,
        readToClose_plain plain.symm (by simp), crlf_cons kept, crlf_line_feed]
      cases readToClose quote (crlf rest) <;> rfl
    · rw [crlf_cons feed, readToClose, if_pos pair, crlf_cons kept, crlf_cons feed, crlf_nil]
  | case6 c d rest single closed =>
    obtain rfl := beq_iff_eq.mp closed
    have shown : (escapes c && c == '\\') = false := by simp_all
    have other : d ≠ c := by simp_all
    have closes {e : Char} (other : e ≠ c) (after : List Char) :
        readToClose c (c :: e :: after) = .ok [] [c] (e :: after) := by
      simp [readToClose, shown, other]
    rw [crlf_cons plain]
    by_cases feed : d = '\n'
    · subst feed
      rw [crlf_line_feed, closes apart.symm]
      simp [Reply.withReturns, crlf_cons plain, crlf_line_feed, Node.withReturnsAll]
    · rw [crlf_cons feed, closes other]
      simp [Reply.withReturns, crlf_cons plain, crlf_cons feed, Node.withReturnsAll]
  | case7 c d rest single unclosed ih =>
    simp only [Bool.or_eq_true, not_or, Bool.not_eq_true] at single
    rw [readToClose_crlf_plain apart plain (by simpa using unclosed) single.1, ih, Reply.withReturns_after]

theorem readQuoted_crlf {quote : Char} (apart : quote ≠ '\x0d') (plain : quote ≠ '\n') (text : List Char) :
    readQuoted quote (crlf text) = (readQuoted quote text).withReturns := by
  cases text with
  | nil => rfl
  | cons c rest =>
    by_cases feed : c = '\n'
    · subst feed
      simp [crlf_line_feed, readQuoted, apart.symm, plain.symm, Reply.withReturns, Errors.move]
    · rw [crlf_cons feed, readQuoted, readQuoted, readToClose_crlf apart plain]
      split
      · rw [Reply.withReturns_after, crlf_cons feed, crlf_nil]
      · simp [Reply.withReturns, crlf_cons feed, Errors.move]

theorem readToLineEnd_crlf {text : List Char} (plain : '\x0d' ∉ text) :
    readToLineEnd (crlf text) = (readToLineEnd text).withReturns := by
  have parts : (crlf text).takeWhile (!breaksLine ·) = crlf (text.takeWhile (!breaksLine ·)) ∧
      (crlf text).dropWhile (!breaksLine ·) = crlf (text.dropWhile (!breaksLine ·)) := takeWhile_crlf rfl text
  have still : '\x0d' ∉ text.dropWhile (!breaksLine ·) :=
    fun inside => plain ((List.dropWhile_sublist _).subset inside)
  have ends {rest : List Char} (still : '\x0d' ∉ rest) : atLineEnd rest = true ∧ atLineEnd (crlf rest) = true := by
    cases rest with
    | nil => exact ⟨rfl, rfl⟩
    | cons c rest =>
      have here (more : List Char) : atLineEnd (c :: more) = true := by
        rw [atLineEnd.eq_def]
        split <;> simp_all
      by_cases feed : c = '\n'
      · subst feed
        exact ⟨here rest, rfl⟩
      · rw [crlf_cons feed]
        exact ⟨here rest, here (crlf rest)⟩
  rw [readToLineEnd, readToLineEnd, parts.1, parts.2, (ends still).1, (ends still).2]
  rfl

theorem readLineComment_crlf {text : List Char} (plain : '\x0d' ∉ text) :
    readLineComment (crlf text) = (readLineComment text).withReturns := by
  fun_cases readLineComment text with
  | case1 rest =>
    have later : '\x0d' ∉ rest := by simp_all
    rw [crlf_cons (by decide), crlf_cons (by decide), readLineComment, readToLineEnd_crlf later,
      Reply.withReturns_after]
    rfl
  | case2 rest =>
    have later : '\x0d' ∉ rest := by simp_all
    rw [crlf_cons (by decide), readLineComment, readToLineEnd_crlf later, Reply.withReturns_after]
    rfl
  | case3 text dashes hash =>
    rw [readLineComment]
    · rfl
    · intro more found
      obtain ⟨rest, rfl, first⟩ := crlf_eq_cons (by decide) found
      obtain ⟨rest, rfl, -⟩ := crlf_eq_cons (by decide) first.symm
      exact dashes rest rfl
    · intro more found
      obtain ⟨rest, rfl, -⟩ := crlf_eq_cons (by decide) found
      exact hash rest rfl

theorem readToCommentClose_crlf (start text : List Char) :
    readToCommentClose (crlf start) (crlf text) = (readToCommentClose start text).withReturns := by
  fun_induction readToCommentClose start text with
  | case1 | case2 => rfl
  | case3 c rest unclosed ih =>
    by_cases feed : c = '\n'
    · subst feed
      rw [crlf_line_feed, readToCommentClose, readToCommentClose, ih, Reply.withReturns_after]
      · cases readToCommentClose start rest <;> rfl
      all_goals simp
    · rw [crlf_cons feed, readToCommentClose, ih, Reply.withReturns_after, crlf_cons feed, crlf_nil]
      intro more star found
      obtain ⟨rest, rfl, -⟩ := crlf_eq_cons (by decide) found
      exact unclosed rest star rfl

theorem readBlockComment_crlf (text : List Char) :
    readBlockComment (crlf text) = (readBlockComment text).withReturns := by
  fun_cases readBlockComment text with
  | case1 rest =>
    rw [crlf_cons (by decide), crlf_cons (by decide), readBlockComment, readToCommentClose_crlf,
      Reply.withReturns_after]
    rfl
  | case2 text mark =>
    rw [readBlockComment]
    · rfl
    · intro more found
      obtain ⟨rest, rfl, first⟩ := crlf_eq_cons (by decide) found
      obtain ⟨rest, rfl, -⟩ := crlf_eq_cons (by decide) first.symm
      exact mark rest rfl

namespace Lexeme

/-- Whether a lexeme stops at no line ending, and has none for a mark. -/
def passesLines : Lexeme → Bool
  | symbol c | quoted c => c != '\x0d' && c != '\n'
  | keyword name => name.toList.all isKeywordChar
  | run stops => !stops.contains '\x0d' && !stops.contains '\n'
  | _ => true

/-- A lexeme is read alike with either line ending. -/
theorem read_crlf {piece : Lexeme} (passes : piece.passesLines) {text : List Char} (plain : '\x0d' ∉ text) :
    piece.read (crlf text) = (piece.read text).withReturns := by
  cases piece with
  | symbol c =>
    have apart : c ≠ '\x0d' ∧ c ≠ '\n' := by simpa [passesLines] using passes
    exact readSymbol_crlf apart.1 apart.2 text
  | keyword name => exact readKeyword_crlf (List.all_eq_true.mp passes) text
  | wordAmong words => exact readWordAmong_crlf words text
  | word | digits | spaces => exact readRun_crlf rfl text
  | lineComment => exact readLineComment_crlf plain
  | blockComment => exact readBlockComment_crlf text
  | quoted quote =>
    have apart : quote ≠ '\x0d' ∧ quote ≠ '\n' := by simpa [passesLines] using passes
    exact readQuoted_crlf apart.1 apart.2 text
  | run stops =>
    have apart := Bool.and_eq_true_iff.mp passes
    exact readRun_crlf (apart.1.trans apart.2.symm) text

end Lexeme

end Sql

end DdlModels
