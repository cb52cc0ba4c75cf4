import DdlModels.Proofs.Continued
import DdlModels.Proofs.Steps
import DdlModels.Proofs.TreeShape

/-!
# Scripts one after another

If a script can be read and holds no block comment, then its tables are also read when a separator and
another script follow, and the other script is read as if it stood alone.
-/

namespace DdlModels.Sql

open Script Grammar

/-- How a text goes on: after a gap, or, where it is used up, with what follows alone. -/
inductive Goes (more : List Char) : List Char → List Char → Prop where
  | onward (text : List Char) : Goes more text (text ++ ' ' :: '\n' :: more)
  | past : Goes more [] more

variable {text other rest after : List Char} {nodes : List Node}

private theorem statementTail_at_semicolon (after : List Char) :
    scan Leap.literals statementStops (';' :: after) = ';' :: after := by
  rw [scan_char (Leap.literals_over_none rfl after), if_pos (by decide)]

theorem statementTail_goes (reads : statementTail.Reads text nodes rest)
    (goes : Goes (';' :: after) text other) :
    (∃ left, statementTail.Reads other nodes left ∧ Goes (';' :: after) rest left) ∨ Unclosed rest := by
  obtain ⟨rfl, rfl⟩ := reads.unique (statementTail_reads text)
  cases goes with
  | past =>
    refine .inl ⟨';' :: after, ?_, ?_⟩
    · have reads := statementTail_reads (';' :: after)
      rwa [statementTail_at_semicolon] at reads
    · rw [scan_nil]
      exact .past
  | onward =>
    have space : ∀ c ∈ (' ' :: '\n' :: ';' :: after).head?, isQuote c = false := by
      intro c hc
      rw [← Option.some.inj hc]
      rfl
    have longer := scan_append_text (fun _ _ jump => Leap.literals_append jump space) statementStops_quiet text
    cases ends : scan Leap.literals statementStops text with
    | nil =>
      refine .inl ⟨';' :: after, ?_, .past⟩
      have reads := statementTail_reads (text ++ ' ' :: '\n' :: ';' :: after)
      have gap : scan Leap.literals statementStops (' ' :: '\n' :: ';' :: after) = ';' :: after := by
        rw [scan_char (Leap.literals_over_none rfl _), if_neg (by decide),
          scan_char (Leap.literals_over_none rfl _), if_neg (by decide), statementTail_at_semicolon]
      rwa [longer.1 ends, gap] at reads
    | cons c left =>
      obtain ⟨stop, jump⟩ := mem_stops_of_scan ends
      by_cases semicolon : c = ';'
      · subst semicolon
        refine .inl ⟨';' :: left ++ ' ' :: '\n' :: ';' :: after, ?_, .onward _⟩
        have reads := statementTail_reads (text ++ ' ' :: '\n' :: ';' :: after)
        rwa [longer.2 ';' left ends (Leap.literals_over_none rfl _)] at reads
      · refine .inr ⟨c, left, rfl, ?_, jump⟩
        simp only [statementStops, List.mem_cons, List.not_mem_nil, or_false] at stop
        rcases stop with same | rfl | rfl | rfl
        · exact absurd same semicolon
        · rfl
        · rfl
        · rfl

private theorem trim_gap (text : List Char) : Text.trim (text ++ [' ', '\n']) = Text.trim text := by
  have ending (inner : List Char) : Text.trimEnd (inner ++ [' ', '\n']) = Text.trimEnd inner := by
    have space : Text.isBlank ' ' = true := by decide
    have feed : Text.isBlank '\n' = true := by decide
    simp [Text.trimEnd, space, feed]
  rw [Text.trim, Text.trim, Text.trimStart, Text.trimStart, List.dropWhile_append]
  cases start : text.dropWhile Text.isBlank with
  | nil => rfl
  | cons c inner => exact ending (c :: inner)

private theorem options_go (reads : (trimmedLeaf .tableOption statementTail).Reads text nodes rest)
    (goes : Goes (';' :: after) text other) :
    (∃ left, (trimmedLeaf .tableOption statementTail).Reads other nodes left ∧
      Goes (';' :: after) rest left) ∨ Unclosed rest := by
  obtain ⟨taken, inner, split, tail, rfl⟩ := reads.of_trimmedLeaf
  rcases statementTail_goes tail goes with ⟨left, longer, goesOn⟩ | unclosed
  · refine .inl ⟨left, ?_, goesOn⟩
    cases goes with
    | onward =>
      cases goesOn with
      | onward =>
        rw [split, List.append_assoc] at longer ⊢
        exact longer.trimmedLeaf .tableOption
      | past =>
        have same : trimmedLeafOf .tableOption taken = trimmedLeafOf .tableOption (taken ++ [' ', '\n']) := by
          rw [trimmedLeafOf, trimmedLeafOf, trim_gap]
        have gap : text ++ ' ' :: '\n' :: ';' :: after = (taken ++ [' ', '\n']) ++ ';' :: after := by
          simp [split]
        rw [same]
        rw [gap] at longer ⊢
        exact longer.trimmedLeaf .tableOption
    | past =>
      obtain ⟨rfl, rfl⟩ := List.append_eq_nil_iff.mp split.symm
      obtain ⟨-, rfl⟩ := longer.unique (statementTail_reads _)
      rw [statementTail_at_semicolon] at longer ⊢
      have whole : statementTail.Reads ([] ++ ';' :: after) inner (';' :: after) := longer
      exact whole.trimmedLeaf .tableOption
  · exact .inr unclosed

private theorem skipBlanks_goes_cases (plain : Plain text) (goes : Goes (';' :: after) text other) :
    skipBlanks text = [] ∧ skipBlanks other = ';' :: after ∨
      skipBlanks text ≠ [] ∧ skipBlanks other = skipBlanks text ++ ' ' :: '\n' :: ';' :: after := by
  have mark : skipBlanks (';' :: after) = ';' :: after := skipBlanks_mark (by decide) after
  cases goes with
  | onward =>
    rw [skipBlanks_separated plain.1]
    by_cases empty : skipBlanks text = []
    · exact .inl ⟨empty, by rw [if_pos empty, mark]⟩
    · exact .inr ⟨empty, by rw [if_neg empty]⟩
  | past => exact .inl ⟨skipBlanks_nil, mark⟩

private theorem skipBlanks_goes (plain : Plain text) (goes : Goes (';' :: after) text other) :
    Goes (';' :: after) (skipBlanks text) (skipBlanks other) := by
  rcases skipBlanks_goes_cases plain goes with ⟨empty, skips⟩ | ⟨-, skips⟩
  · rw [empty, skips]
    exact .past
  · rw [skips]
    exact .onward _

/-- Likeness of texts with the texts they go on to, whatever is read of them. -/
private def going (more : List Char) : Likeness where
  texts text other := Plain text ∧ Goes more text other
  errors _ _ := True
  taken _ _ := True
  nodes _ _ := True
  errors_nil := trivial
  errors_append _ _ _ := trivial
  taken_nil := trivial
  taken_append _ _ := trivial
  nodes_nil := trivial
  nodes_append _ _ := trivial
  nodes_leaf _ _ := trivial
  nodes_branch _ _ _ := trivial

private def headPiece : Grammar → Bool
  | .lexeme (.keyword name) => name.toList.all Text.isKeywordChar && !name.toList.isEmpty
  | grammar => grammar == blanks

private theorem keyword_alike {name : String} (chars : name.toList.all Text.isKeywordChar)
    (nonempty : name.toList ≠ []) (plain : Plain text) (goes : Goes (';' :: after) text other) :
    Reply.Alike (going (';' :: after)) ((keyword name).read text) ((keyword name).read other) := by
  cases goes with
  | onward =>
    have continues : (keyword name).Continues (' ' :: '\n' :: ';' :: after) text :=
      Lexeme.continues chars plain.2
    rw [continues]
    cases found : (keyword name).read text with
    | ok nodes taken rest => exact .ok trivial trivial ⟨plain.reads ⟨taken, found⟩, .onward rest⟩
    | miss errors => exact .miss trivial
    | fail failure => exact absurd found (read_ne_fail rfl text failure)
  | past =>
    obtain ⟨k, letters, hname⟩ := List.exists_cons_of_ne_nil nonempty
    have hk : Text.isKeywordChar k := List.all_eq_true.mp chars k (hname ▸ List.mem_cons_self)
    have refused : refusedAt ';' (.keyword name) := by
      have different := Text.lowerChar_ne_of_not_word (c := ';') (by decide) (by decide) hk
      simpa [refusedAt, hname] using different
    obtain ⟨left, missed⟩ := refuses_at ';' after _ refused
    obtain ⟨left', missed'⟩ : (keyword name).Misses [] := by
      rcases readKeyword_ok_or_miss name.toList [] with ⟨taken, rest, found⟩ | missed
      · have moves := readKeyword_advances nonempty []
        have split := readKeyword_splits name.toList []
        rw [found] at moves split
        exact absurd (List.append_eq_nil_iff.mp (show [] = taken ++ rest from split).symm).1 moves
      · exact missed
    change Reply.Alike _ _ (Lexeme.read (.keyword name) (';' :: after))
    rw [missed, missed']
    exact .miss trivial

private theorem tableHead_alike (plain : Plain text) (goes : Goes (';' :: after) text other) :
    Reply.Alike (going (';' :: after)) (tableHead.read text) (tableHead.read other) := by
  have made : tableHead.madeOf headPiece := by decide
  refine read_alike made ⟨plain, goes⟩ ?_
  intro part place place' hpiece _ texts
  have blank (same : part = blanks) :
      Reply.Alike (going (';' :: after)) (part.read place) (part.read place') := by
    obtain ⟨taken, found⟩ := (blanks_read place).1
    obtain ⟨taken', found'⟩ := (blanks_read place').1
    rw [same, found, found']
    exact .ok trivial trivial
      ⟨texts.1.suffix (skipBlanks_suffix place), skipBlanks_goes texts.1 texts.2⟩
  cases part with
  | lexeme piece =>
    cases piece with
    | keyword name =>
      have both := Bool.and_eq_true_iff.mp hpiece
      exact keyword_alike both.1 (by simpa using both.2) texts.1 texts.2
    | _ => contradiction
  | _ => exact blank (by simpa [headPiece] using hpiece)

private theorem tableHead_goes (plain : Plain text) (goes : Goes (';' :: after) text other) :
    (∀ nodes rest, tableHead.Reads text nodes rest → nodes = [] ∧
      ∃ left, tableHead.Reads other [] left ∧ Goes (';' :: after) rest left) ∧
    (tableHead.Misses text → tableHead.Misses other) := by
  have alike := tableHead_alike plain goes
  constructor
  · intro nodes rest reads
    have silent := reads.nodes_eq_nil (by decide)
    obtain ⟨taken, found⟩ := reads
    rw [found] at alike
    generalize reply : tableHead.read other = answer at alike
    cases alike with
    | @ok _ nodes' _ taken' _ left _ _ texts =>
      have none := Reads.nodes_eq_nil (⟨taken', reply⟩ : tableHead.Reads other nodes' left) (by decide)
      exact ⟨silent, left, ⟨taken', by rw [reply, none]⟩, texts.2⟩
  · intro missed
    obtain ⟨left, missed⟩ := missed
    rw [missed] at alike
    generalize reply : tableHead.read other = answer at alike
    cases alike with
    | miss _ => exact ⟨_, reply⟩

private theorem definitions_begin (reads : definitions.Reads text nodes rest) :
    ∃ inner, text = '(' :: inner := by
  obtain ⟨_, _, _, first, -⟩ := reads.of_seq
  obtain ⟨_, _, _, second, -⟩ := first.of_seq
  obtain ⟨_, _, _, third, -⟩ := second.of_seq
  obtain ⟨_, _, _, fourth, -⟩ := third.of_seq
  obtain ⟨_, _, inner, opening, -⟩ := fourth.of_seq
  exact ⟨inner, reads_symbol opening⟩

private theorem table_goes (plain : Plain text) (reads : table.Reads text nodes rest) :
    (∃ left, table.Reads (text ++ ' ' :: '\n' :: ';' :: after) nodes left ∧ Goes (';' :: after) rest left) ∨
      Unclosed rest := by
  obtain ⟨taken, before, children, between, split, name, body, rfl⟩ := reads.of_branch
  obtain ⟨_, _, start, listed, options, rfl⟩ := body.of_seq
  obtain ⟨_, _, close, begun, gapAfter, rfl⟩ := listed.of_seq
  obtain ⟨_, _, opening, gapBefore, defined, rfl⟩ := begun.of_seq
  obtain ⟨rfl, rfl⟩ := gapBefore.unique (blanks_read between).1
  obtain ⟨rfl, rfl⟩ := gapAfter.unique (blanks_read close).1
  have plainBetween := plain.reads name
  have plainOpening := plainBetween.suffix (skipBlanks_suffix between)
  have plainClose := plainOpening.reads defined
  obtain ⟨inner, parenthesis⟩ := definitions_begin defined
  rcases tableName_continues plain name ('\n' :: ';' :: after) with named | ⟨left, dot, -⟩
  · rcases options_go options (skipBlanks_goes plainClose (.onward close)) with ⟨left, optioned, goes⟩ | unclosed
    · refine .inl ⟨left, ?_, goes⟩
      have first := blanks_continue plainBetween (by simp [parenthesis]) (';' :: after)
      have second := definitions_continue plainOpening defined (';' :: after)
      have third := (blanks_read (close ++ ' ' :: '\n' :: ';' :: after)).1
      have body := ((first.seq second).seq third).seq optioned
      rw [split, List.append_assoc] at named ⊢
      exact named.branch body .createTable
    · exact .inr unclosed
  · rw [dot, skipBlanks_mark (by decide)] at parenthesis
    exact absurd (List.cons.inj parenthesis).1 (by decide)

private theorem table_misses {between : List Char} (plain : Plain text) (missed : table.Misses text)
    (name : tableName.Reads text nodes between)
    (named : tableName.Reads (text ++ ' ' :: '\n' :: ';' :: after) nodes
      (between ++ ' ' :: '\n' :: ';' :: after)) :
    table.Misses (text ++ ' ' :: '\n' :: ';' :: after) := by
  have bodyMissed : (symbol '(').Misses (skipBlanks between) := by
    rcases missed.of_branch with missed | ⟨_, left, again, missed⟩
    · exact absurd missed name.not_misses
    · obtain ⟨-, rfl⟩ := name.unique again
      rcases missed.of_seq with missed | ⟨_, _, _, missed⟩
      · rcases missed.of_seq with missed | ⟨_, _, _, missed⟩
        · rcases missed.of_seq with missed | ⟨_, _, gap, missed⟩
          · exact absurd missed (sure_not_misses (by decide))
          · obtain ⟨-, rfl⟩ := gap.unique (blanks_read between).1
            exact definitions_miss missed
        · exact absurd missed (sure_not_misses (by decide))
      · exact absurd missed (sure_not_misses (by decide))
  have plainBetween := plain.reads name
  have still : (symbol '(').Misses (skipBlanks (between ++ ' ' :: '\n' :: ';' :: after)) := by
    have goes : Goes (';' :: after) (skipBlanks between) _ := skipBlanks_goes plainBetween (.onward between)
    have plainStart := plainBetween.suffix (skipBlanks_suffix between)
    generalize skipBlanks (between ++ ' ' :: '\n' :: ';' :: after) = left at goes ⊢
    generalize skipBlanks between = start at goes plainStart bodyMissed
    cases goes with
    | onward =>
      have continues : (symbol '(').Continues (' ' :: '\n' :: ';' :: after) start :=
        Lexeme.continues (by decide) plainStart.2
      exact continues.misses bodyMissed
    | past => exact symbol_misses (by decide) after
  refine named.branch_misses ?_ .createTable
  have gap := (blanks_read (between ++ ' ' :: '\n' :: ';' :: after)).1
  have noDefinitions : definitions.Misses (skipBlanks (between ++ ' ' :: '\n' :: ';' :: after)) :=
    Misses.seq_first (Misses.seq_first (Misses.seq_first (Misses.seq_first (Misses.seq_first still))))
  exact (gap.seq_misses noDefinitions).seq_first.seq_first

private theorem tableBody_goes (plain : Plain text) (reads : (table <|> bodilessTable).Reads text nodes rest) :
    (∃ left, (table <|> bodilessTable).Reads (text ++ ' ' :: '\n' :: ';' :: after) nodes left ∧
      Goes (';' :: after) rest left) ∨ Unclosed rest := by
  rcases reads.of_choice with made | ⟨missed, bodiless⟩
  · rcases table_goes plain made with ⟨left, longer, goes⟩ | unclosed
    · exact .inl ⟨left, longer.orElse, goes⟩
    · exact .inr unclosed
  · obtain ⟨_, _, start, front, tail, rfl⟩ := bodiless.of_seq
    obtain ⟨_, _, between, name, gap, rfl⟩ := front.of_seq
    obtain ⟨rfl, rfl⟩ := gap.unique (blanks_read between).1
    rcases tableName_continues plain name ('\n' :: ';' :: after) with named | ⟨left, dot, unclosed⟩
    · have goes : Goes (';' :: after) (skipBlanks between) _ :=
        skipBlanks_goes (plain.reads name) (.onward between)
      rcases statementTail_goes tail goes with ⟨left, longer, goes⟩ | unclosed
      · have longerGap := (blanks_read (between ++ ' ' :: '\n' :: ';' :: after)).1
        exact .inl ⟨left, (table_misses plain missed name named).orElse ((named.seq longerGap).seq longer), goes⟩
      · exact .inr unclosed
    · -- the rest of the name is passed over, up to the quote
      refine .inr ?_
      obtain ⟨c, inner, rfl, quote, open_end⟩ := unclosed
      rw [dot, skipBlanks_mark (by decide)] at tail
      obtain ⟨-, rfl⟩ := tail.unique (statementTail_reads _)
      have stop : c ∈ statementStops := by
        simp only [isQuote, Bool.or_eq_true, beq_iff_eq] at quote
        rcases quote with (rfl | rfl) | rfl <;> decide
      have jump : Leap.literals.over? (c :: inner) = none := open_end
      rw [scan_char (Leap.literals_over_none rfl _), if_neg (by decide), scan_char jump, if_pos stop]
      exact ⟨c, inner, rfl, quote, open_end⟩

theorem tableStatement_goes (plain : Plain text) (reads : tableStatement.Reads text nodes rest) :
    (∃ left, tableStatement.Reads (text ++ ' ' :: '\n' :: ';' :: after) nodes left ∧
      Goes (';' :: after) rest left) ∨ Unclosed rest := by
  obtain ⟨_, _, start, front, body, rfl⟩ := reads.of_seq
  obtain ⟨_, _, between, head, gap, rfl⟩ := front.of_seq
  obtain ⟨rfl, rfl⟩ := gap.unique (blanks_read between).1
  have plainBetween := plain.reads head
  have plainStart := plainBetween.suffix (skipBlanks_suffix between)
  obtain ⟨silent, left, headed, goes⟩ := (tableHead_goes plain (.onward text)).1 _ _ head
  subst silent
  have goes : Goes (';' :: after) (skipBlanks between) (skipBlanks left) := skipBlanks_goes plainBetween goes
  have gapped := (blanks_read left).1
  generalize skipBlanks left = place at goes gapped
  generalize skipBlanks between = start at goes plainStart body
  cases goes with
  | onward =>
    rcases tableBody_goes plainStart body with ⟨last, longer, goes⟩ | unclosed
    · exact .inl ⟨last, (headed.seq gapped).seq longer, goes⟩
    · exact .inr unclosed
  | past =>
    exact absurd rfl (reads_ne_nil body (by decide))

theorem tableStatement_misses (plain : Plain text) (missed : tableStatement.Misses text) :
    tableStatement.Misses (text ++ ' ' :: '\n' :: ';' :: after) := by
  rcases missed.of_seq with front | ⟨_, _, _, body⟩
  · rcases front.of_seq with head | ⟨_, _, _, gap⟩
    · have goes : Goes (';' :: after) text _ := .onward text
      exact ((tableHead_goes plain goes).2 head).seq_first.seq_first
    · exact absurd gap (sure_not_misses (by decide))
  · exact absurd body (sure_not_misses (by decide))

/-- Nothing can be read at a quote that is never closed. -/
theorem next_unclosed (unclosed : Unclosed text) : next text = .halted (.unterminatedLiteral text) := by
  obtain ⟨c, inner, rfl, quote, open_end⟩ := unclosed
  have marks : ∀ d ∈ ['\x27', '\x22', '\x60'], d ≠ ';' ∧ d ∈ statementStops ∧ d ∈ definitionStops ∧
      tableStatement.blocked (refusedAt d) := Text.forall_among (by decide)
  have mark := marks c (by simpa [isQuote, or_assoc] using quote)
  have skips : skipBlanks (c :: inner) = c :: inner :=
    skipBlanks_mark (List.mem_cons_of_mem _ (List.mem_cons_of_mem _ mark.2.2.1)) inner
  have jump : Leap.literals.over? (c :: inner) = none := open_end
  have reads := statementTail_reads (c :: inner)
  rw [scan_char jump, if_pos mark.2.1] at reads
  have tail : statementTail.Reads ([] ++ c :: inner) [] (c :: inner) := reads
  have tail := tail.read_eq
  exact next_of_stuck skips mark.1 (misses_of_blocked (refuses_at c inner) mark.2.2.2) tail

/-- What comes next in a text is also what comes next where it goes on. -/
private theorem next_goes (plain : Plain text) (goes : Goes (';' :: after) text other) :
    match next text with
    | .ended => next other = .separator after
    | .separator rest => ∃ left, next other = .separator left ∧ Goes (';' :: after) rest left
    | .statement statement rest =>
      (∃ same left, next other = .statement same left ∧ same.node? = statement.node? ∧
        Goes (';' :: after) rest left) ∨ Unclosed rest
    | .halted _ => True := by
  rcases skipBlanks_goes_cases plain goes with ⟨empty, skips⟩ | ⟨nonempty, skips⟩
  · rw [next_ended empty]
    exact next_separator skips
  · have plainStart := plain.suffix (skipBlanks_suffix text)
    rw [next_eq_step text]
    fun_cases step text with
    | case1 empty => exact absurd empty nonempty
    | case2 rest start =>
      rw [start] at skips
      exact ⟨rest ++ ' ' :: '\n' :: ';' :: after, next_separator skips, .onward rest⟩
    | case3 nodes taken rest _ _ found =>
      rcases tableStatement_goes plainStart ⟨taken, found⟩ with ⟨left, ⟨longer, read⟩, goes⟩ | unclosed
      · refine .inl ⟨_, left, next_of_table skips read, ?_, goes⟩
        cases nodes <;> rfl
      · exact .inr unclosed
    | case4 => trivial
    | case5 errors nodes c taken rest _ visible missed found =>
      have missed : tableStatement.Misses (_ ++ ' ' :: '\n' :: ';' :: after) :=
        tableStatement_misses plainStart ⟨errors, missed⟩
      rcases statementTail_goes ⟨c :: taken, found⟩ (.onward _) with ⟨left, ⟨longer, read⟩, goes⟩ | unclosed
      · have split := statementTail.read_splits (skipBlanks text)
        have split' := statementTail.read_splits (skipBlanks text ++ ' ' :: '\n' :: ';' :: after)
        rw [found] at split
        rw [read] at split'
        have size := congrArg List.length (show skipBlanks text = c :: taken ++ rest from split)
        have size' := congrArg List.length (show _ = longer ++ left from split')
        have more : longer ≠ [] := by
          rintro rfl
          cases goes <;> simp only [List.length_append, List.length_cons, List.length_nil] at size size' <;> omega
        obtain ⟨d, longer, rfl⟩ := List.exists_cons_of_ne_nil more
        refine .inl ⟨_, left, next_of_skipped skips ?_ missed read, rfl, goes⟩
        intro left same
        obtain ⟨e, inner, start⟩ := List.exists_cons_of_ne_nil nonempty
        rw [start] at same
        exact visible inner (by rw [start, (List.cons.inj same).1])
      · exact .inr unclosed
    | case6 => trivial

/-- A sound script is read alike when another one follows, which is read as if it stood alone. -/
theorem readFrom_goes {second : List Char} (plain : Plain text) (goes : Goes (';' :: '\n' :: second) text other)
    (sound : (readFrom text).fault = none) :
    (readFrom other).tables = (readFrom text).tables ++ (readFrom second).tables ∧
      (readFrom other).fault = (readFrom second).fault := by
  -- on the length of the text: every step through it is also a step through the other text
  induction hn : text.length using Nat.strongRecOn generalizing text other with
  | ind n ih =>
    have steps := next_goes plain goes
    have stops := next_stops text
    have shortens {left : List Char} (hleft : (next text).rest? = some left) : left.length < n :=
      hn ▸ next_rest_length_lt hleft
    rw [readFrom_eq text] at sound ⊢
    rw [readFrom_eq other]
    cases found : next text with
    | ended =>
      rw [found] at steps
      rw [steps]
      have feed : readFrom ('\n' :: second) = readFrom second := readFrom_space rfl second
      simp only [feed]
      exact ⟨rfl, trivial⟩
    | separator rest =>
      rw [found] at steps stops sound
      obtain ⟨left, next', goes⟩ := steps
      rw [next']
      exact ih rest.length (shortens (by rw [found]; rfl)) (plain.suffix stops) goes sound rfl
    | statement statement rest =>
      rw [found] at steps stops sound
      rcases steps with ⟨same, left, next', node, goes⟩ | unclosed
      · rw [next']
        have tail := ih rest.length (shortens (by rw [found]; rfl)) (plain.suffix stops) goes sound rfl
        refine ⟨?_, tail.2⟩
        simp only [tables_cons, node, tail.1, List.append_assoc]
      · simp only [Script.cons] at sound
        rw [readFrom_eq, next_unclosed unclosed] at sound
        contradiction
    | halted fault =>
      rw [found] at sound
      contradiction

/-- A sound script and a separator are read alike whatever follows them. -/
theorem foregoing_of_sound (plain : Plain text) (sound : (readFrom text).fault = none) :
    Foregoing (text ++ " \n;\n".toList) (readFrom text).tables := by
  intro second
  have goes : Goes (';' :: '\n' :: second) text _ := .onward text
  have whole : text ++ " \n;\n".toList ++ second = text ++ ' ' :: '\n' :: ';' :: '\n' :: second := by simp
  rw [whole]
  exact readFrom_goes plain goes sound

/-- Scripts compose: with a separator between them the tables of both are read, and a fault of the second is
the same fault, so many bytes later. -/
theorem parse_append (first second : String) {tables : List Node} (closed : ¬ ['/', '*'] <:+: first.toList)
    (kelvin : '\u212A' ∉ first.toList) (sound : parse first = .ok ⟨.root, "", tables⟩) :
    (∀ more, parse second = .ok ⟨.root, "", more⟩ →
      parse (first ++ " \n;\n" ++ second) = .ok ⟨.root, "", tables ++ more⟩) ∧
    (∀ error, parse second = .error error → ∃ later, parse (first ++ " \n;\n" ++ second) = .error later ∧
      later.message = error.message ∧
      later.position = error.position + Text.byteSize first.toList + 4) := by
  obtain ⟨fine, tree⟩ := tree_eq_ok.mp sound
  obtain ⟨htables, hfault⟩ := foregoing_of_sound ⟨closed, kelvin⟩ fine second.toList
  rw [← String.toList_append, ← String.toList_append] at htables hfault
  constructor
  · intro more h
    obtain ⟨fault', tree'⟩ := tree_eq_ok.mp h
    refine tree_eq_ok.mpr ⟨hfault.trans fault', ?_⟩
    rw [(Node.mk.inj tree).2.2, (Node.mk.inj tree').2.2]
    exact congrArg _ htables.symm
  · intro error h
    cases found : (readFrom second.toList).fault with
    | none => simp [parse, readScript, Script.tree, found] at h
    | some broken =>
      have herror : broken.report second.toList = error := by
        simpa [parse, readScript, Script.tree, found] using h
      have ends : second.toList <:+ (first ++ " \n;\n" ++ second).toList := by
        rw [String.toList_append]
        exact List.suffix_append _ _
      have later := (fault_within found).report_later ends
      refine ⟨broken.report (first ++ " \n;\n" ++ second).toList, ?_, ?_, ?_⟩
      · rw [parse, Script.tree, readScript, hfault, found]
      · rw [later, ← herror]
        rfl
      · have separator : Text.byteSize " \n;\n".toList = 4 := rfl
        rw [later, ← herror]
        simp only [ParseError.later, String.toList_append, Text.byteSize_append, separator]
        omega

/-- A comment with a quote at the end of the first script does not reach into the second. -/
theorem parse_append_after_comment :
    (∃ tables more, parse "CREATE TABLE a (x INT) -- it's" = .ok ⟨.root, "", tables⟩ ∧
      parse "CREATE TABLE b (y INT)" = .ok ⟨.root, "", more⟩ ∧ tables.length = 1 ∧ more.length = 1 ∧
      parse ("CREATE TABLE a (x INT) -- it's" ++ " \n;\n" ++ "CREATE TABLE b (y INT)") =
        .ok ⟨.root, "", tables ++ more⟩) ∧
    ∃ error later, parse "CREATE TABLE" = .error error ∧
      parse ("CREATE TABLE a (x INT) -- it's" ++ " \n;\n" ++ "CREATE TABLE") = .error later ∧
      later.message = error.message ∧ later.position = error.position + 30 + 4 := by
  have first : parse "CREATE TABLE a (x INT) -- it's" =
      .ok ⟨.root, "", (readScript "CREATE TABLE a (x INT) -- it's").tables⟩ :=
    tree_eq_ok.mpr ⟨by decide +kernel, rfl⟩
  have second : parse "CREATE TABLE b (y INT)" =
      .ok ⟨.root, "", (readScript "CREATE TABLE b (y INT)").tables⟩ :=
    tree_eq_ok.mpr ⟨by decide +kernel, rfl⟩
  have size : Text.byteSize "CREATE TABLE a (x INT) -- it's".toList = 30 := by decide +kernel
  have composed (next : String) := parse_append "CREATE TABLE a (x INT) -- it's" next
    (by decide +kernel) (by decide +kernel) first
  constructor
  · exact ⟨_, _, first, second, by decide +kernel, by decide +kernel, (composed _).1 _ second⟩
  · cases broken : parse "CREATE TABLE" with
    | ok tree =>
      have fault := (tree_eq_ok.mp broken).1
      exact absurd fault (by decide +kernel)
    | error error =>
      obtain ⟨later, found, message, position⟩ := (composed "CREATE TABLE").2 error broken
      rw [size] at position
      exact ⟨error, later, rfl, found, message, position⟩

end DdlModels.Sql
