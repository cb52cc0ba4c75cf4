import DdlModels.Proofs.ColumnEnds

/-!
# Definitions and names with more after them

The definitions of a table are read alike when more text follows, for each of them is closed by a comma or
by the last parenthesis. A name may only be read differently if it breaks off before a quote that is never
closed.
-/

namespace DdlModels.Sql

open Script Grammar

def ClosedBy (marks : List Char) (text : List Char) : Prop :=
  ∃ c rest, skipBlanks text = c :: rest ∧ c ∈ marks

variable {text rest more : List Char} {nodes : List Node}

private theorem space_quiet (more : List Char) : ∀ c ∈ (' ' :: more).head?, isQuote c = false := by
  simp only [List.head?_cons, Option.mem_def, Option.some.injEq, forall_eq']
  rfl

theorem skipBlanks_mark {c : Char} (hc : c ∈ '.' :: ';' :: definitionStops) (text : List Char) :
    skipBlanks (c :: text) = c :: text := by
  have all : ∀ c ∈ '.' :: ';' :: definitionStops, blank.blocked (refusedAt c) :=
    Text.forall_among (by decide)
  exact skipBlanks_of_visible (misses_of_blocked (refuses_at c text) (all c hc))

theorem definitionTail_continues {c : Char} (h : definitionTail.Reads text nodes (c :: rest))
    (close : c ∈ [',', ')']) :
    definitionTail.Reads (text ++ ' ' :: more) nodes (c :: rest ++ ' ' :: more) := by
  obtain ⟨rfl, ends⟩ := h.unique (definitionTail_reads text)
  have jump (left : List Char) : Leap.literals.withGroups.over? (c :: left) = none := by
    have plain : c ≠ '(' ∧ isQuote c = false := by
      simp only [List.mem_cons, List.not_mem_nil, or_false] at close
      rcases close with rfl | rfl <;> decide
    exact Leap.withGroups_over_none plain.1 plain.2 left
  have longer := (scan_append_text (fun _ _ jump => Leap.withGroups_append jump (space_quiet more))
    definitionStops_quiet text).2 c rest ends.symm (jump _)
  rw [← longer]
  exact definitionTail_reads _

/-- What a key of a table leaves is a comma or a parenthesis, unless something there cannot be read. -/
theorem definitionTail_stop (h : definitionTail.Reads text nodes rest) (closed : ClosedBy [',', ')'] rest) :
    ∃ c left, rest = c :: left ∧ c ∈ [',', ')'] := by
  obtain ⟨-, rfl⟩ := h.unique (definitionTail_reads text)
  obtain ⟨c, left, skips, close⟩ := closed
  cases ends : scan Leap.literals.withGroups definitionStops text with
  | nil =>
    rw [ends, skipBlanks_nil] at skips
    contradiction
  | cons d left =>
    have stop := (mem_stops_of_scan ends).1
    rw [ends, skipBlanks_mark (List.mem_cons_of_mem _ (List.mem_cons_of_mem _ stop))] at skips
    obtain ⟨rfl, -⟩ := List.cons.inj skips
    exact ⟨d, left, rfl, close⟩

private theorem keyword_made : (anyKeyword "PRIMARY"
    ["UNIQUE", "KEY", "INDEX", "FULLTEXT", "SPATIAL", "CONSTRAINT", "FOREIGN", "CHECK"]).madeOf plainPiece := by
  decide

theorem tableConstraint_continues {c : Char} (plain : Plain text)
    (reads : tableConstraint.Reads text nodes (c :: rest)) (close : c ∈ [',', ')']) :
    tableConstraint.Reads (text ++ ' ' :: more) nodes (c :: rest ++ ' ' :: more) := by
  obtain ⟨taken, inner, rfl, whole, rfl⟩ := reads.of_trimmedLeaf
  obtain ⟨before, after, between, first, second, rfl⟩ := whole.of_seq
  have head := (continues_of_plain keyword_made plain.2 more).reads first
  have longer := head.seq (definitionTail_continues second close)
  rw [List.append_assoc] at longer ⊢
  exact longer.trimmedLeaf .tableConstraint

theorem tableConstraint_misses (plain : Plain text) (missed : tableConstraint.Misses text) (more : List Char) :
    tableConstraint.Misses (text ++ ' ' :: more) := by
  rcases missed.of_trimmedLeaf.of_seq with missed | ⟨_, _, _, missed⟩
  · have still := (continues_of_plain keyword_made plain.2 more).misses missed
    exact still.seq_first.trimmedLeaf .tableConstraint
  · exact absurd missed (sure_not_misses (by decide))

theorem definition_continues (plain : Plain text) (reads : definition.Reads text nodes rest)
    (closed : ClosedBy [',', ')'] rest) (more : List Char) :
    definition.Reads (text ++ ' ' :: '\n' :: more) nodes (rest ++ ' ' :: '\n' :: more) := by
  rcases reads.of_context.of_choice with reads | ⟨missed, reads⟩
  · obtain ⟨taken, inner, split, whole, -⟩ := reads.of_trimmedLeaf
    obtain ⟨before, after, between, -, second, -⟩ := whole.of_seq
    obtain ⟨c, left, rfl, close⟩ := definitionTail_stop second closed
    exact (tableConstraint_continues plain reads close).orElse.context _
  · obtain ⟨c, left, skips, close⟩ := closed
    have stops : c ∈ definitionStops := by
      simp only [List.mem_cons, List.not_mem_nil, or_false] at close
      rcases close with rfl | rfl <;> decide
    have settled : Settled text := by
      refine ⟨c, left, ?_, close⟩
      rw [columnEnd_column plain reads, columnEnd_blanks (plain.reads reads), skips]
      have jump : columnLeap.over? (c :: left) = none := by
        simp only [List.mem_cons, List.not_mem_nil, or_false] at close
        rcases close with rfl | rfl <;> rfl
      rw [columnEnd, scan_char jump, if_pos stops]
    exact ((tableConstraint_misses plain missed _).orElse ((column_continues settled plain more).reads reads)).context _

theorem blanks_continue (plain : Plain text) (nonempty : skipBlanks text ≠ []) (more : List Char) :
    blanks.Reads (text ++ ' ' :: '\n' :: more) [] (skipBlanks text ++ ' ' :: '\n' :: more) := by
  have reads := (blanks_read (text ++ ' ' :: '\n' :: more)).1
  rwa [skipBlanks_separated plain.1, if_neg nonempty] at reads

theorem reads_ne_nil {grammar : Grammar} (reads : grammar.Reads text nodes rest) (advances : grammar.advances) :
    text ≠ [] := by
  intro empty
  have shorter := reads.length_lt advances
  rw [empty] at shorter
  exact absurd shorter (Nat.not_lt_zero _)

private def nextDefinition : Grammar := blanks ++ symbol ',' ++ blanks ++ definition

private theorem nextDefinition_reads (reads : nextDefinition.Reads text nodes rest) :
    ∃ after, skipBlanks text = ',' :: after ∧ definition.Reads (skipBlanks after) nodes rest := by
  obtain ⟨_, _, place, front, last, rfl⟩ := reads.of_seq
  obtain ⟨_, _, after, start, gap, rfl⟩ := front.of_seq
  obtain ⟨_, _, mark, blank, comma, rfl⟩ := start.of_seq
  obtain ⟨rfl, rfl⟩ := blank.unique (blanks_read text).1
  obtain ⟨rfl, rfl⟩ := gap.unique (blanks_read after).1
  have found := reads_symbol comma
  rw [found] at comma
  obtain ⟨rfl, -⟩ := comma.unique (symbol_reads ',' after)
  exact ⟨after, found, last⟩

private theorem definitions_closed {c : Char} {left : List Char}
    (reads : (many nextDefinition).Reads text nodes rest) (skips : skipBlanks rest = c :: left)
    (close : c ∈ [',', ')']) : ClosedBy [',', ')'] text := by
  rcases reads.of_many with ⟨_, _, between, turn, -⟩ | ⟨-, -, rfl⟩
  · obtain ⟨after, comma, -⟩ := nextDefinition_reads turn
    exact ⟨',', after, comma, by decide⟩
  · exact ⟨c, left, skips, close⟩

private theorem moreDefinitions_continue {left : List Char} (plain : Plain text)
    (reads : (many nextDefinition).Reads text nodes rest) (skips : skipBlanks rest = ')' :: left)
    (more : List Char) :
    (many nextDefinition).Reads (text ++ ' ' :: '\n' :: more) nodes (rest ++ ' ' :: '\n' :: more) := by
  induction hn : text.length using Nat.strongRecOn generalizing text nodes with
  | ind n ih =>
    rcases reads.of_many with ⟨first, others, between, turn, shorter, again, rfl⟩ | ⟨-, rfl, rfl⟩
    · obtain ⟨after, comma, reads⟩ := nextDefinition_reads turn
      have suffix : after <:+ text :=
        ((List.suffix_cons ',' after).trans (comma ▸ List.suffix_refl _)).trans (skipBlanks_suffix text)
      have plainAfter := plain.suffix suffix
      have front := blanks_continue plain (by simp [comma]) more
      rw [comma] at front
      have gap := blanks_continue plainAfter (reads_ne_nil reads (by decide)) more
      have inner := definition_continues (plainAfter.suffix (skipBlanks_suffix after)) reads
        (definitions_closed again skips (by decide)) more
      have longer : nextDefinition.Reads (text ++ ' ' :: '\n' :: more) first _ :=
        ((front.seq (symbol_reads ',' _)).seq gap).seq inner
      exact longer.many (by decide) (ih between.length (by omega) (plain.reads turn) again rfl)
    · have front := blanks_continue plain (by simp [skips]) more
      rw [skips] at front
      have missed : (symbol ',').Misses (')' :: left ++ ' ' :: '\n' :: more) := symbol_misses (by decide) _
      exact (front.seq_misses missed).seq_first.seq_first.many

theorem definitions_continue (plain : Plain text) (reads : definitions.Reads text nodes rest)
    (more : List Char) :
    definitions.Reads (text ++ ' ' :: '\n' :: more) nodes (rest ++ ' ' :: '\n' :: more) := by
  obtain ⟨_, _, close, whole, parenthesis, rfl⟩ := reads.of_seq
  obtain ⟨_, _, last, listed, gapAfter, rfl⟩ := whole.of_seq
  obtain ⟨_, _, comma, front, others, rfl⟩ := listed.of_seq
  obtain ⟨_, _, start, begun, first, rfl⟩ := front.of_seq
  obtain ⟨_, _, inner, opening, gapBefore, rfl⟩ := begun.of_seq
  obtain ⟨rfl, rfl⟩ := gapAfter.unique (blanks_read last).1
  obtain ⟨rfl, rfl⟩ := gapBefore.unique (blanks_read inner).1
  have mark := reads_symbol parenthesis.of_commit
  obtain rfl := reads_symbol opening
  rw [mark] at parenthesis
  obtain ⟨rfl, -⟩ := parenthesis.of_commit.unique (symbol_reads ')' rest)
  obtain ⟨rfl, -⟩ := opening.unique (symbol_reads '(' inner)
  have plainInner : Plain inner := plain.suffix (List.suffix_cons '(' inner)
  have plainStart := plainInner.suffix (skipBlanks_suffix inner)
  have plainComma := plainStart.reads first
  have closed := definitions_closed others mark (by decide)
  have before := blanks_continue plainInner (reads_ne_nil first.of_cut (by decide)) more
  have definition₁ := (definition_continues plainStart first.of_cut closed more).cut
  have definitions₂ := moreDefinitions_continue plainComma others mark more
  have after := blanks_continue (plainComma.reads others) (by simp [mark]) more
  rw [mark] at after
  have closing := (symbol_reads ')' (rest ++ ' ' :: '\n' :: more)).commit "',' or ')'"
  exact (((((symbol_reads '(' _).seq before).seq definition₁).seq definitions₂).seq after).seq closing

theorem definitions_miss (missed : definitions.Misses text) : (symbol '(').Misses text := by
  rcases missed.of_seq with missed | ⟨_, _, _, missed⟩
  · rcases missed.of_seq with missed | ⟨_, _, _, missed⟩
    · rcases missed.of_seq with missed | ⟨_, _, _, missed⟩
      · rcases missed.of_seq with missed | ⟨_, _, _, missed⟩
        · rcases missed.of_seq with missed | ⟨_, _, _, missed⟩
          · exact missed
          · exact absurd missed (sure_not_misses (by decide))
        · exact absurd missed (sure_not_misses (by decide))
      · exact absurd missed (sure_not_misses (by decide))
    · exact absurd missed (sure_not_misses (by decide))
  · exact absurd missed (sure_not_misses (by decide))

def Unclosed (text : List Char) : Prop :=
  ∃ c rest, text = c :: rest ∧ isQuote c ∧ literalRest? text = none

theorem quoted_continues_or_unclosed (quote : Char) (hquote : isQuote quote) (text more : List Char) :
    (∀ nodes rest, (quoted quote).Reads text nodes rest →
      (quoted quote).Reads (text ++ ' ' :: more) nodes (rest ++ ' ' :: more)) ∧
    ((quoted quote).Misses text → (quoted quote).Misses (text ++ ' ' :: more) ∨ Unclosed text) := by
  have space : (' ' :: more).head? ≠ some quote := by
    intro same
    rw [← Option.some.inj same] at hquote
    contradiction
  constructor
  · intro nodes rest reads
    obtain ⟨inner, rfl, closes⟩ := reads_quoted reads
    obtain ⟨rfl, -⟩ := reads.unique (quoted_reads closes)
    refine quoted_reads ?_
    rcases readToClose_ok_or_miss quote inner with ⟨taken, left, found⟩ | ⟨left, missed⟩
    · obtain rfl : left = rest := by simpa [found, Reply.rest?] using closes
      have longer := readToClose_append (isQuote_ne_backslash hquote) found (.inr space)
      change (readToClose quote (inner ++ ' ' :: more)).rest? = _
      rw [longer]
      rfl
    · simp [missed, Reply.rest?] at closes
  · intro missed
    cases text with
    | nil =>
      refine .inl (quoted_misses_of_ne ?_ more)
      intro same
      rw [← same] at hquote
      contradiction
    | cons c text =>
      by_cases same : c = quote
      · refine .inr ⟨c, text, rfl, same ▸ hquote, ?_⟩
        cases closes : literalRest? (c :: text) with
        | none => rfl
        | some rest =>
          rw [literalRest?, same, if_pos hquote] at closes
          rw [same] at missed
          exact absurd missed (quoted_reads closes).not_misses
      · exact .inl (quoted_misses_of_ne same _)

theorem identifier_continues (kelvin : '\u212A' ∉ text) (more : List Char) :
    (∀ nodes rest, identifier.Reads text nodes rest →
      identifier.Reads (text ++ ' ' :: more) nodes (rest ++ ' ' :: more)) ∧
    (identifier.Misses text → identifier.Misses (text ++ ' ' :: more) ∨ Unclosed text) := by
  cases text with
  | nil =>
    refine ⟨fun _ _ reads => absurd rfl (reads_ne_nil reads (by decide)), ?_⟩
    intro _
    exact .inl (misses_of_blocked (refuses_at ' ' more) (by decide))
  | cons c text =>
    have back := quoted_continues_or_unclosed '\x60' rfl (c :: text) more
    have double := quoted_continues_or_unclosed '\x22' rfl (c :: text) more
    -- only one of the three kinds of identifiers can begin with a given character
    by_cases backquote : c = '\x60'
    · subst backquote
      have others : (quoted '\x22' <|> word).Misses ('\x60' :: text) :=
        misses_of_blocked (refuses_at _ text) (by decide)
      have others' : (quoted '\x22' <|> word).Misses ('\x60' :: text ++ ' ' :: more) :=
        misses_of_blocked (refuses_at _ _) (by decide)
      constructor
      · intro nodes rest reads
        rcases reads.of_choice with reads | ⟨-, reads⟩
        · exact (back.1 nodes rest reads).orElse
        · exact absurd others reads.not_misses
      · intro missed
        exact (back.2 missed.of_choice.1).imp_left fun missed => missed.choice others'
    · have no_back (left : List Char) : backquoted.Misses (c :: left) := quoted_misses_of_ne backquote left
      by_cases doublequote : c = '\x22'
      · subst doublequote
        have others : word.Misses ('\x22' :: text) := misses_of_blocked (refuses_at _ text) (by decide)
        have others' : word.Misses ('\x22' :: text ++ ' ' :: more) :=
          misses_of_blocked (refuses_at _ _) (by decide)
        constructor
        · intro nodes rest reads
          rcases reads.of_choice with reads | ⟨-, reads⟩
          · exact absurd (no_back text) reads.not_misses
          · rcases reads.of_choice with reads | ⟨-, reads⟩
            · exact (no_back _).orElse (double.1 nodes rest reads).orElse
            · exact absurd others reads.not_misses
        · intro missed
          exact (double.2 missed.of_choice.2.of_choice.1).imp_left fun missed =>
            (no_back _).choice (missed.choice others')
      · have no_double (left : List Char) : (quoted '\x22').Misses (c :: left) :=
          quoted_misses_of_ne doublequote left
        have bare : word.Continues (' ' :: more) (c :: text) := Lexeme.continues rfl kelvin
        constructor
        · intro nodes rest reads
          rcases reads.of_choice with reads | ⟨-, reads⟩
          · exact absurd (no_back text) reads.not_misses
          · rcases reads.of_choice with reads | ⟨-, reads⟩
            · exact absurd (no_double text) reads.not_misses
            · exact (no_back _).orElse ((no_double _).orElse (bare.reads reads))
        · intro missed
          exact .inl ((no_back _).choice ((no_double _).choice (bare.misses missed.of_choice.2.of_choice.2)))

/-- A name goes on with a dot before a quote that is never closed. -/
def BreaksOff (text : List Char) : Prop := ∃ rest, text = '.' :: rest ∧ Unclosed rest

private theorem moreNames_continue (plain : Plain text)
    (reads : (many (symbol '.' ++ identifier)).Reads text nodes rest) :
    (many (symbol '.' ++ identifier)).Reads (text ++ ' ' :: more) nodes (rest ++ ' ' :: more) ∨
      BreaksOff rest := by
  induction hn : text.length using Nat.strongRecOn generalizing text nodes with
  | ind n ih =>
    rcases reads.of_many with ⟨first, others, between, turn, shorter, again, rfl⟩ | ⟨missed, rfl, rfl⟩
    · obtain ⟨_, _, name, dot, identified, rfl⟩ := turn.of_seq
      have mark := reads_symbol dot
      subst mark
      obtain ⟨rfl, -⟩ := dot.unique (symbol_reads '.' name)
      have plainName : Plain name := plain.suffix (List.suffix_cons '.' name)
      have longer := (identifier_continues plainName.2 more).1 _ _ identified
      have next : (symbol '.' ++ identifier).Reads ('.' :: name ++ ' ' :: more) _ (between ++ ' ' :: more) :=
        (symbol_reads '.' (name ++ ' ' :: more)).seq longer
      exact (ih between.length (by omega) (plain.reads turn) again rfl).imp_left fun again =>
        next.many (by decide) again
    · have dot : (symbol '.').Continues (' ' :: more) rest := Lexeme.continues (by decide) plain.2
      rcases missed.of_seq with no_dot | ⟨_, name, mark, no_name⟩
      · exact .inl (dot.misses no_dot).seq_first.many
      · have begins := reads_symbol mark
        subst begins
        have plainName : Plain name := plain.suffix (List.suffix_cons '.' name)
        rcases (identifier_continues plainName.2 more).2 no_name with still | unclosed
        · exact .inl ((symbol_reads '.' (name ++ ' ' :: more)).seq_misses still).many
        · exact .inr ⟨name, rfl, unclosed⟩

theorem tableName_continues (plain : Plain text) (reads : tableName.Reads text nodes rest) (more : List Char) :
    tableName.Reads (text ++ ' ' :: more) nodes (rest ++ ' ' :: more) ∨ BreaksOff rest := by
  obtain ⟨_, _, between, first, others, rfl⟩ := reads.of_commit.of_seq
  have longer := (identifier_continues plain.2 more).1 _ _ first
  exact (moreNames_continue (plain.reads first) others).imp_left fun others =>
    (longer.seq others).commit "table name"

end DdlModels.Sql
