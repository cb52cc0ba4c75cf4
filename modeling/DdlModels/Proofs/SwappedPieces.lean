import DdlModels.Proofs.ColumnPlaces
import DdlModels.Proofs.Swapping
import DdlModels.Proofs.WithinWords

/-!
# Swapping what follows a type or a value

Types, values and the parts of attributes read what stands before a place alike whatever follows it. Where the
openings do not show this, it is because two alternatives begin with the same words, or because a word may be more
than one thing.
-/

namespace DdlModels.Sql

open Text Grammar

variable {part first : Grammar} {sought : List Grammar}

def knownBlanks : List (Grammar × List Grammar) := [(Grammar.blanks, [Grammar.blank])]

theorem knownBlanks_swap : ∀ pair ∈ knownBlanks, Swaps pair.2 pair.1 := by
  intro pair hpair
  rw [List.mem_singleton.mp hpair]
  exact blanks_swaps

/-- A grammar whose decisions are seen from its openings, but for pieces that are known. -/
theorem swaps_of_known (known : List (Grammar × List Grammar)) (swaps : ∀ pair ∈ known, Swaps pair.2 pair.1)
    (h : part.steady known ∧ part.sought known ⊆ sought) : Swaps sought part :=
  (swaps_of_steady swaps h.1).mono h.2

theorem swaps_plain (h : part.steady knownBlanks ∧ part.sought knownBlanks ⊆ sought) : Swaps sought part :=
  swaps_of_known knownBlanks knownBlanks_swap h

theorem ncharType_swaps : Swaps [Grammar.blanks ++ keyword "VARCHAR"] ncharType := by
  have word : Swaps [] (wordAmong ["NCHAR"]) := swaps_plain (by decide)
  have national : Swaps []
      (.leaf (.dataType .nationalString) (wordAmong ["NCHAR"] ++ Grammar.blanks ++ keyword "VARCHAR")) :=
    swaps_plain (by decide)
  exact national.choice (word.leaf.mono (List.nil_subset _)) rfl (.leaves (.assoc (.extended word)))

theorem nationalType_swaps : Swaps [Grammar.blanks ++ keyword "VARYING"] nationalType := by
  have words : Swaps [] nationalWords := swaps_plain (by decide)
  have varying : Swaps []
      (.leaf (.dataType .nationalVaryingString) (nationalWords ++ Grammar.blanks ++ keyword "VARYING")) :=
    swaps_plain (by decide)
  exact varying.choice (words.leaf.mono (List.nil_subset _)) rfl (.leaves (.assoc (.extended words)))

theorem longType_swaps :
    Swaps [Grammar.blanks ++ keyword "VARCHAR", Grammar.blanks ++ keyword "VARBINARY"] longType := by
  have word : Swaps [] (wordAmong ["LONG"]) := swaps_plain (by decide)
  have binary : Swaps []
      (.leaf (.dataType .longVarbinary) (wordAmong ["LONG"] ++ Grammar.blanks ++ keyword "VARBINARY")) :=
    swaps_plain (by decide)
  have text : Swaps [Grammar.blanks ++ keyword "VARCHAR"]
      (.leaf (.dataType .longVarchar) (wordAmong ["LONG"] ++ further "VARCHAR")) :=
    swaps_plain (by decide)
  have apart : Excludes [Grammar.blanks ++ keyword "VARCHAR"] (further "VARCHAR")
      (Grammar.blanks ++ keyword "VARBINARY") :=
    (excludes_of_bars (by decide)).mono (List.nil_subset _)
  exact binary.choice (text.mono (by simp)) rfl (.leaves (.assoc (.prefixed word (by simp) apart)))

def actionWords : Grammar :=
  phrase "SET" ["NULL"] <|> phrase "SET" ["DEFAULT"] <|> phrase "NO" ["ACTION"] <|> anyKeyword "RESTRICT" ["CASCADE"]

theorem actionWords_swaps : Swaps [] actionWords := by
  have null : Swaps [] (phrase "SET" ["NULL"]) := swaps_plain (by decide)
  have others : Swaps [] (phrase "SET" ["DEFAULT"] <|> phrase "NO" ["ACTION"] <|> anyKeyword "RESTRICT" ["CASCADE"]) :=
    swaps_plain (by decide)
  have set : Swaps [Grammar.blank] (keyword "SET" ++ Grammar.blanks) := swaps_plain (by decide)
  have apart : ∀ other ∈ [phrase "SET" ["DEFAULT"], phrase "NO" ["ACTION"], keyword "RESTRICT", keyword "CASCADE"],
      other = phrase "SET" ["DEFAULT"] ∨ other.bars (phrase "SET" ["NULL"]) := by decide
  refine null.choice others rfl (.of_alternatives ?_)
  intro other hother
  rcases apart other hother with rfl | bars
  · -- both begin with the same word
    have blank : Excludes [] (keyword "DEFAULT") Grammar.blank := excludes_of_bars (by decide)
    have null : Excludes [] (keyword "DEFAULT") (keyword "NULL") := excludes_of_bars (by decide)
    exact Excludes.prefixed set (List.forall_mem_singleton.mpr blank) null
  · exact excludes_of_bars bars

theorem word_excludes_keyword {name : String} (chars : name.toList.all isKeywordChar) :
    Excludes [] word (keyword name) := by
  intro taken rest other nodes _ swapped _ reads missed
  obtain ⟨-, -, run, stop⟩ := readRun_eq_ok (show readRun .takeWhile1 isWordChar (taken ++ rest) = _ from reads.read_eq)
  have ends := continuesWord_of_head stop
  have both : rest = [] ↔ other = [] := ⟨fun h => absurd h swapped.nonempty, fun h => absurd h swapped.other_ne_nil⟩
  rcases readKeyword_swap (List.all_eq_true.mp chars) run ends (swapped.continuesWord ends) both with
    ⟨found, -⟩ | ⟨-, missed'⟩
  · exact absurd missed (show (keyword name).Reads (taken ++ rest) [] rest from ⟨_, found⟩).not_misses
  · exact missed'

theorem identifier_excludes_keyword {name : String} (chars : name.toList.all isKeywordChar)
    (quotes : (backquoted <|> quoted '\x22').bars (keyword name)) : Excludes [] identifier (keyword name) := by
  have both := List.all_append.symm.trans quotes
  obtain ⟨back, double⟩ := Bool.and_eq_true_iff.mp both
  refine .of_alternatives ?_
  intro other hother
  have known : other ∈ [backquoted, quoted '\x22', word] := hother
  simp only [List.mem_cons, List.not_mem_nil, or_false] at known
  rcases known with rfl | rfl | rfl
  · exact excludes_of_bars back
  · exact excludes_of_bars double
  · exact word_excludes_keyword chars

private def checkName : Grammar := .butNot (keyword "CHECK") identifier

private def constraintName : Grammar :=
  keyword "CONSTRAINT" ++ Grammar.blanks ++ .optional (checkName ++ Grammar.blanks)

theorem check_swaps : Swaps [] check := by
  have named : Swaps [] checkName :=
    (swaps_plain (by decide)).butNot rfl (identifier_excludes_keyword (by decide) (by decide))
  have constraint : Swaps [checkName ++ Grammar.blanks, Grammar.blank] constraintName := by
    refine swaps_of_known ((checkName, []) :: knownBlanks) ?_ (by decide)
    exact List.forall_mem_cons.mpr ⟨named, knownBlanks_swap⟩
  have keyword : Swaps [] (keyword "CHECK") := swaps_plain (by decide)
  have front : Swaps [] (.optional constraintName ++ Grammar.keyword "CHECK") := by
    refine constraint.optional.seq keyword (List.forall_mem_cons.mpr ⟨?_, List.forall_mem_cons.mpr ⟨?_, ?_⟩⟩)
    · exact excludes_of_bars (by decide)
    · -- there is no name where the keyword itself stands
      intro taken rest other nodes _ swapped _ reads _
      have reads' := keyword swapped (by simp) reads
      exact reads'.butNot_misses.seq_first
    · exact List.forall_mem_singleton.mpr (excludes_of_bars (by decide))
  refine swaps_of_known ((.optional constraintName ++ Grammar.keyword "CHECK", []) :: knownBlanks) ?_ (by decide)
  exact List.forall_mem_cons.mpr ⟨front, knownBlanks_swap⟩

def wordedLiteral : Grammar := .optional word ++ stringLiteral

theorem wordedLiteral_misses_iff (text : List Char) :
    wordedLiteral.Misses text ↔ stringLiteral.Misses (text.dropWhile isWordChar) := by
  have optional : (Grammar.optional word).Reads text [] (text.dropWhile isWordChar) := by
    cases hword : text.takeWhile isWordChar with
    | nil =>
      have split := List.takeWhile_append_dropWhile (p := isWordChar) (l := text)
      rw [hword] at split
      have missed : word.Misses text := by
        refine ⟨[(text, .takeWhile1)], ?_⟩
        change readRun .takeWhile1 isWordChar text = _
        simp [readRun, hword]
      rw [show text.dropWhile isWordChar = text from split]
      exact missed.optional
    | cons c more =>
      refine Reads.optional ⟨c :: more, ?_⟩
      change readRun .takeWhile1 isWordChar text = _
      simp [readRun, hword]
  exact optional.then_misses_iff

/-- Where something else is read that attributes are made of, no literal appears: there is no open quote on the way. -/
theorem excludes_wordedLiteral (made : part.madeOf attributePiece) : Excludes [wordedLiteral] part wordedLiteral := by
  intro taken rest other nodes _ swapped fits reads missed
  rw [wordedLiteral_misses_iff] at missed ⊢
  have fits := fits _ (List.mem_singleton_self _)
  simp only [wordedLiteral_misses_iff] at fits
  have split := List.takeWhile_append_dropWhile (p := isWordChar) (l := taken)
  have run : ∀ c ∈ taken.takeWhile isWordChar, isWordChar c := fun c hc => List.mem_takeWhile_imp hc
  generalize taken.takeWhile isWordChar = front at split run
  generalize hback : taken.dropWhile isWordChar = back at split
  subst split
  have drop (text : List Char) :
      (front ++ back ++ text).dropWhile isWordChar = (back ++ text).dropWhile isWordChar := by
    rw [List.append_assoc, List.dropWhile_append_of_pos run]
  rw [drop] at missed ⊢
  cases back with
  | nil => exact fits missed
  | cons quote back =>
    have stop : isWordChar quote = false := by
      have head := List.head?_dropWhile_not isWordChar (front ++ quote :: back)
      rw [hback] at head
      simpa using head
    have dropped (text : List Char) : (quote :: back ++ text).dropWhile isWordChar = quote :: (back ++ text) := by
      simp [stop]
    rw [dropped] at missed ⊢
    by_cases open' : quote ∈ ['\x27', '\x22']
    · -- the reading would not get past an open quote
      have both := missed.of_choice
      have impasse : Impasse (quote :: (back ++ rest)) := by
        refine impasse_at (List.mem_cons_of_mem _ (List.mem_cons_of_mem _ open')) fun _ => ?_
        simp only [List.mem_cons, List.not_mem_nil, or_false] at open'
        rcases open' with rfl | rfl
        · exact both.1
        · exact both.2
      have within : WithinWord (quote :: (back ++ rest)) (front ++ (quote :: back) ++ rest) :=
        ⟨front, run, List.append_assoc _ _ _⟩
      obtain ⟨word, -, whole⟩ := Reads.invariant (P := WithinWord (quote :: (back ++ rest))) made within
        (fun _ _ piece within _ _ => within.reads impasse piece) reads
      have longer := congrArg List.length whole
      simp only [List.length_append, List.length_cons] at longer
      omega
    · simp only [List.mem_cons, List.not_mem_nil, or_false, not_or] at open'
      exact (quoted_misses_of_ne open'.1 _).choice (quoted_misses_of_ne open'.2 _)

section Numbers

variable {c : Char} {text rest : List Char} {nodes : List Node}

theorem number_at_digit_not_misses (digit : c.isDigit) : ¬ number.Misses (c :: text) := by
  have idle : ∀ d ∈ "0123456789".toList, sign.idle (refusedAt d) := List.all_eq_true.mp (by decide)
  have unsigned : sign.Reads (c :: text) [] (c :: text) :=
    reads_of_idle (refuses_at c text) (idle c (mem_digits_of_isDigit digit))
  intro missed
  rcases missed.of_seq with missed | ⟨_, _, -, missed⟩
  · have missed := (unsigned.then_misses_iff.mp missed).of_choice.1
    rcases missed.of_seq with missed | ⟨_, _, -, missed⟩
    · have miss : ∃ errors, readRun .digit Char.isDigit (c :: text) = .miss errors := missed
      have other := readRun_misses_iff.mp miss c rfl
      rw [digit] at other
      cases other
    · exact sure_not_misses rfl missed
  · exact sure_not_misses rfl missed

theorem number_visible (reads : number.Reads text nodes rest) : Grammar.blank.Misses text := by
  obtain ⟨_, _, _, signed, -, -⟩ := reads.of_seq
  obtain ⟨_, _, start, sign, mantissa, -⟩ := signed.of_seq
  obtain ⟨d, more, rfl⟩ := List.exists_cons_of_ne_nil (reads_ne_nil mantissa rfl)
  have first : d ∈ ".0123456789".toList := by
    by_contra other
    have point : d ≠ '.' := fun same => other (same ▸ by decide)
    have digit : d.isDigit = false := by
      by_contra digit
      have digit : d.isDigit := by simpa using digit
      exact other (List.mem_cons_of_mem '.' (mem_digits_of_isDigit digit))
    have digitless : digits.Misses (d :: more) := digits_misses (by rintro c ⟨⟩; exact digit)
    exact mantissa.not_misses (digitless.seq_first.choice (symbol_misses point _).seq_first)
  have plain : ∀ d ∈ '+' :: ".0123456789".toList, d ∉ blankStarts ∧ d ≠ '-' := forall_among (by decide)
  rcases sign.of_optional with sign | ⟨-, -, same⟩
  · rcases sign.of_choice with plus | ⟨-, minus⟩
    · rw [reads_symbol plus]
      exact blank_misses (plain '+' List.mem_cons_self).1 _
    · have visible : (Grammar.lexeme .lineComment).Misses ('-' :: d :: more) := by
        rcases reads_or_misses (rfl : (lexeme .lineComment).calm) rfl ('-' :: d :: more) with ⟨_, taken, found⟩ | missed
        · have jump := lines_over_hyphen (plain d (List.mem_cons_of_mem _ first)).2 more
          change (readLineComment ('-' :: d :: more)).rest? = none at jump
          rw [show readLineComment ('-' :: d :: more) = _ from found] at jump
          cases jump
        · exact missed
      have refuses := refuses_at '-' (d :: more)
      rw [reads_symbol minus]
      exact (misses_of_blocked refuses (by decide)).choice (visible.choice (misses_of_blocked refuses (by decide)))
  · rw [← same]
    exact blank_misses (plain d (List.mem_cons_of_mem _ first)).1 more

theorem number_swaps : Swaps (number.sought knownBlanks) number :=
  swaps_plain (by decide)

def valueSought : List Grammar := wordedLiteral :: .group :: number.sought knownBlanks

theorem value_swaps : Swaps valueSought value := by
  have literal : Swaps [] wordedLiteral := swaps_plain (by decide)
  have plain : Swaps [.group] (word ++ .optional .group) := swaps_plain (by decide)
  have apart : Excludes [.group] (word ++ .optional .group) number := by
    intro taken rest other nodes goes _ _ reads missed
    obtain ⟨c, taken, rfl⟩ := List.exists_cons_of_ne_nil goes
    obtain ⟨_, _, _, named, -, -⟩ := reads.of_seq
    have first : isWordChar c := by
      by_contra other
      have refused : refusedAt c .word := by simpa [refusedAt] using other
      exact named.not_misses (misses_of_blocked (refuses_at c _) refused)
    have digit : c.isDigit = false := by
      by_contra digit
      exact number_at_digit_not_misses (by simpa using digit) missed
    exact number_misses first digit
  have unquoted : Swaps valueSought (number <|> word ++ .optional .group) := by
    refine (number_swaps.choice plain rfl apart).mono ?_
    simp [valueSought]
  have quoted : Swaps valueSought (wordedLiteral <|> number <|> word ++ .optional .group) := by
    refine (literal.choice unquoted rfl ((excludes_wordedLiteral ?_).mono (by simp [valueSought]))).mono (by simp)
    decide
  have opening : Excludes [] (wordedLiteral <|> number <|> word ++ .optional .group) .group :=
    excludes_of_bars (by decide)
  exact (group_swaps.choice quoted rfl (opening.mono (by simp))).mono (by simp)

theorem value_excludes_blank : Excludes valueSought value Grammar.blank := by
  refine .of_alternatives ?_
  intro other hother
  have known : other ∈ [.group, wordedLiteral, number, word ++ .optional .group] := hother
  simp only [List.mem_cons, List.not_mem_nil, or_false] at known
  rcases known with rfl | rfl | rfl | rfl
  · exact (excludes_of_bars (by decide)).mono (List.nil_subset _)
  · exact (excludes_of_bars (by decide)).mono (List.nil_subset _)
  · intro taken rest other nodes _ swapped fits reads _
    have swaps : Swaps valueSought number := number_swaps.mono (by simp [valueSought])
    have reads' := swaps swapped fits reads
    exact number_visible reads'
  · exact (excludes_of_bars (by decide)).mono (List.nil_subset _)

end Numbers

end DdlModels.Sql
