import DdlModels.Proofs.Openings

/-!
# Within words

The pieces that a column's attributes are made of read words whole, or digits from their beginning. So nothing
that begins within a word goes beyond its end, if none of them can be read there.
-/

namespace DdlModels.Sql

open Text Grammar

/-- The end of a word, perhaps an empty one, before a rest. -/
def WithinWord (rest text : List Char) : Prop := ∃ word, (∀ c ∈ word, isWordChar c) ∧ text = word ++ rest

def attributePiece : Grammar → Bool
  | .group => true
  | .lexeme (.symbol c) => "=.+-eE".toList.contains c
  | .lexeme (.keyword name) => name.toList.all isKeywordChar && !name.toList.isEmpty
  | .lexeme (.quoted quote) => isQuote quote
  | .lexeme .word | .lexeme .digits | .lexeme .spaces | .lexeme .lineComment | .lexeme .blockComment => true
  | _ => false

theorem columnAttribute_madeOf_pieces : columnAttribute.madeOf attributePiece := by decide

variable {rest text left word : List Char} {nodes : List Node} {part : Grammar}

/-- A rest at which no word goes on and no piece of an attribute can be read. -/
structure Impasse (rest : List Char) : Prop where
  ends : continuesWord rest = false
  misses : ∀ {part : Grammar}, attributePiece part → part.Misses rest

theorem impasse_at {c : Char} (mark : c ∈ [',', ')', '\x27', '\x22']) {more : List Char}
    (closed : isQuote c → (Grammar.quoted c).Misses (c :: more)) : Impasse (c :: more) := by
  have plain : isWordChar c = false ∧ c.isDigit = false ∧ c ∉ blankStarts ∧ c ∉ '(' :: "=.+-eE".toList :=
    forall_among (P := fun c => isWordChar c = false ∧ c.isDigit = false ∧ c ∉ blankStarts ∧ c ∉ '(' :: "=.+-eE".toList)
      (by decide) c mark
  obtain ⟨word, digit, blank, symbols⟩ := plain
  refine ⟨word, ?_⟩
  intro part piece
  have visible := blank_misses blank more
  have start := refuses_at c more
  cases part with
  | group =>
    refine misses_of_blocked start (bne_iff_ne.mpr ?_)
    rintro rfl
    exact symbols List.mem_cons_self
  | lexeme lexeme =>
    cases lexeme with
    | symbol d =>
      refine misses_of_blocked start (bne_iff_ne.mpr ?_)
      rintro rfl
      exact symbols (List.mem_cons_of_mem _ (List.contains_iff_mem.mp piece))
    | keyword name =>
      obtain ⟨chars, nonempty⟩ := Bool.and_eq_true_iff.mp piece
      refine start (.keyword name) ?_
      rw [refusedAt]
      split
      case h_1 empty => simp [empty] at nonempty
      case h_2 k keyword spelled =>
        rw [spelled] at chars
        exact bne_iff_ne.mpr (lowerChar_ne_of_not_wordChar word (List.all_eq_true.mp chars k List.mem_cons_self))
    | quoted quote =>
      by_cases same : quote = c
      · subst same
        exact closed piece
      · exact start (.quoted quote) (bne_iff_ne.mpr (Ne.symm same))
    | word => exact start .word (by simp [refusedAt, word])
    | digits => exact start .digits (by simp [refusedAt, digit])
    | spaces => exact visible.of_choice.1
    | lineComment => exact visible.of_choice.2.of_choice.1
    | blockComment => exact visible.of_choice.2.of_choice.2
    | wordAmong | run => contradiction
  | _ => contradiction

namespace WithinWord

theorem cases_head (within : WithinWord rest text) :
    text = rest ∨ ∃ c word, isWordChar c ∧ text = c :: word ++ rest ∧ ∀ c ∈ word, isWordChar c := by
  obtain ⟨word, run, rfl⟩ := within
  cases word with
  | nil => exact .inl rfl
  | cons c word => exact .inr ⟨c, word, run c List.mem_cons_self, rfl, fun d hd => run d (List.mem_cons_of_mem c hd)⟩

theorem visible (within : WithinWord rest text) (visible : blank.Misses rest) : blank.Misses text := by
  rcases within.cases_head with rfl | ⟨c, word, hc, rfl, -⟩
  · exact visible
  · exact misses_of_blocked (refuses_wordChar hc (word ++ rest)) (by decide)

theorem keyword {name : String} (chars : name.toList.all isKeywordChar) (ends : continuesWord rest = false)
    (within : WithinWord rest text) (reads : (Grammar.keyword name).Reads text nodes left) : left = rest := by
  obtain ⟨word, run, rfl⟩ := within
  rcases readKeyword_swap (List.all_eq_true.mp chars) run ends ends Iff.rfl with ⟨whole, -⟩ | ⟨missed, -⟩
  · exact (reads.unique ⟨word, whole⟩).2
  · exact absurd missed reads.not_misses

/-- Within a word nothing begins but words, and nothing goes beyond its end. -/
theorem reads (impasse : Impasse rest) (piece : attributePiece part) (within : WithinWord rest text)
    (reads : part.Reads text nodes left) : WithinWord rest left := by
  rcases within.cases_head with rfl | ⟨c, word, hc, rfl, run⟩
  · exact absurd (impasse.misses piece) reads.not_misses
  have all : ∀ d ∈ c :: word, isWordChar d := List.forall_mem_cons.mpr ⟨hc, run⟩
  have start := refuses_wordChar hc (word ++ rest)
  have stop := head_of_continuesWord impasse.ends
  have nowhere (blocked : part.blocked refusedAtWordChar) : WithinWord rest left :=
    absurd (misses_of_blocked start blocked) reads.not_misses
  cases part with
  | group => exact nowhere (by decide)
  | lexeme lexeme =>
    cases lexeme with
    | spaces | lineComment | blockComment => exact nowhere rfl
    | quoted quote =>
      have quotes : isQuote quote := piece
      simp only [isQuote, Bool.or_eq_true, beq_iff_eq] at quotes
      rcases quotes with (rfl | rfl) | rfl <;> exact nowhere (by decide)
    | symbol d =>
      obtain ⟨rfl, rfl⟩ := List.cons.inj (reads_symbol reads)
      exact ⟨word, run, rfl⟩
    | keyword name =>
      exact ⟨[], by simp, within.keyword (Bool.and_eq_true_iff.mp piece).1 impasse.ends reads⟩
    | word =>
      have whole : Grammar.word.Reads (c :: word ++ rest) [] rest :=
        ⟨c :: word, readRun_until (List.cons_ne_nil c word) all stop⟩
      exact ⟨[], by simp, (reads.unique whole).2⟩
    | digits =>
      obtain ⟨taken, split⟩ := reads.splits
      rw [split] at reads
      have read : readRun .digit Char.isDigit (taken ++ left) = _ := reads.read_eq
      obtain ⟨-, -, digits, -⟩ := readRun_eq_ok read
      rcases List.append_eq_append_iff.mp split with ⟨more, rfl, same⟩ | ⟨more, whole, rfl⟩
      · -- the digits do not go beyond the word
        cases more with
        | nil => exact ⟨[], by simp, same.symm⟩
        | cons d more =>
          have digit := digits d (by simp)
          have other := stop d (by rw [same]; rfl)
          rw [isWordChar_of_isDigit digit] at other
          contradiction
      · exact ⟨more, fun d hd => all d (by rw [whole]; exact List.mem_append_right _ hd), rfl⟩
    | wordAmong | run => contradiction
  | _ => contradiction

end WithinWord

theorem number_misses {c : Char} (hc : isWordChar c) (other : c.isDigit = false) : number.Misses (c :: text) := by
  have apart {d : Char} (hd : isWordChar d = false) : c ≠ d := by
    rintro rfl
    rw [hc] at hd
    contradiction
  have unsigned : sign.Reads (c :: text) [] (c :: text) :=
    Misses.optional (.choice (symbol_misses (apart (by decide)) _) (symbol_misses (apart (by decide)) _))
  have digitless : digits.Misses (c :: text) := digits_misses (by rintro d ⟨⟩; exact other)
  have pointless : (symbol '.').Misses (c :: text) := symbol_misses (apart (by decide)) _
  exact (unsigned.seq_misses (digitless.seq_first.choice pointless.seq_first)).seq_first

/-- A word is no group and has no literal after it, so that it is read as a number or as a word. -/
theorem value_reads_word_iff (nonempty : word ≠ []) (run : ∀ c ∈ word, isWordChar c)
    (stop : ∀ c ∈ rest.head?, isWordChar c = false ∧ c ∉ ['\x27', '\x22']) :
    value.Reads (word ++ rest) nodes left ↔
      (number <|> Grammar.word ++ .optional .group).Reads (word ++ rest) nodes left := by
  have named : Grammar.word.Reads (word ++ rest) [] rest := ⟨word, readRun_until nonempty run fun c hc => (stop c hc).1⟩
  have unquoted {quote : Char} (mark : quote ∈ ['\x27', '\x22']) : (Grammar.quoted quote).Misses rest :=
    quoted_misses_head fun same => (stop quote same).2 mark
  have literal : (Grammar.optional Grammar.word ++ stringLiteral).Misses (word ++ rest) :=
    named.optional.seq_misses ((unquoted (by decide)).choice (unquoted (by decide)))
  obtain ⟨c, more, rfl⟩ := List.exists_cons_of_ne_nil nonempty
  have group : Grammar.group.Misses (c :: more ++ rest) := by
    refine misses_of_blocked (refuses_at c _) (bne_iff_ne.mpr ?_)
    rintro rfl
    exact absurd (run '(' List.mem_cons_self) (by decide)
  exact group.orElse_iff.trans literal.orElse_iff

theorem value_reads_word (nonempty : word ≠ []) (run : ∀ c ∈ word, isWordChar c)
    (digitless : ∀ c ∈ word.head?, c.isDigit = false)
    (stop : ∀ c ∈ rest.head?, isWordChar c = false ∧ c ∉ ['(', '\x27', '\x22']) :
    value.Reads (word ++ rest) [] rest := by
  have named : Grammar.word.Reads (word ++ rest) [] rest := ⟨word, readRun_until nonempty run fun c hc => (stop c hc).1⟩
  have group : Grammar.group.Misses rest :=
    misses_group (symbol_misses_head fun same => (stop '(' same).2 List.mem_cons_self).seq_first.seq_first
  rw [value_reads_word_iff nonempty run fun c hc =>
    ⟨(stop c hc).1, fun mark => (stop c hc).2 (List.mem_cons_of_mem _ mark)⟩]
  obtain ⟨c, more, rfl⟩ := List.exists_cons_of_ne_nil nonempty
  have numberless : number.Misses (c :: more ++ rest) :=
    number_misses (run c List.mem_cons_self) (digitless c rfl)
  exact numberless.orElse (named.seq group.optional)

end DdlModels.Sql
