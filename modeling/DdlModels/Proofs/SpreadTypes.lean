import DdlModels.Proofs.Blanks
import DdlModels.Proofs.WordSearch

/-!
# Types of several words

The words of a type may stand apart, with white space and comments between them. They are read as one type,
whatever the gaps hold.
-/

namespace DdlModels.Sql

open Text Grammar

/-- The types of several words, and their categories. -/
def phrasalTypes : List (List String × TypeCategory) := [
  (["CHAR", "VARYING"], .string), (["CHARACTER", "VARYING"], .string),
  (["DOUBLE", "PRECISION"], .dimension), (["NCHAR", "VARCHAR"], .nationalString),
  (["LONG", "VARCHAR"], .longVarchar), (["LONG", "VARBINARY"], .longVarbinary),
  (["NATIONAL", "VARCHAR"], .nationalString), (["NATIONAL", "CHARACTER"], .nationalString),
  (["NATIONAL", "CHAR"], .nationalString), (["NATIONAL", "VARCHAR", "VARYING"], .nationalVaryingString),
  (["NATIONAL", "CHARACTER", "VARYING"], .nationalVaryingString),
  (["NATIONAL", "CHAR", "VARYING"], .nationalVaryingString)]

/-- Keywords in any case one after another before `after`, with gaps between them that are read as blanks. -/
inductive Spread (after : List Char) : List String → List (List Char) → List Char → Prop where
  | word {name : String} {word : List Char} : Spells name word → Spread after [name] [] word
  | cons {name : String} {names : List String} {word gap text : List Char} {gaps : List (List Char)} :
    Spells name word → gap ≠ [] → Grammar.blanks.Reads (gap ++ (text ++ after)) [] (text ++ after) →
      Spread after names gaps text → Spread after (name :: names) (gap :: gaps) (word ++ (gap ++ text))

variable {after gap rest text word : List Char} {gaps : List (List Char)} {name : String}

theorem gap_starts (blank : Grammar.blanks.Reads (gap ++ rest) [] rest) (nonempty : gap ≠ []) :
    ∃ c ∈ blankStarts, ∃ more, gap = c :: more := by
  obtain ⟨c, more, rfl⟩ := List.exists_cons_of_ne_nil nonempty
  refine ⟨c, ?_, more, rfl⟩
  by_contra other
  have none : Grammar.blanks.Reads (c :: more ++ rest) [] (c :: more ++ rest) := Misses.many (blank_misses other _)
  have same := congrArg List.length (blank.unique none).2
  simp only [List.length_append, List.length_cons] at same
  omega

def blankEnds : List Char := [' ', '\t', '\n', '\x0d', '/']

/-- A gap ends with white space or with the mark that closes a comment. -/
def EndsBlank (taken : List Char) : Prop := ∃ inner, ∃ c ∈ blankEnds, taken = inner ++ [c]

theorem EndsBlank.append {taken : List Char} (h : EndsBlank taken) (before : List Char) :
    EndsBlank (before ++ taken) := by
  obtain ⟨inner, c, hc, rfl⟩ := h
  exact ⟨before ++ inner, c, hc, (List.append_assoc _ _ _).symm⟩

variable {taken : List Char} {nodes : List Node}

theorem spaces_end (h : readRun .multiSpace isSpace text = .ok nodes taken rest) : EndsBlank taken := by
  rw [readRun] at h
  split at h
  case isTrue => contradiction
  case isFalse nonempty =>
    obtain ⟨-, rfl, -⟩ := Reply.ok.inj h
    obtain ⟨inner, c, whole⟩ := (List.eq_nil_or_concat _).resolve_left (mt List.isEmpty_iff.mpr nonempty)
    rw [List.concat_eq_append] at whole
    have space : isSpace c := List.mem_takeWhile_imp (show c ∈ text.takeWhile isSpace by rw [whole]; simp)
    simp only [isSpace, Bool.or_eq_true, beq_iff_eq] at space
    refine ⟨inner, c, ?_, whole⟩
    rcases space with ((rfl | rfl) | rfl) | rfl <;> decide

theorem blockComment_ends (h : readBlockComment text = .ok nodes taken rest) : EndsBlank taken := by
  have closes {start text taken rest : List Char} {nodes : List Node}
      (h : readToCommentClose start text = .ok nodes taken rest) : EndsBlank taken := by
    fun_induction readToCommentClose start text generalizing taken with
    | case1 => contradiction
    | case2 rest' =>
      obtain ⟨-, rfl, -⟩ := Reply.ok.inj h
      exact ⟨['*'], '/', by decide, rfl⟩
    | case3 c rest' _ ih =>
      obtain ⟨more, found, rfl⟩ := Reply.after_eq_ok h
      exact (ih found).append [c]
  revert h
  fun_cases readBlockComment text with
  | case1 inner =>
    intro h
    obtain ⟨more, found, rfl⟩ := Reply.after_eq_ok h
    exact (closes found).append ['/', '*']
  | case2 =>
    intro h
    cases h

theorem lineComment_stops (h : readLineComment text = .ok nodes taken rest) : ∀ c ∈ rest.head?, breaksLine c := by
  have line {text taken rest : List Char} {nodes : List Node} (h : readToLineEnd text = .ok nodes taken rest) :
      ∀ c ∈ rest.head?, breaksLine c := by
    intro c hc
    rw [readToLineEnd] at h
    split at h
    case isTrue =>
      obtain ⟨-, -, rfl⟩ := Reply.ok.inj h
      have stop := List.head?_dropWhile_not (!breaksLine ·) text
      rw [show (text.dropWhile (!breaksLine ·)).head? = some c from hc] at stop
      simpa using stop
    case isFalse => contradiction
  revert h
  fun_cases readLineComment text with
  | case1 | case2 =>
    intro h
    obtain ⟨more, found, -⟩ := Reply.after_eq_ok h
    exact line found
  | case3 =>
    intro h
    cases h

/-- A word begins here, so that no line ends. -/
def StartsWord (text : List Char) : Prop := ∃ c ∈ text.head?, isWordChar c

theorem blank_ends (read : blank.Reads (gap ++ rest) nodes rest) (starts : StartsWord rest) : EndsBlank gap := by
  rcases read.of_choice with read | ⟨-, read⟩
  · exact spaces_end read.read_eq
  · rcases read.of_choice with read | ⟨-, read⟩
    · obtain ⟨c, hc, word⟩ := starts
      have stop : breaksLine c := lineComment_stops read.read_eq c hc
      simp only [breaksLine, Bool.or_eq_true, beq_iff_eq] at stop
      rcases stop with rfl | rfl
      · exact absurd word (by decide)
      · exact absurd word (by decide)
    · exact blockComment_ends read.read_eq

/-- A gap before a word ends as its last blank does. -/
theorem gap_ends (blanks : Grammar.blanks.Reads (gap ++ rest) [] rest) (nonempty : gap ≠ [])
    (starts : StartsWord rest) : EndsBlank gap := by
  induction hn : gap.length using Nat.strongRecOn generalizing gap with
  | ind n ih =>
    rcases blanks.of_many with ⟨before, after, between, turn, shorter, more, none⟩ | ⟨-, -, same⟩
    · obtain ⟨rfl, rfl⟩ := List.append_eq_nil_iff.mp none.symm
      obtain ⟨last, rfl⟩ := more.splits
      obtain ⟨piece, split⟩ := turn.splits
      rw [← List.append_assoc] at split
      obtain rfl := List.append_cancel_right split
      by_cases done : last = []
      · subst done
        rw [List.append_nil] at turn ⊢
        exact blank_ends turn starts
      · have smaller : last.length < n := by
          rw [List.length_append, List.length_append, List.length_append] at shorter
          rw [← hn, List.length_append]
          omega
        exact (ih last.length smaller more done rfl).append piece
    · exact absurd (List.append_left_eq_self.mp same.symm) nonempty

namespace Spread

variable {next : String} {names : List String}

theorem last (spread : Spread after [name] gaps text) (proper : name ≠ "" ∧ name.toList.all isKeywordChar)
    (ends : WordEnds after) : gaps = [] ∧ BeginsWithWord name text after := by
  cases spread with
  | word spells => exact ⟨rfl, spells, proper.1, proper.2, ends⟩
  | cons _ _ _ none => cases none

theorem uncons (spread : Spread after (name :: next :: names) gaps text)
    (proper : name ≠ "" ∧ name.toList.all isKeywordChar) :
    ∃ word gap inner more, text = word ++ (gap ++ inner) ∧ gaps = gap :: more ∧ gap ≠ [] ∧
      BeginsWithWord name word (gap ++ (inner ++ after)) ∧
      Grammar.blanks.Reads (gap ++ (inner ++ after)) [] (inner ++ after) ∧
      Spread after (next :: names) more inner := by
  cases spread with
  | @cons _ _ word gap inner more spells nonempty read spread =>
    refine ⟨word, gap, inner, more, rfl, rfl, nonempty, ⟨spells, proper.1, proper.2, ?_⟩, read, spread⟩
    obtain ⟨c, mem, left, rfl⟩ := gap_starts read nonempty
    have all : ∀ c ∈ blankStarts, c.toNat < 128 ∧ isWordChar c = false := forall_among (by decide)
    rintro d ⟨⟩
    exact all c mem

end Spread

theorem BeginsWithWord.startsWord (begins : BeginsWithWord name word rest) : StartsWord (word ++ rest) := by
  obtain ⟨c, more, rfl⟩ := List.exists_cons_of_ne_nil begins.word_ne_nil
  exact ⟨c, rfl, begins.wordChars c List.mem_cons_self⟩

/-- Two words with a gap between them. -/
structure TwoWords (after : List Char) (name next : String) (word gap second : List Char) : Prop where
  first : BeginsWithWord name word (gap ++ (second ++ after))
  blanks : Grammar.blanks.Reads (gap ++ (second ++ after)) [] (second ++ after)
  nonempty : gap ≠ []
  last : BeginsWithWord next second after

theorem Spread.two {next : String} (spread : Spread after [name, next] gaps text)
    (proper : ∀ word ∈ [name, next], word ≠ "" ∧ word.toList.all isKeywordChar) (ends : WordEnds after) :
    ∃ word gap second, text = word ++ (gap ++ second) ∧ gaps = [gap] ∧
      TwoWords after name next word gap second := by
  obtain ⟨word, gap, second, more, rfl, rfl, nonempty, first, read, spread⟩ :=
    spread.uncons (proper name List.mem_cons_self)
  obtain ⟨rfl, last⟩ := spread.last (proper next (by simp)) ends
  exact ⟨word, gap, second, rfl, rfl, first, read, nonempty, last⟩

/-- Nothing is found in the two words, and nothing over the ends of the gap. -/
theorem classify_double_precision {second : List Char}
    (words : TwoWords after "DOUBLE" "PRECISION" word gap second) :
    RuleChain.dimension.classify (String.ofList (word ++ (gap ++ second))) =
      RuleChain.dimension.classify (String.ofList gap) := by
  obtain ⟨first, hfirst, more, begins⟩ := gap_starts words.blanks words.nonempty
  obtain ⟨inner, last, hlast, ends⟩ := gap_ends words.blanks words.nonempty words.last.startsWord
  have plain : (∀ c ∈ blankStarts, lowered c = [c]) ∧ ∀ c ∈ blankEnds, lowered c = [c] :=
    ⟨forall_among (by decide +kernel), forall_among (by decide +kernel)⟩
  have apart : ∀ rule ∈ RuleChain.dimension.rules, rule.contains.toList ≠ [] ∧
      (rule.contains.toList.all fun c => c.toNat < 128 ∧ isBlank c = false ∧ c ∉ blankStarts ∧ c ∉ blankEnds) ∧
      ¬ rule.contains.toList <:+: lowercase "DOUBLE".toList ∧
      ¬ rule.contains.toList <:+: lowercase "PRECISION".toList := by decide +kernel
  refine RuleChain.classify_congr _ ?_
  intro rule hrule
  obtain ⟨nonempty, all, no_double, no_precision⟩ := apart rule hrule
  have chars := forall_among all
  have ascii : ∀ c ∈ rule.contains.toList, c.toNat < 128 := fun c hc => (chars c hc).1
  have visible : ∀ c ∈ rule.contains.toList, isBlank c = false := fun c hc => (chars c hc).2.1
  have begins' : gap.flatMap lowered = first :: more.flatMap lowered := by
    rw [begins, List.flatMap_cons, plain.1 first hfirst]
    rfl
  have ends' : gap.flatMap lowered = inner.flatMap lowered ++ [last] := by
    rw [ends, List.flatMap_append, List.flatMap_singleton, plain.2 last hlast]
  have parts := infix_parts_iff nonempty (fun inside => (chars first inside).2.2.1 hfirst)
    (fun inside => (chars last inside).2.2.2 hlast) begins' ends' (word.flatMap lowered) (second.flatMap lowered)
  rw [infix_lowercase_trim nonempty ascii visible, infix_lowercase_trim nonempty ascii visible,
    List.flatMap_append, List.flatMap_append, parts, ← infix_lowercase_iff ascii word,
    ← infix_lowercase_iff ascii second, lowercase_of_spells words.first.chars words.first.spells,
    lowercase_of_spells words.last.chars words.last.spells]
  simp only [no_double, no_precision, false_or, or_false]

theorem phrasalTypes_rules : ∀ type ∈ phrasalTypes,
    type = (["DOUBLE", "PRECISION"], .dimension) ∨ type.2.rules.rules = [] := by decide

/-- A type of several words is classified by its gaps alone. -/
theorem classify_spread {type : List String × TypeCategory} (known : type ∈ phrasalTypes)
    (spread : Spread after type.1 gaps text) (ends : WordEnds after) :
    type.2.rules.classify (String.ofList text) = type.2.rules.classify (String.ofList gaps.flatten) := by
  rcases phrasalTypes_rules type known with rfl | none
  · obtain ⟨word, gap, second, rfl, rfl, words⟩ := spread.two (by decide) ends
    rw [List.flatten_singleton]
    exact classify_double_precision words
  · rw [RuleChain.classify_without_rules none, RuleChain.classify_without_rules none]

namespace TwoWords

variable {next other : String} {second : List Char} {words : List String}

theorem text_eq (word gap second after : List Char) :
    word ++ (gap ++ second) ++ after = word ++ (gap ++ (second ++ after)) := by simp

theorem misses (h : TwoWords after name next word gap second) {grammar : Grammar}
    (blocks : grammar.blocked (refusedAtWord name)) : grammar.Misses (word ++ (gap ++ second) ++ after) := by
  rw [text_eq]
  exact misses_of_blocked h.first.refuses blocks

theorem pair_reads (h : TwoWords after name next word gap second) (mem : name ∈ words) :
    (wordAmong words ++ Grammar.blanks ++ keyword next).Reads (word ++ (gap ++ second) ++ after) [] after := by
  rw [text_eq]
  exact ((h.first.wordAmong_reads mem).seq h.blanks).seq h.last.keyword_reads

theorem pair_misses (h : TwoWords after name next word gap second) (mem : name ∈ words)
    (blocks : (keyword other).blocked (refusedAtWord next)) :
    (wordAmong words ++ Grammar.blanks ++ keyword other).Misses (word ++ (gap ++ second) ++ after) := by
  rw [text_eq]
  exact ((h.first.wordAmong_reads mem).seq h.blanks).seq_misses (misses_of_blocked h.last.refuses blocks)

theorem further_reads (h : TwoWords after name next word gap second) (mem : name ∈ words) :
    (wordAmong words ++ further next).Reads (word ++ (gap ++ second) ++ after) [] after := by
  rw [text_eq]
  exact (h.first.wordAmong_reads mem).seq (h.blanks.seq h.last.keyword_reads).optional

end TwoWords

theorem typeName_of_phrasal (begins : BeginsWithWord name word rest)
    (known : name ∈ ["CHAR", "CHARACTER", "DOUBLE", "NCHAR", "LONG", "NATIONAL"]) {nodes : List Node}
    {left : List Char} (read : (characterType <|> doubleType <|> ncharType <|> longType <|> nationalType).Reads
      (word ++ rest) nodes left) : typeName.Reads (word ++ rest) nodes left := by
  have all : ∀ name ∈ ["CHAR", "CHARACTER", "DOUBLE", "NCHAR", "LONG", "NATIONAL"],
      ∀ category ∈ [TypeCategory.string, .dimension, .simple, .collection, .spatial],
        (oneWordType category).blocked (refusedAtWord name) := by decide
  have none {category : TypeCategory}
      (listed : category ∈ [TypeCategory.string, .dimension, .simple, .collection, .spatial]) :
      (oneWordType category).Misses (word ++ rest) :=
    misses_of_blocked begins.refuses (all name known category listed)
  exact (none (by decide)).orElse ((none (by decide)).orElse ((none (by decide)).orElse
    ((none (by decide)).orElse ((none (by decide)).orElse read))))

def nationalForms : List String := ["VARCHAR", "CHARACTER", "CHAR"]

theorem nationalWords_read {next : String} {inner : List Char}
    (first : BeginsWithWord "NATIONAL" word (gap ++ (inner ++ rest)))
    (blanks : Grammar.blanks.Reads (gap ++ (inner ++ rest)) [] (inner ++ rest))
    (second : BeginsWithWord next inner rest) (known : next ∈ nationalForms) :
    nationalWords.Reads (word ++ (gap ++ (inner ++ rest))) [] rest :=
  ((first.wordAmong_reads (by decide)).seq blanks).seq (second.anyKeyword_reads known (by decide))

theorem nationalType_reads {next : String} {second : List Char}
    (words : TwoWords after "NATIONAL" next word gap second) (known : next ∈ nationalForms)
    (whole : (Grammar.blanks ++ keyword "VARYING").Misses after) :
    nationalType.Reads (word ++ (gap ++ second) ++ after)
      [.leaf (.dataType .nationalString) (String.ofList (word ++ (gap ++ second)))] after := by
  have read := nationalWords_read words.first words.blanks words.last known
  rw [← TwoWords.text_eq] at read
  have longer : (nationalWords ++ Grammar.blanks ++ keyword "VARYING").Misses
      (word ++ (gap ++ second) ++ after) := by
    rcases whole.of_seq with missed | ⟨_, between, blanks, missed⟩
    · exact absurd missed (sure_not_misses (by decide))
    · exact (read.seq blanks).seq_misses missed
  exact (longer.leaf _).orElse (read.leaf _)

theorem nationalVarying_reads {next : String} {inner gap' second : List Char}
    (first : BeginsWithWord "NATIONAL" word (gap ++ (inner ++ (gap' ++ second) ++ after)))
    (blanks : Grammar.blanks.Reads (gap ++ (inner ++ (gap' ++ second) ++ after)) []
      (inner ++ (gap' ++ second) ++ after))
    (words : TwoWords after next "VARYING" inner gap' second) (known : next ∈ nationalForms) :
    nationalType.Reads (word ++ (gap ++ (inner ++ (gap' ++ second))) ++ after)
      [.leaf (.dataType .nationalVaryingString) (String.ofList (word ++ (gap ++ (inner ++ (gap' ++ second)))))]
      after := by
  rw [TwoWords.text_eq] at first blanks
  have read := nationalWords_read first blanks words.first known
  have text : word ++ (gap ++ (inner ++ (gap' ++ second))) ++ after =
      word ++ (gap ++ (inner ++ (gap' ++ (second ++ after)))) := by simp
  have longer : (nationalWords ++ Grammar.blanks ++ keyword "VARYING").Reads
      (word ++ (gap ++ (inner ++ (gap' ++ second))) ++ after) [] after := by
    rw [text]
    exact (read.seq words.blanks).seq words.last.keyword_reads
  exact (longer.leaf _).orElse

/-- A type of two words is read as a node if one of the last alternatives reads it. -/
theorem Spread.reads_two {first next : String} {category : TypeCategory}
    (spread : Spread after [first, next] gaps text)
    (proper : ∀ word ∈ [first, next], word ≠ "" ∧ word.toList.all isKeywordChar) (ends : WordEnds after)
    (listed : first ∈ ["CHAR", "CHARACTER", "DOUBLE", "NCHAR", "LONG", "NATIONAL"])
    (read : ∀ {word gap second}, TwoWords after first next word gap second →
      (characterType <|> doubleType <|> ncharType <|> longType <|> nationalType).Reads
        (word ++ (gap ++ second) ++ after)
        [.leaf (.dataType category) (String.ofList (word ++ (gap ++ second)))] after) :
    typeName.Reads (text ++ after) [.leaf (.dataType category) (String.ofList text)] after := by
  obtain ⟨word, gap, second, rfl, -, words⟩ := spread.two proper ends
  have phrasal := read words
  rw [TwoWords.text_eq] at phrasal ⊢
  exact typeName_of_phrasal words.first listed phrasal

theorem Spread.reads_national {next : String} (spread : Spread after ["NATIONAL", next] gaps text)
    (known : next ∈ nationalForms) (ends : WordEnds after)
    (whole : (Grammar.blanks ++ keyword "VARYING").Misses after) :
    typeName.Reads (text ++ after) [.leaf (.dataType .nationalString) (String.ofList text)] after := by
  have all : ∀ next ∈ nationalForms, ∀ word ∈ ["NATIONAL", next], word ≠ "" ∧ word.toList.all isKeywordChar := by
    decide
  refine spread.reads_two (all next known) ends (by decide) ?_
  intro word gap second words
  exact (words.misses (by decide)).orElse ((words.misses (by decide)).orElse ((words.misses (by decide)).orElse
    ((words.misses (by decide)).orElse (nationalType_reads words known whole))))

theorem Spread.reads_nationalVarying {next : String}
    (spread : Spread after ["NATIONAL", next, "VARYING"] gaps text) (known : next ∈ nationalForms)
    (ends : WordEnds after) :
    typeName.Reads (text ++ after) [.leaf (.dataType .nationalVaryingString) (String.ofList text)] after := by
  have all : ∀ next ∈ nationalForms, ∀ word ∈ [next, "VARYING"], word ≠ "" ∧ word.toList.all isKeywordChar := by
    decide
  obtain ⟨word, gap, _, _, rfl, rfl, -, first, blanks, spread⟩ := spread.uncons (by decide)
  obtain ⟨inner, gap', second, rfl, rfl, words⟩ := spread.two (all next known) ends
  have read := nationalVarying_reads first blanks words known
  have skips {grammar : Grammar} (blocks : grammar.blocked (refusedAtWord "NATIONAL")) :
      grammar.Misses (word ++ (gap ++ (inner ++ (gap' ++ second) ++ after))) :=
    misses_of_blocked first.refuses blocks
  rw [List.append_assoc, List.append_assoc] at read ⊢
  exact typeName_of_phrasal first (by decide) ((skips (by decide)).orElse ((skips (by decide)).orElse
    ((skips (by decide)).orElse ((skips (by decide)).orElse read))))

theorem typeName_reads_spread {type : List String × TypeCategory} (known : type ∈ phrasalTypes)
    (spread : Spread after type.1 gaps text) (ends : WordEnds after)
    (whole : (Grammar.blanks ++ keyword "VARYING").Misses after) :
    typeName.Reads (text ++ after) [.leaf (.dataType type.2) (String.ofList text)] after := by
  simp only [phrasalTypes, List.mem_cons, List.not_mem_nil, or_false] at known
  rcases known with rfl | rfl | rfl | rfl | rfl | rfl | rfl | rfl | rfl | rfl | rfl | rfl
  -- `CHAR VARYING`, `CHARACTER VARYING`
  · exact spread.reads_two (by decide) ends (by decide) fun words =>
      ((words.further_reads (by decide)).leaf _).orElse
  · exact spread.reads_two (by decide) ends (by decide) fun words =>
      ((words.further_reads (by decide)).leaf _).orElse
  -- `DOUBLE PRECISION`
  · exact spread.reads_two (by decide) ends (by decide) fun words =>
      (words.misses (by decide)).orElse ((words.further_reads (by decide)).leaf _).orElse
  -- `NCHAR VARCHAR`
  · exact spread.reads_two (by decide) ends (by decide) fun words =>
      (words.misses (by decide)).orElse ((words.misses (by decide)).orElse
        ((words.pair_reads (by decide)).leaf _).orElse.orElse)
  -- `LONG VARCHAR`, which is tried as `LONG VARBINARY` first
  · exact spread.reads_two (by decide) ends (by decide) fun words =>
      (words.misses (by decide)).orElse ((words.misses (by decide)).orElse ((words.misses (by decide)).orElse
        (((words.pair_misses (by decide) (by decide)).leaf _).orElse
          ((words.further_reads (by decide)).leaf _)).orElse))
  -- `LONG VARBINARY`
  · exact spread.reads_two (by decide) ends (by decide) fun words =>
      (words.misses (by decide)).orElse ((words.misses (by decide)).orElse ((words.misses (by decide)).orElse
        ((words.pair_reads (by decide)).leaf _).orElse.orElse))
  -- `NATIONAL` and one of its forms
  · exact spread.reads_national (by decide) ends whole
  · exact spread.reads_national (by decide) ends whole
  · exact spread.reads_national (by decide) ends whole
  -- with `VARYING` after it
  · exact spread.reads_nationalVarying (by decide) ends
  · exact spread.reads_nationalVarying (by decide) ends
  · exact spread.reads_nationalVarying (by decide) ends

end DdlModels.Sql
