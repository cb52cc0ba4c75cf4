import DdlModels.Proofs.SpreadColumns
import DdlModels.Proofs.WithinWords
import DdlModels.Proofs.WrittenColumns

/-!
# Words as defaults

A default that is written as a word is recorded whole, unless the word begins with a digit and is no number: a number
is tried before a word, and is content with the digits that the word begins with.
-/

namespace DdlModels.Sql

open Text Grammar Script

/-- The words that are taken whole as a default: those that begin with no digit, and numbers. -/
inductive TakenWhole : List Char → Prop where
  | word {word : List Char} : (∀ c ∈ word.head?, c.isDigit = false) → TakenWhole word
  | digits {digits : List Char} : Written.Digits digits → TakenWhole digits
  | power {digits power : List Char} {mark : Char} : Written.Digits digits → mark ∈ ['e', 'E'] →
      Written.Digits power → TakenWhole (digits ++ mark :: power)

def EndsColumn (text : List Char) : Prop := ∃ c rest, text = c :: rest ∧ c ∈ [',', ')']

variable {word rest text left : List Char} {nodes : List Node}

section Numbers

variable {digits power : List Char} {mark : Char}

private theorem digits_split (text : List Char) : ∃ digits more, text = digits ++ more ∧
    (∀ c ∈ digits, c.isDigit) ∧ ∀ c ∈ more.head?, c.isDigit = false := by
  refine ⟨text.takeWhile Char.isDigit, text.dropWhile Char.isDigit, List.takeWhile_append_dropWhile.symm,
    fun c hc => List.mem_takeWhile_imp hc, ?_⟩
  intro c hc
  have stop := List.head?_dropWhile_not Char.isDigit text
  rw [hc] at stop
  exact stop

private theorem leading_digits (whole : Written.Digits digits) (stop : ∀ c ∈ text.head?, c.isDigit = false) :
    Grammar.digits.Reads (digits ++ text) [] text :=
  ⟨digits, readRun_until whole.1 whole.2 stop⟩

/-- An exponent, which digits have to follow. -/
private def exponent : Grammar := (symbol 'e' <|> symbol 'E') ++ sign ++ .cut Grammar.digits

private theorem unsigned_reads (whole : Written.Digits digits)
    (stop : ∀ c ∈ text.head?, c.isDigit = false ∧ c ≠ '.') :
    (sign ++ (Grammar.digits ++ .optional (symbol '.' ++ .optional Grammar.digits) <|>
      symbol '.' ++ Grammar.digits)).Reads (digits ++ text) [] text := by
  have point : (symbol '.' ++ .optional Grammar.digits).Misses text :=
    (symbol_misses_head fun here => (stop _ here).2 rfl).seq_first
  have mantissa := (leading_digits whole fun c hc => (stop c hc).1).seq point.optional
  obtain ⟨c, more, rfl⟩ := List.exists_cons_of_ne_nil whole.1
  have digit := whole.2 c List.mem_cons_self
  have unsigned : sign.Reads (c :: more ++ text) [] (c :: more ++ text) := by
    refine Misses.optional (.choice (symbol_misses ?_ _) (symbol_misses ?_ _)) <;> rintro rfl <;> contradiction
  exact unsigned.seq mantissa.orElse

private theorem number_reads_iff (whole : Written.Digits digits)
    (stop : ∀ c ∈ text.head?, c.isDigit = false ∧ c ≠ '.') :
    number.Reads (digits ++ text) nodes left ↔
      (Grammar.optional exponent).Reads text nodes left :=
  (unsigned_reads whole stop).then_iff

private theorem number_not_misses (whole : Written.Digits digits)
    (stop : ∀ c ∈ text.head?, c.isDigit = false ∧ c ≠ '.') : ¬ number.Misses (digits ++ text) := by
  intro missed
  rcases missed.of_seq with missed | ⟨_, _, _, missed⟩
  · exact (unsigned_reads whole stop).not_misses missed
  · exact sure_not_misses rfl missed

private theorem number_reads_digits (whole : Written.Digits digits)
    (stop : ∀ c ∈ text.head?, c.isDigit = false ∧ c ∉ ['.', 'e', 'E']) :
    number.Reads (digits ++ text) [] text := by
  have plain : ∀ c ∈ text.head?, c.isDigit = false ∧ c ≠ '.' ∧ c ≠ 'e' ∧ c ≠ 'E' := by simpa using stop
  refine (number_reads_iff whole fun c hc => ⟨(plain c hc).1, (plain c hc).2.1⟩).mpr ?_
  refine Misses.optional (Misses.seq_first (Misses.seq_first (Misses.choice ?_ ?_)))
  · exact symbol_misses_head fun here => (plain _ here).2.2.1 rfl
  · exact symbol_misses_head fun here => (plain _ here).2.2.2 rfl

private theorem mark_reads (known : mark ∈ ['e', 'E']) (text : List Char) :
    (symbol 'e' <|> symbol 'E').Reads (mark :: text) [] text := by
  simp only [List.mem_cons, List.not_mem_nil, or_false] at known
  rcases known with rfl | rfl
  · exact (symbol_reads 'e' text).orElse
  · exact (symbol_misses (by decide) text).orElse (symbol_reads 'E' text)

private theorem mark_apart (known : mark ∈ ['e', 'E']) : mark.isDigit = false ∧ mark ≠ '.' :=
  forall_among (P := fun c => c.isDigit = false ∧ c ≠ '.') (by decide) mark known

private theorem number_reads_mark_iff (whole : Written.Digits digits) (known : mark ∈ ['e', 'E'])
    (unsigned : ∀ c ∈ text.head?, c ≠ '+' ∧ c ≠ '-') :
    number.Reads (digits ++ mark :: text) nodes left ↔ Grammar.digits.Reads text nodes left := by
  have signs : sign.Reads text [] text :=
    Misses.optional (.choice (symbol_misses_head fun here => (unsigned _ here).1 rfl)
      (symbol_misses_head fun here => (unsigned _ here).2 rfl))
  have marked := (mark_reads known text).seq signs
  rw [number_reads_iff whole (by rintro c ⟨⟩; exact mark_apart known)]
  constructor
  · intro reads
    rcases reads.of_optional with reads | ⟨missed, -⟩
    · exact reads_cut_iff.mp (marked.then_iff.mp reads)
    · rcases missed.of_seq with missed | ⟨_, _, _, missed⟩
      · exact absurd missed marked.not_misses
      · exact absurd missed (sure_not_misses rfl)
  · intro reads
    exact (marked.seq reads.cut).optional

private theorem not_sign_of_digits (digits : Written.Digits power) (text : List Char) :
    ∀ c ∈ (power ++ text).head?, c ≠ '+' ∧ c ≠ '-' := by
  obtain ⟨c, more, rfl⟩ := List.exists_cons_of_ne_nil digits.1
  have digit := digits.2 c List.mem_cons_self
  rintro d ⟨⟩
  constructor <;> rintro rfl <;> contradiction

end Numbers

section Values

variable (nonempty : word ≠ []) (run : ∀ c ∈ word, isWordChar c) (ends : EndsColumn rest)

include ends in
theorem EndsColumn.refuses : ∃ c ∈ [',', ')'], Refuses (refusedAt c) rest ∧ rest.head? = some c := by
  obtain ⟨c, rest, rfl, mark⟩ := ends
  exact ⟨c, mark, refuses_at c rest, rfl⟩

include ends in
/-- What begins with neither mark is not read after a column. -/
theorem EndsColumn.misses {grammar : Grammar}
    (blocks : [',', ')'].all fun c => grammar.blocked (refusedAt c)) : grammar.Misses rest := by
  obtain ⟨c, mark, refuses, -⟩ := ends.refuses
  exact misses_of_blocked refuses (List.all_eq_true.mp blocks c mark)

include ends in
theorem EndsColumn.head {P : Char → Prop} [DecidablePred P] (marks : [',', ')'].all fun c => decide (P c)) :
    ∀ c ∈ rest.head?, P c := by
  obtain ⟨d, mark, -, head⟩ := ends.refuses
  intro c hc
  obtain rfl := Option.some.inj (head.symm.trans hc)
  exact forall_among marks _ mark

include ends in
theorem EndsColumn.head_append {P : Char → Prop} [DecidablePred P] (marks : [',', ')'].all fun c => decide (P c))
    {front : List Char} (first : ∀ c ∈ front.head?, P c) : ∀ c ∈ (front ++ rest).head?, P c := by
  cases front with
  | nil => exact ends.head marks
  | cons d front => exact first

include ends in
theorem EndsColumn.continuesWord : continuesWord rest = false := by
  obtain ⟨c, rest, rfl, mark⟩ := ends
  have all : ∀ c ∈ [',', ')'], isWordChar c = false := forall_among (by decide)
  exact all c mark

include nonempty run ends in
private theorem value_reads_iff : value.Reads (word ++ rest) nodes left ↔
    (number <|> Grammar.word ++ .optional .group).Reads (word ++ rest) nodes left :=
  value_reads_word_iff nonempty run (ends.head (by decide))

include nonempty run ends in
private theorem value_reads (whole : TakenWhole word) : value.Reads (word ++ rest) [] rest := by
  cases whole with
  | word plain => exact value_reads_word nonempty run plain (ends.head (by decide))
  | digits digits =>
    rw [value_reads_iff nonempty run ends]
    exact (number_reads_digits digits (ends.head (by decide))).orElse
  | power digits known power =>
    have unsigned : ∀ c ∈ (_ ++ rest).head?, c ≠ '+' ∧ c ≠ '-' := not_sign_of_digits power rest
    rw [value_reads_iff nonempty run ends, List.append_assoc, List.cons_append]
    exact ((number_reads_mark_iff digits known unsigned).mpr (leading_digits power (ends.head (by decide)))).orElse

include nonempty run ends in
private theorem value_stops (part : ¬ TakenWhole word) (reads : value.Reads (word ++ rest) nodes left) :
    ∃ number more, word = number ++ more ∧ number ≠ [] ∧ more ≠ [] ∧ left = more ++ rest := by
  rw [value_reads_iff nonempty run ends] at reads
  obtain ⟨digits, more, rfl, all, stop⟩ := digits_split word
  have whole : Written.Digits digits := by
    refine ⟨?_, all⟩
    rintro rfl
    exact part (.word stop)
  cases more with
  | nil =>
    rw [List.append_nil] at part
    exact absurd (.digits whole) part
  | cons mark more =>
    have later : ∀ c ∈ more, isWordChar c := fun c hc => run c (by simp [hc])
    have other : mark.isDigit = false := stop mark rfl
    have dotless : mark ≠ '.' := by
      rintro rfl
      exact absurd (run '.' (by simp)) (by decide)
    rw [List.append_assoc, List.cons_append] at reads
    have reads : number.Reads (digits ++ mark :: (more ++ rest)) nodes left := by
      rcases reads.of_choice with reads | ⟨missed, -⟩
      · exact reads
      · exact absurd missed (number_not_misses whole (by rintro c ⟨⟩; exact ⟨other, dotless⟩))
    by_cases known : mark ∈ ['e', 'E']
    · -- the digits of the exponent end before the word does
      have unsigned : ∀ c ∈ (more ++ rest).head?, c ≠ '+' ∧ c ≠ '-' := by
        refine ends.head_append (by decide) ?_
        intro c hc
        have letter := later c (List.mem_of_mem_head? hc)
        constructor <;> rintro rfl <;> exact absurd letter (by decide)
      have counted := (number_reads_mark_iff whole known unsigned).mp reads
      obtain ⟨power, more, rfl, places, last⟩ := digits_split more
      have power_whole : Written.Digits power := by
        refine ⟨?_, places⟩
        rintro rfl
        exact counted.not_misses (digits_misses (ends.head_append (by decide) last))
      rw [List.append_assoc] at counted
      obtain ⟨-, rfl⟩ := counted.unique (leading_digits power_whole (ends.head_append (by decide) last))
      refine ⟨digits ++ mark :: power, more, by simp, by simp, ?_, rfl⟩
      rintro rfl
      rw [List.append_nil] at part
      exact part (.power whole known power_whole)
    · obtain ⟨-, rfl⟩ := reads.unique (number_reads_digits whole (by rintro c ⟨⟩; simp_all))
      exact ⟨digits, mark :: more, rfl, whole.1, List.cons_ne_nil _ _, rfl⟩

end Values

section WithinWord

variable (ends : EndsColumn rest)

include ends in
theorem EndsColumn.visible : blank.Misses rest := ends.misses (by decide)

include ends in
private theorem EndsColumn.impasse : Impasse rest := by
  obtain ⟨c, rest, rfl, mark⟩ := ends
  have all : ∀ c ∈ [',', ')'], c ∈ [',', ')', '\x27', '\x22'] ∧ isQuote c = false := forall_among (by decide)
  obtain ⟨known, plain⟩ := all c mark
  exact impasse_at known fun quotes => absurd (plain.symm.trans quotes) Bool.false_ne_true

include ends in
/-- An attribute that begins within a word ends there, and is no default: nothing is left for a value. -/
private theorem WithinWord.attribute (within : WithinWord rest text) (reads : columnAttribute.Reads text nodes left) :
    WithinWord rest left ∧ ∀ node ∈ nodes, node.kind ≠ .defaultConstraint := by
  have step {part : Grammar} {place next : List Char} {nodes : List Node} (piece : attributePiece part)
      (within : WithinWord rest place) (reads : part.Reads place nodes next) : WithinWord rest next :=
    within.reads ends.impasse piece reads
  refine ⟨reads.invariant columnAttribute_madeOf_pieces within fun _ _ piece within _ _ => step piece within, ?_⟩
  have other {part : Grammar} (makes : part.makesLeaf (· != .defaultConstraint)) (reads : part.Reads text nodes left) :
      ∀ node ∈ nodes, node.kind ≠ .defaultConstraint := by
    obtain ⟨node, rfl, kind, -⟩ := yields_leaf makes reads.yields
    simpa using kind
  rcases reads.of_choice with reads | ⟨-, reads⟩
  · exact other (by decide) reads
  rcases reads.of_choice with reads | ⟨-, reads⟩
  · exact other (by decide) reads
  rcases reads.of_choice with reads | ⟨-, reads⟩
  · -- after the keyword the column is at its end
    obtain ⟨_, _, _, front, value, -⟩ := reads.of_seq
    obtain ⟨_, _, _, default, gap, -⟩ := front.of_seq
    obtain ⟨_, _, -, committed, -⟩ := value.of_leaf
    rw [within.keyword (by decide) ends.continuesWord default] at gap
    have last : WithinWord rest rest := ⟨[], by simp, rfl⟩
    rw [(gap.unique (last.visible ends.visible).many).2] at committed
    have missed : (Grammar.value).Misses rest := ends.misses (by decide)
    exact absurd missed committed.of_commit.not_misses
  · exact other (by decide) reads

include ends in
private theorem WithinWord.attributes (within : WithinWord rest text)
    (reads : (many (Grammar.blanks ++ columnAttribute)).Reads text nodes left) :
    ∀ node ∈ nodes, node.kind ≠ .defaultConstraint := by
  induction hn : text.length using Nat.strongRecOn generalizing text nodes with
  | ind n ih =>
    rcases reads.of_many with ⟨first, more, between, turn, shorter, others, rfl⟩ | ⟨-, rfl, -⟩
    · obtain ⟨later, plain⟩ := within.attribute ends ((within.visible ends.visible).many.then_iff.mp turn)
      have rest := ih between.length (by omega) later others rfl
      intro node hnode
      rcases List.mem_append.mp hnode with hnode | hnode
      · exact plain node hnode
      · exact rest node hnode
    · simp

end WithinWord

section Columns

variable (nonempty : word ≠ []) (run : ∀ c ∈ word, isWordChar c) (ends : EndsColumn rest)

private theorem int_reads {refused : Lexeme → Bool} (stop : WordEnds text) (next : Written.Next refused text)
    (closed : Written.endsType refused) :
    typeName.Reads ("INT".toList ++ text) [.leaf (.dataType .dimension) "INT"] text :=
  Written.TypeWord.typeName_reads ⟨"INT", .dimension, by decide⟩ ⟨by decide, by decide, by decide, stop⟩
    next closed

include ends in
private theorem plain_reads :
    columnBody.Reads (' ' :: ("INT".toList ++ rest)) [.leaf (.dataType .dimension) "INT"] rest := by
  obtain ⟨c, mark, refuses, -⟩ := ends.refuses
  have visible : blank.Misses rest := ends.misses (by decide)
  have next : Written.Next (refusedAt c) rest := ⟨rest, visible.many, refuses⟩
  have closed : ∀ c ∈ [',', ')'], Written.endsType (refusedAt c) ∧ Grammar.group.blocked (refusedAt c) ∧
      typeModifier.blocked (refusedAt c) ∧ columnAttribute.blocked (refusedAt c) := forall_among (by decide)
  obtain ⟨type, group, modifier, final⟩ := closed c mark
  have typed := int_reads (ends.head (by decide)) next type
  exact (columnBody_of_type typed).mpr
    ⟨[], rfl, ((next.optional group).seq (next.many modifier)).seq (next.many final)⟩

private theorem default_begins (text : List Char) : BeginsWithWord "DEFAULT" "DEFAULT".toList (' ' :: text) :=
  ⟨by decide, by decide, by decide, by rintro c ⟨⟩; decide⟩

/-- A default, which is an attribute of a column. -/
private def defaultAttribute : Grammar :=
  keyword "DEFAULT" ++ Grammar.blanks ++ .leaf .defaultConstraint (commit "default value" value)

private theorem default_head (visible : blank.Misses text) :
    (keyword "DEFAULT" ++ Grammar.blanks).Reads ("DEFAULT".toList ++ ' ' :: text) [] text :=
  (default_begins text).keyword_reads.seq (blanks_read_space rfl visible.many)

private theorem default_not_misses (visible : blank.Misses text) :
    ¬ defaultAttribute.Misses ("DEFAULT".toList ++ ' ' :: text) := by
  intro missed
  rcases missed.of_seq with missed | ⟨_, _, _, missed⟩
  · exact absurd missed (default_head visible).not_misses
  · exact absurd missed (sure_not_misses rfl)

/-- A default is read as its value. -/
private theorem default_reads_iff (visible : blank.Misses text) :
    columnAttribute.Reads ("DEFAULT".toList ++ ' ' :: text) nodes left ↔ ∃ taken inner, text = taken ++ left ∧
      value.Reads text inner left ∧ nodes = leafOf .defaultConstraint taken := by
  have head := default_head visible
  have refuses := (default_begins text).refuses
  rw [columnAttribute, (misses_of_blocked refuses (by decide)).orElse_iff,
    (misses_of_blocked refuses (by decide)).orElse_iff]
  constructor
  · intro reads
    rcases reads.of_choice with reads | ⟨missed, -⟩
    · obtain ⟨taken, inner, split, committed, same⟩ := (head.then_iff.mp reads).of_leaf
      exact ⟨taken, inner, split, committed.of_commit, same⟩
    · exact absurd missed (default_not_misses visible)
  · rintro ⟨taken, inner, rfl, reads, rfl⟩
    exact (head.then_iff.mpr ((reads.commit "default value").leaf .defaultConstraint)).orElse

private theorem default_column_reads_iff (visible : blank.Misses text) :
    columnBody.Reads (' ' :: ("INT DEFAULT ".toList ++ text)) nodes left ↔ ∃ taken inner after more,
      text = taken ++ after ∧ value.Reads text inner after ∧
        (many (Grammar.blanks ++ columnAttribute)).Reads after more left ∧
        nodes = .leaf (.dataType .dimension) "INT" :: (leafOf .defaultConstraint taken ++ more) := by
  have begins := default_begins text
  have shown : blank.Misses ("DEFAULT".toList ++ ' ' :: text) := misses_of_blocked begins.refuses (by decide)
  have gap : Grammar.blanks.Reads (' ' :: ("DEFAULT".toList ++ ' ' :: text)) [] ("DEFAULT".toList ++ ' ' :: text) :=
    blanks_read_space rfl shown.many
  have next : Written.Next (refusedAtWord "DEFAULT") (' ' :: ("DEFAULT".toList ++ ' ' :: text)) :=
    ⟨_, gap, begins.refuses⟩
  have unsized : (Grammar.blanks ++ Grammar.group).Misses (' ' :: ("DEFAULT".toList ++ ' ' :: text)) :=
    next.misses (by decide)
  have unmodified : (Grammar.blanks ++ typeModifier).Misses (' ' :: ("DEFAULT".toList ++ ' ' :: text)) :=
    next.misses (by decide)
  have bare := unsized.optional.seq unmodified.many
  refine (columnBody_of_type (int_reads (by rintro c ⟨⟩; decide) next (by decide))).trans ?_
  constructor
  · rintro ⟨_, rfl, reads⟩
    rcases (bare.then_iff.mp reads).of_many with ⟨_, more, after, turn, -, others, rfl⟩ | ⟨missed, -⟩
    · obtain ⟨taken, inner, split, value, rfl⟩ := (default_reads_iff visible).mp (gap.then_iff.mp turn)
      exact ⟨taken, inner, after, more, split, value, others, rfl⟩
    · rcases missed.of_seq with missed | ⟨_, _, reads, missed⟩
      · exact absurd missed gap.not_misses
      · obtain ⟨-, rfl⟩ := reads.unique gap
        exact absurd missed.of_choice.2.of_choice.2.of_choice.1 (default_not_misses visible)
  · rintro ⟨taken, inner, after, more, split, value, others, rfl⟩
    have turn := gap.seq ((default_reads_iff visible).mpr ⟨taken, inner, split, value, rfl⟩)
    exact ⟨_, rfl, bare.then_iff.mpr (turn.many rfl others)⟩

end Columns

theorem told_default (nonempty : word ≠ []) (run : ∀ c ∈ word, isWordChar c) (column : Column) :
    (leafOf .defaultConstraint word).foldl Column.told column =
      { column with defaultValue := some (String.ofList word) } := by
  have visible : ∀ c ∈ word, isBlank c = false := by
    intro c hc
    by_contra blank
    have plain := isWordChar_of_isBlank (by simpa using blank)
    simp [run c hc] at plain
  have whole : nonempty? (trimmed (String.ofList word)) = some (String.ofList word) := by
    rw [trimmed, String.toList_ofList, trim_eq_self_of_all visible, nonempty?, if_neg (by simpa using nonempty)]
  rw [leafOf, List.foldl_cons, List.foldl_nil, Column.told]
  simp only [Node.leaf, whole]

theorem foldl_told_defaultValue {nodes : List Node} (plain : ∀ node ∈ nodes, node.kind ≠ .defaultConstraint)
    (column : Column) : (nodes.foldl Column.told column).defaultValue = column.defaultValue := by
  induction nodes generalizing column with
  | nil => rfl
  | cons node nodes ih =>
    rw [List.foldl_cons, ih fun other hother => plain other (List.mem_cons_of_mem node hother)]
    have other := plain node List.mem_cons_self
    obtain ⟨kind, text, children⟩ := node
    cases kind <;> first | contradiction | simp only [Column.told]

/-- A word is recorded whole as a column's default if it begins with no digit or is a number: the package that is
built then differs from the one without the default in nothing else. Of any other word, if a package is built at all,
no more is recorded than the digits, perhaps with an exponent, that it begins with. -/
theorem word_default_is_whole_or_number (settings : Settings) (place : ColumnPlace) (nonempty : word ≠ [])
    (run : ∀ c ∈ word, isWordChar c) (ends : EndsColumn rest) {package : Package}
    (built : (buildPackage settings (String.ofList (place.script ("INT".toList ++ rest)))).result = .ok package) :
    ∃ (column : Column) (columns : List Column) (tables : List Table),
      package.tables = place.tables.map Node.table ++
        ⟨tableName place.reference, Node.columns place.definitions ++ column :: columns⟩ :: tables ∧
      (TakenWhole word → ∃ twin : Package, (buildPackage settings
          (String.ofList (place.script ("INT DEFAULT ".toList ++ (word ++ rest))))).result = .ok twin ∧
        twin.tables = place.tables.map Node.table ++ ⟨tableName place.reference, Node.columns place.definitions ++
          { column with defaultValue := some (String.ofList word) } :: columns⟩ :: tables) ∧
      (¬ TakenWhole word → ∀ twin : Package, (buildPackage settings
          (String.ofList (place.script ("INT DEFAULT ".toList ++ (word ++ rest))))).result = .ok twin →
        ∃ (number more : List Char) (column : Column) (columns : List Column) (tables : List Table),
          word = number ++ more ∧ number ≠ [] ∧ more ≠ [] ∧
          column.defaultValue = some (String.ofList number) ∧
          twin.tables = place.tables.map Node.table ++
            ⟨tableName place.reference, Node.columns place.definitions ++ column :: columns⟩ :: tables) := by
  have visible : blank.Misses (word ++ rest) := WithinWord.visible ⟨word, run, rfl⟩ ends.visible
  obtain ⟨_, parsed, rfl⟩ := buildPackage_ok_iff.mp built
  obtain ⟨_, definitions, _, left, body, defined, sound, rfl⟩ := (place.parse_iff _).mp parsed
  obtain ⟨rfl, same⟩ := body.unique (plain_reads ends)
  rw [same] at defined
  refine ⟨_, _, _, place.tables_packageNamed settings.packageName _ definitions (readFrom left).tables, ?_, ?_⟩
  · intro whole
    have last : WithinWord rest rest := ⟨[], by simp, rfl⟩
    have attributeless : columnAttribute.Misses rest := ends.misses (by decide)
    have final := ((last.visible ends.visible).many.seq_misses attributeless).many
    have body := (default_column_reads_iff visible).mpr
      ⟨word, [], rest, [], rfl, value_reads nonempty run ends whole, final, rfl⟩
    have reparsed := (place.parse_iff _).mpr ⟨_, definitions, _, left, body, defined, sound, rfl⟩
    refine ⟨_, buildPackage_ok_iff.mpr ⟨_, reparsed, rfl⟩, ?_⟩
    rw [place.tables_packageNamed, List.append_nil, ColumnPlace.column, Node.column, List.foldl_cons,
      told_default nonempty run]
    rfl
  · intro part twin rebuilt
    obtain ⟨_, parsed, rfl⟩ := buildPackage_ok_iff.mp rebuilt
    obtain ⟨_, definitions, _, left, body, -, -, rfl⟩ := (place.parse_iff _).mp parsed
    obtain ⟨taken, inner, after, more, split, value, others, rfl⟩ := (default_column_reads_iff visible).mp body
    obtain ⟨number, back, rfl, begun, stopped, rfl⟩ := value_stops nonempty run ends part value
    rw [List.append_assoc] at split
    obtain rfl := List.append_cancel_right split
    have plain := WithinWord.attributes ends ⟨back, fun c hc => run c (List.mem_append_right number hc), rfl⟩ others
    refine ⟨number, back, _, _, _, rfl, begun, stopped, ?_, place.tables_packageNamed _ _ _ _⟩
    have digits : ∀ c ∈ number, isWordChar c := fun c hc => run c (List.mem_append_left back hc)
    rw [ColumnPlace.column, Node.column, List.foldl_cons, List.foldl_append, foldl_told_defaultValue plain,
      told_default begun digits]

private def firstColumn : ColumnPlace where
  front := []
  tables := []
  foregoing := foregoing_nothing
  schemas := []
  last := .word ['p'] (by decide) (forall_among (by decide))
  leading := []
  definitions := []
  leads := .nil
  name := .word ['n'] (by decide) (forall_among (by decide))
  columnar rest := misses_of_blocked (refuses_at 'n' (' ' :: rest)) (by decide)

/-- A number with an exponent, before another column. -/
theorem power_default_is_recorded :
    let table (default : Option String) : Table :=
      ⟨"p", [{ name := "n", goType := "int64", defaultValue := default }, { name := "m", goType := "int64" }]⟩
    (buildPackage {} "CREATE TABLE p (n INT, m INT)").result = .ok { tables := [table none] } ∧
      ∃ twin, (buildPackage {} "CREATE TABLE p (n INT DEFAULT 1e3, m INT)").result = .ok twin ∧
        twin.tables = [table (some "1e3")] := by
  intro table
  have built : (buildPackage {} "CREATE TABLE p (n INT, m INT)").result = .ok { tables := [table none] } := by
    decide +kernel
  have ends : EndsColumn ", m INT)".toList := ⟨',', " m INT)".toList, rfl, by decide⟩
  have number : TakenWhole ("1".toList ++ 'e' :: "3".toList) :=
    .power ⟨by decide, forall_among (by decide)⟩ (by decide) ⟨by decide, forall_among (by decide)⟩
  have chars : ∀ c ∈ "1e3".toList, isWordChar c := forall_among (by decide)
  have bare : String.ofList (firstColumn.script ("INT".toList ++ ", m INT)".toList)) =
      "CREATE TABLE p (n INT, m INT)" := by decide +kernel
  have written : String.ofList (firstColumn.script ("INT DEFAULT ".toList ++ ("1e3".toList ++ ", m INT)".toList))) =
      "CREATE TABLE p (n INT DEFAULT 1e3, m INT)" := by decide +kernel
  obtain ⟨column, columns, tables, told, whole, -⟩ :=
    word_default_is_whole_or_number {} firstColumn (by decide) chars ends (bare ▸ built)
  have created : tableName firstColumn.reference = "p" := by decide +kernel
  obtain ⟨twin, rebuilt, retold⟩ := whole number
  refine ⟨built, twin, written ▸ rebuilt, ?_⟩
  rw [created] at told retold
  change [table none] = [] ++ ⟨"p", [] ++ column :: columns⟩ :: tables at told
  obtain ⟨same, rfl⟩ := List.cons.inj told
  obtain ⟨rfl, rfl⟩ := List.cons.inj (Table.mk.inj same).2
  exact retold

/-- A hexadecimal literal is cut at its `x`, and what is left of it is refused. A word that only begins with digits is
cut after them as well, and what is left of it may happen to be an attribute. -/
theorem hexadecimal_default_is_cut :
    (buildPackage {} "CREATE TABLE t (a INT DEFAULT 0x1F)").result =
        .error (.parse ⟨31, "expected ',' or ')' near 'x1F)'"⟩) ∧
      (buildPackage {} "CREATE TABLE t (a INT DEFAULT 42NULL)").result =
        .ok { tables := [⟨"t", [{ name := "a", goType := "int64", defaultValue := some "42" }]⟩] } := by
  decide +kernel

end DdlModels.Sql
