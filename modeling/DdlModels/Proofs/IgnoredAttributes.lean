import DdlModels.Proofs.QualifiedNames
import DdlModels.Proofs.SwappedColumns
import DdlModels.Proofs.WrittenColumns

/-!
# Ignored attributes

Attributes that say nothing about a column's field, as they are written. Each is read whole, as one attribute, where
nothing after it belongs to it.
-/

namespace DdlModels.Written

open Sql Text Grammar

/-- A word that is no number, and that begins nothing that may happen to a row. -/
structure PlainWord where
  text : List Char
  nonempty : text ≠ []
  chars : ∀ c ∈ text, isWordChar c
  digitless : ∀ c ∈ text.head?, c.isDigit = false
  plain : ∀ name ∈ ["SET", "NO", "RESTRICT", "CASCADE"], ¬ Spells name text

/-- What is to happen to a row when the row that it refers to is deleted or updated. -/
structure ReferentialAction where
  event : String
  response : List String
  events : event ∈ ["DELETE", "UPDATE"]
  responses : response ∈ [["RESTRICT"], ["CASCADE"], ["NO", "ACTION"], ["SET", "NULL"], ["SET", "DEFAULT"]]

def keywordTokens (names : List String) : List Token := names.map fun name => { form := .word name }

/-- A group, which needs no gap before it. -/
def Group.token (group : Group) : Token := { spacing := .free, form := .exact group.text }

def ReferentialAction.tokens (action : ReferentialAction) : List Token :=
  keywordTokens ("ON" :: action.event :: action.response)

/-- An attribute that says nothing about the field of its column. -/
inductive IgnoredAttribute where
  | autoIncrement
  | primaryKey
  | uniqueKey
  | collation (name : Identifier)
  | generation (always : Bool) (expression : Group)
  | onUpdate (value : PlainWord)
  | check (name : Option String) (condition : Group)
  | reference (schemas : List Identifier) (table : Identifier) (columns : Group) (actions : List ReferentialAction)

namespace IgnoredAttribute

def kind : IgnoredAttribute → NodeKind
  | autoIncrement => .autoIncrementConstraint
  | primaryKey => .primaryKeyConstraint
  | uniqueKey => .uniqueKeyConstraint
  | _ => .otherColumnConstraint

def keyword : IgnoredAttribute → String
  | autoIncrement => "AUTO_INCREMENT"
  | primaryKey => "PRIMARY"
  | uniqueKey => "UNIQUE"
  | collation _ => "COLLATE"
  | generation true _ => "GENERATED"
  | generation false _ => "AS"
  | onUpdate _ => "ON"
  | check (some _) _ => "CONSTRAINT"
  | check none _ => "CHECK"
  | reference .. => "REFERENCES"

def further : IgnoredAttribute → List Token
  | autoIncrement => []
  | primaryKey | uniqueKey => keywordTokens ["KEY"]
  | collation name => [{ form := .exact name.written }]
  | generation true expression => keywordTokens ["ALWAYS", "AS"] ++ [expression.token]
  | generation false expression => [expression.token]
  | onUpdate value => keywordTokens ["UPDATE"] ++ [{ form := .exact value.text }]
  | check (some name) condition =>
    { form := .exact (enquote '\x60' name.toList) } :: keywordTokens ["CHECK"] ++ [condition.token]
  | check none condition => [condition.token]
  | reference schemas table columns actions =>
    { form := .exact (Identifier.dotted schemas table) } :: columns.token :: actions.flatMap ReferentialAction.tokens

def tokens (item : IgnoredAttribute) : List Token := { spacing := .free, form := .word item.keyword } :: item.further

def isCollation : IgnoredAttribute → Bool
  | collation _ => true
  | _ => false

def isReference : IgnoredAttribute → Bool
  | reference .. => true
  | _ => false

end IgnoredAttribute

variable {tokens : List Token} {text rest : List Char} {name : String} {spacing : Spacing} {piece : List Char}

/-- A layout, and a space and the rest of a text after it. -/
def LaidBefore (rest : List Char) (tokens : List Token) (text : List Char) : Prop :=
  ∃ front, Laid tokens front ∧ text = front ++ ' ' :: rest

/-- What stands first here is a gap or a parenthesis, so that a keyword or a name before it is at its end. -/
def Parted (tokens : List Token) : Prop :=
  ∀ ⦃rest text⦄, LaidBefore rest tokens text → ∀ c ∈ text.head?, c ∈ '(' :: gapStarts

theorem LaidBefore.startsGap (h : LaidBefore rest tokens text) (gapped : Gapped tokens) : StartsGap text := by
  obtain ⟨front, laid, rfl⟩ := h
  intro c hc
  cases front with
  | nil =>
    obtain rfl := Option.some.inj hc
    decide
  | cons d front => exact laid.startsGap gapped c hc

theorem parted_of_gapped (gapped : Gapped tokens) : Parted tokens :=
  fun _ _ laid c hc => List.mem_cons_of_mem _ (laid.startsGap gapped c hc)

theorem parted_nil : Parted [] := parted_of_gapped (by simp [Gapped])

theorem parted_group (group : Group) (tokens : List Token) : Parted (group.token :: tokens) := by
  rintro rest _ ⟨front, laid, rfl⟩ c hc
  cases laid with
  | @token _ _ gap piece more allows writes laid =>
    obtain rfl : piece = group.text := writes
    obtain ⟨inner, whole, -⟩ := group.text_eq
    cases gap with
    | nil =>
      rw [whole] at hc
      obtain rfl := Option.some.inj hc
      exact List.mem_cons_self
    | cons d gap =>
      have start := allows.gap.startsGap_of_ne (List.cons_ne_nil d gap) (group.text ++ more)
      exact List.mem_cons_of_mem _ (start c hc)

theorem Parted.head {P : Char → Prop} (parted : Parted tokens) (laid : LaidBefore rest tokens text)
    (all : ∀ c ∈ '(' :: gapStarts, P c) : ∀ c ∈ text.head?, P c :=
  fun c hc => all c (parted laid c hc)

theorem Parted.wordEnds (parted : Parted tokens) (laid : LaidBefore rest tokens text) : WordEnds text :=
  parted.head laid (forall_among (by decide))

theorem Parted.endsName (parted : Parted tokens) (laid : LaidBefore rest tokens text) : EndsName text := by
  have stops : ∀ c ∈ text.head?, (isWordChar c = false ∧ c ∉ ['\x60', '\x22']) ∧ c ≠ '.' :=
    parted.head laid (forall_among (by decide))
  exact ⟨fun c hc => (stops c hc).1, fun dot => (stops '.' dot).2 rfl⟩

namespace LaidBefore

theorem skipBlanks_eq (h : LaidBefore rest [] text) : Script.skipBlanks text = Script.skipBlanks rest := by
  obtain ⟨gap, laid, rfl⟩ := h
  cases laid with
  | done gap => exact Sql.skipBlanks_eq (gap.before (blanks_read_space rfl (blanks_read rest).1))

theorem word (h : LaidBefore rest (⟨spacing, .word name⟩ :: tokens) text) (parted : Parted tokens)
    (keyword : name ≠ "" ∧ name.toList.all isKeywordChar) :
    ∃ word more, Grammar.blanks.Reads text [] (word ++ more) ∧ BeginsWithWord name word more ∧
      LaidBefore rest tokens more := by
  obtain ⟨_, laid, rfl⟩ := h
  cases laid with
  | @token _ _ gap word front allows writes laid =>
    have later : LaidBefore rest tokens (front ++ ' ' :: rest) := ⟨front, laid, rfl⟩
    have begins : BeginsWithWord name word (front ++ ' ' :: rest) :=
      ⟨writes, keyword.1, keyword.2, parted.wordEnds later⟩
    have visible : blank.Misses (word ++ (front ++ ' ' :: rest)) := misses_of_blocked begins.refuses (by rfl)
    refine ⟨word, _, ?_, begins, later⟩
    rw [List.append_assoc, List.append_assoc]
    exact allows.gap.reads visible

theorem exact (h : LaidBefore rest (⟨spacing, .exact piece⟩ :: tokens) text)
    (visible : ∀ more, blank.Misses (piece ++ more)) :
    ∃ more, Grammar.blanks.Reads text [] (piece ++ more) ∧ LaidBefore rest tokens more := by
  obtain ⟨_, laid, rfl⟩ := h
  cases laid with
  | @token _ _ gap _ front allows writes laid =>
    obtain rfl := writes
    refine ⟨front ++ ' ' :: rest, ?_, front, laid, rfl⟩
    rw [List.append_assoc, List.append_assoc]
    exact allows.gap.reads (visible _)

theorem group {group : Group} (h : LaidBefore rest (group.token :: tokens) text) :
    ∃ more, (Grammar.blanks ++ .group).Reads text [] more ∧ LaidBefore rest tokens more := by
  obtain ⟨more, gap, later⟩ := h.exact group.visible
  exact ⟨more, gap.seq (group.reads more), later⟩

theorem phrase {names : List String} (known : ∀ word ∈ name :: names, word ≠ "" ∧ word.toList.all isKeywordChar)
    (parted : Parted tokens) (h : LaidBefore rest (keywordTokens (name :: names) ++ tokens) text) :
    ∃ word more left, Grammar.blanks.Reads text [] (word ++ more) ∧ BeginsWithWord name word more ∧
      (Grammar.phrase name names).Reads (word ++ more) [] left ∧ LaidBefore rest tokens left := by
  induction names generalizing name text with
  | nil =>
    obtain ⟨word, more, gap, begins, later⟩ := LaidBefore.word h parted (known name List.mem_cons_self)
    exact ⟨word, more, more, gap, begins, begins.keyword_reads, later⟩
  | cons next names ih =>
    obtain ⟨word, more, gap, begins, later⟩ :=
      LaidBefore.word h (parted_of_gapped gapped_of_apart) (known name List.mem_cons_self)
    obtain ⟨word', more', left, gap', -, reads, last⟩ :=
      ih (fun word hword => known word (List.mem_cons_of_mem name hword)) later
    exact ⟨word, more, left, gap, begins, (begins.keyword_reads.seq gap').seq reads, last⟩

end LaidBefore

section Choices

variable {refused : Lexeme → Bool} {part : Grammar} {nodes : List Node} {word more left : List Char}

/-- The first of a grammar's alternatives that these lexemes do not refuse. -/
def chosen (refused : Lexeme → Bool) : Grammar → Grammar
  | .choice first second => if first.blocked refused then chosen refused second else first
  | grammar => grammar

theorem reads_of_chosen {grammar : Grammar} (refuses : Refuses refused text)
    (reads : (chosen refused grammar).Reads text nodes left) :
    grammar.Reads text nodes left := by
  induction grammar with
  | choice first second _ ih =>
    rw [chosen] at reads
    split at reads
    case isTrue blocked => exact (misses_of_blocked refuses blocked).orElse (ih reads)
    case isFalse => exact reads.orElse
  | _ => exact reads

theorem attribute_reads (kind : NodeKind) (begins : BeginsWithWord name word more)
    (known : chosen (refusedAtWord name) columnAttribute = .leaf kind part)
    (reads : part.Reads (word ++ more) [] left) :
    ∃ node, columnAttribute.Reads (word ++ more) [node] left ∧ node.kind = kind := by
  obtain ⟨taken, split⟩ := reads.splits
  rw [split] at reads
  have leaf := reads.leaf kind
  rw [← split, ← known] at leaf
  exact ⟨_, reads_of_chosen begins.refuses leaf, rfl⟩

/-- The attributes that are no nodes of a kind of their own, by the keywords that they begin with. -/
def otherAttributes : List (String × Grammar) :=
  [("COLLATE", collation), ("GENERATED", generation), ("AS", generation), ("ON", onUpdate), ("CONSTRAINT", check),
    ("CHECK", check), ("REFERENCES", reference)]

theorem otherAttribute_reads (begins : BeginsWithWord name word more) (known : (name, part) ∈ otherAttributes)
    (reads : part.Reads (word ++ more) [] left) :
    ∃ node, columnAttribute.Reads (word ++ more) [node] left ∧ node.kind = .otherColumnConstraint := by
  have all : ∀ pair ∈ otherAttributes,
      chosen (refusedAtWord pair.1) columnAttribute = .leaf .otherColumnConstraint otherAttribute ∧
        chosen (refusedAtWord pair.1) otherAttribute = pair.2 := by decide
  obtain ⟨kept, alternative⟩ := all _ known
  exact attribute_reads _ begins kept (reads_of_chosen begins.refuses (alternative ▸ reads))

end Choices

section Pieces

variable {word more : List Char}

theorem collation_reads {name : Identifier} (begins : BeginsWithWord "COLLATE" word more)
    (h : LaidBefore rest (IgnoredAttribute.collation name).further more) :
    ∃ left, collation.Reads (word ++ more) [] left ∧ LaidBefore rest [] left := by
  obtain ⟨left, gap, last⟩ := h.exact name.blank_misses
  have ends := parted_nil.endsName last
  have unassigned : (symbol '=').Misses (name.written ++ left) := name.symbol_misses (by decide) left
  have named := ((gap.seq unassigned.optional).seq (name.blank_misses left).many).seq (name.reads ends.1)
  exact ⟨left, begins.keyword_reads.seq named, last⟩

theorem PlainWord.visible (value : PlainWord) (more : List Char) : blank.Misses (value.text ++ more) := by
  obtain ⟨c, word, whole⟩ := List.exists_cons_of_ne_nil value.nonempty
  have first : isWordChar c := value.chars c (whole ▸ List.mem_cons_self)
  rw [whole]
  exact misses_of_blocked (refuses_wordChar first (word ++ more)) (by decide)

theorem onUpdate_reads {value : PlainWord} (begins : BeginsWithWord "ON" word more)
    (h : LaidBefore rest (IgnoredAttribute.onUpdate value).further more) :
    ∃ left, onUpdate.Reads (word ++ more) [] left ∧ LaidBefore rest [] left := by
  obtain ⟨word', more', gap, begins', later⟩ := LaidBefore.word h (parted_of_gapped gapped_of_apart) (by decide)
  obtain ⟨left, gap', last⟩ := later.exact value.visible
  have all : ∀ c ∈ gapStarts, isWordChar c = false ∧ c ∉ ['(', '\x27', '\x22'] := forall_among (by decide)
  have stop := fun c hc => all c (last.startsGap (by simp [Gapped]) c hc)
  have valued := value_reads_word value.nonempty value.chars value.digitless stop
  exact ⟨left, (((begins.keyword_reads.seq gap).seq begins'.keyword_reads).seq gap').seq valued, last⟩

theorem generation_reads {always : Bool} {expression : Group}
    (computed : (Grammar.blanks ++ anyKeyword "VIRTUAL" ["STORED"]).Misses rest)
    (begins : BeginsWithWord (IgnoredAttribute.generation always expression).keyword word more)
    (h : LaidBefore rest (IgnoredAttribute.generation always expression).further more) :
    ∃ left, generation.Reads (word ++ more) [] left ∧ LaidBefore rest [] left := by
  have ending {start text : List Char}
      (front : (.optional (phrase "GENERATED" ["ALWAYS"] ++ Grammar.blanks) ++ keyword "AS").Reads start [] text)
      (h : LaidBefore rest [expression.token] text) :
      ∃ left, generation.Reads start [] left ∧ LaidBefore rest [] left := by
    obtain ⟨left, grouped, last⟩ := h.group
    have stored := ((blanks_misses_iff last.skipBlanks_eq).mpr computed).optional
    exact ⟨left, (reads_assoc.mpr (front.seq grouped)).seq stored, last⟩
  cases always with
  | true =>
    replace begins : BeginsWithWord "GENERATED" word more := begins
    obtain ⟨word', more', gap, begins', later⟩ := LaidBefore.word h (parted_of_gapped gapped_of_apart) (by decide)
    obtain ⟨word'', more'', gap', begins'', later'⟩ := LaidBefore.word later (parted_group expression []) (by decide)
    have front := ((begins.keyword_reads.seq gap).seq begins'.keyword_reads).seq gap'
    exact ending (front.optional.seq begins''.keyword_reads) later'
  | false =>
    replace begins : BeginsWithWord "AS" word more := begins
    have plain : (phrase "GENERATED" ["ALWAYS"] ++ Grammar.blanks).Misses (word ++ more) :=
      misses_of_blocked begins.refuses (by decide)
    exact ending (plain.optional.seq begins.keyword_reads) h

theorem check_reads {name : Option String} {condition : Group}
    (begins : BeginsWithWord (IgnoredAttribute.check name condition).keyword word more)
    (h : LaidBefore rest (IgnoredAttribute.check name condition).further more) :
    ∃ left, check.Reads (word ++ more) [] left ∧ LaidBefore rest [] left := by
  cases name with
  | some name =>
    replace begins : BeginsWithWord "CONSTRAINT" word more := begins
    have visible (rest : List Char) : blank.Misses (enquote '\x60' name.toList ++ rest) :=
      misses_of_blocked (refuses_at '\x60' _) (by decide)
    obtain ⟨between, gap, later⟩ := LaidBefore.exact h visible
    obtain ⟨word', more', gap', begins', later'⟩ := LaidBefore.word later (parted_group condition []) (by decide)
    obtain ⟨left, grouped, last⟩ := later'.group
    have apart : between.head? ≠ some '\x60' := (later.startsGap gapped_of_apart).head_ne (by decide)
    have named : identifier.Reads (enquote '\x60' name.toList ++ between) [] between :=
      (readQuoted_enquote (by decide) (.inl rfl) apart).orElse
    have other : (keyword "CHECK").Misses (enquote '\x60' name.toList ++ between) :=
      misses_of_blocked (refuses_at '\x60' _) (by decide)
    have front := (begins.keyword_reads.seq gap).seq ((other.butNot named).seq gap').optional
    exact ⟨left, reads_assoc.mpr ((front.optional.seq begins'.keyword_reads).seq grouped), last⟩
  | none =>
    replace begins : BeginsWithWord "CHECK" word more := begins
    obtain ⟨left, grouped, last⟩ := LaidBefore.group h
    have unnamed : (keyword "CONSTRAINT" ++ Grammar.blanks ++
        .optional (.butNot (keyword "CHECK") identifier ++ Grammar.blanks)).Misses (word ++ more) :=
      misses_of_blocked begins.refuses (by decide)
    exact ⟨left, reads_assoc.mpr ((unnamed.optional.seq begins.keyword_reads).seq grouped), last⟩

end Pieces

theorem actionWords_reads {response : List String}
    (known : response ∈ [["RESTRICT"], ["CASCADE"], ["NO", "ACTION"], ["SET", "NULL"], ["SET", "DEFAULT"]])
    (gapped : Gapped tokens) (h : LaidBefore rest (keywordTokens response ++ tokens) text) :
    ∃ left, (Grammar.blanks ++ actionWords).Reads text [] left ∧ LaidBefore rest tokens left := by
  have first {name : String} {names : List String}
      (chars : ∀ word ∈ name :: names, word ≠ "" ∧ word.toList.all isKeywordChar)
      (known : chosen (refusedAtWord name) actionWords = phrase name names)
      (h : LaidBefore rest (keywordTokens (name :: names) ++ tokens) text) :
      ∃ left, (Grammar.blanks ++ actionWords).Reads text [] left ∧ LaidBefore rest tokens left := by
    obtain ⟨word, more, left, gap, begins, reads, later⟩ := LaidBefore.phrase chars (parted_of_gapped gapped) h
    exact ⟨left, gap.seq (reads_of_chosen begins.refuses (known ▸ reads)), later⟩
  simp only [List.mem_cons, List.not_mem_nil, or_false] at known
  rcases known with rfl | rfl | rfl | rfl | rfl
  · exact first (by decide) (by decide) h
  · exact first (by decide) (by decide) h
  · exact first (by decide) (by decide) h
  · exact first (by decide) (by decide) h
  · -- the same keyword begins an alternative before this one
    obtain ⟨word, more, gap, begins, later⟩ := LaidBefore.word h (parted_of_gapped gapped_of_apart) (by decide)
    obtain ⟨word', more', gap', begins', last⟩ := LaidBefore.word later (parted_of_gapped gapped) (by decide)
    have front := begins.keyword_reads.seq gap'
    have other : (phrase "SET" ["NULL"]).Misses (word ++ more) :=
      front.seq_misses (misses_of_blocked begins'.refuses (by decide))
    exact ⟨more', gap.seq (other.orElse (front.seq begins'.keyword_reads).orElse), last⟩

theorem ReferentialAction.reads (action : ReferentialAction) (gapped : Gapped tokens)
    (h : LaidBefore rest (action.tokens ++ tokens) text) :
    ∃ left, (Grammar.blanks ++ referenceAction).Reads text [] left ∧ LaidBefore rest tokens left := by
  obtain ⟨event, response, events, responses⟩ := action
  have apart : Gapped (keywordTokens response ++ tokens) := by
    cases response with
    | nil => exact gapped
    | cons name names => exact gapped_of_apart
  have named : ∀ event ∈ ["DELETE", "UPDATE"], event ≠ "" ∧ event.toList.all isKeywordChar := by decide
  obtain ⟨word, more, gap, begins, later⟩ := LaidBefore.word h (parted_of_gapped gapped_of_apart) (by decide)
  obtain ⟨word', more', gap', begins', later'⟩ := LaidBefore.word later (parted_of_gapped apart) (named event events)
  obtain ⟨left, answer, last⟩ := actionWords_reads responses gapped later'
  have front := (begins.keyword_reads.seq gap').seq
    (begins'.anyKeyword_reads events fun other hother => (named other hother).2)
  exact ⟨left, gap.seq (reads_assoc.mpr (front.seq answer)), last⟩

theorem gapped_actions (actions : List ReferentialAction) : Gapped (actions.flatMap ReferentialAction.tokens) := by
  cases actions with
  | nil => simp [Gapped]
  | cons action actions => exact gapped_of_apart

theorem actions_read (actions : List ReferentialAction) (ends : (Grammar.blanks ++ referenceAction).Misses rest)
    (h : LaidBefore rest (actions.flatMap ReferentialAction.tokens) text) :
    ∃ left, (many (Grammar.blanks ++ referenceAction)).Reads text [] left ∧ LaidBefore rest [] left := by
  induction actions generalizing text with
  | nil => exact ⟨text, ((blanks_misses_iff h.skipBlanks_eq).mpr ends).many, h⟩
  | cons action actions ih =>
    obtain ⟨between, turn, later⟩ := action.reads (gapped_actions actions) h
    obtain ⟨left, turns, last⟩ := ih later
    exact ⟨left, turn.many rfl turns, last⟩

theorem dotted_visible (schemas : List Identifier) (last : Identifier) (rest : List Char) :
    blank.Misses (Identifier.dotted schemas last ++ rest) := by
  obtain ⟨first, tail, whole, -⟩ := dotted_eq schemas last rest
  rw [whole]
  exact first.blank_misses tail

theorem reference_reads {schemas : List Identifier} {table : Identifier} {columns : Group}
    {actions : List ReferentialAction} {word more : List Char} (ends : (Grammar.blanks ++ referenceAction).Misses rest)
    (begins : BeginsWithWord "REFERENCES" word more)
    (h : LaidBefore rest (IgnoredAttribute.reference schemas table columns actions).further more) :
    ∃ left, reference.Reads (word ++ more) [] left ∧ LaidBefore rest [] left := by
  obtain ⟨between, gap, later⟩ := LaidBefore.exact h (dotted_visible schemas table)
  obtain ⟨start, grouped, later'⟩ := later.group
  obtain ⟨left, turns, last⟩ := actions_read actions ends later'
  have named := qualifiedName_reads schemas table ((parted_group columns _).endsName later)
  exact ⟨left, (((begins.keyword_reads.seq gap).seq named).seq grouped.optional).seq turns, last⟩

namespace IgnoredAttribute

def keywords : List String :=
  ["AUTO_INCREMENT", "PRIMARY", "UNIQUE", "COLLATE", "GENERATED", "AS", "ON", "CONSTRAINT", "CHECK", "REFERENCES"]

theorem keyword_mem (item : IgnoredAttribute) : item.keyword ∈ keywords := by
  cases item with
  | generation always => cases always <;> simp [keyword, keywords]
  | check name => cases name <;> simp [keyword, keywords]
  | _ => simp [keyword, keywords]

theorem keyword_proper (item : IgnoredAttribute) : item.keyword ≠ "" ∧ item.keyword.toList.all isKeywordChar := by
  have all : ∀ name ∈ keywords, name ≠ "" ∧ name.toList.all isKeywordChar := by decide
  exact all item.keyword item.keyword_mem

theorem parted_further (item : IgnoredAttribute) : Parted item.further := by
  cases item with
  | autoIncrement => exact parted_nil
  | generation always expression =>
    cases always with
    | true => exact parted_of_gapped gapped_of_apart
    | false => exact parted_group expression []
  | check name condition =>
    cases name with
    | some name => exact parted_of_gapped gapped_of_apart
    | none => exact parted_group condition []
  | _ => exact parted_of_gapped gapped_of_apart

/-- An attribute is read whole, where what follows it is not taken for a part of it. -/
theorem reads (item : IgnoredAttribute) (computed : (Grammar.blanks ++ anyKeyword "VIRTUAL" ["STORED"]).Misses rest)
    (referred : item.isReference → (Grammar.blanks ++ referenceAction).Misses rest)
    (h : LaidBefore rest item.tokens text) :
    ∃ node left, attributeTurn.Reads text [node] left ∧ node.kind = item.kind ∧ LaidBefore rest [] left := by
  obtain ⟨word, more, gap, begins, later⟩ := h.word item.parted_further item.keyword_proper
  suffices known : ∃ node left, columnAttribute.Reads (word ++ more) [node] left ∧ node.kind = item.kind ∧
      LaidBefore rest [] left by
    obtain ⟨node, left, reads, kind, last⟩ := known
    exact ⟨node, left, gap.seq reads, kind, last⟩
  have other {part : Grammar} (known : (item.keyword, part) ∈ otherAttributes)
      (kind : item.kind = .otherColumnConstraint)
      (whole : ∃ left, part.Reads (word ++ more) [] left ∧ LaidBefore rest [] left) : ∃ node left,
      columnAttribute.Reads (word ++ more) [node] left ∧ node.kind = item.kind ∧ LaidBefore rest [] left := by
    obtain ⟨left, reads, last⟩ := whole
    obtain ⟨node, turn, same⟩ := otherAttribute_reads begins known reads
    exact ⟨node, left, turn, same.trans kind.symm, last⟩
  cases item with
  | autoIncrement =>
    have whole : (anyKeyword "AUTO_INCREMENT" ["AUTOINCREMENT"]).Reads (word ++ more) [] more :=
      begins.anyKeyword_reads (by decide) (by decide)
    obtain ⟨node, reads, kind⟩ := attribute_reads .autoIncrementConstraint begins (by decide) whole
    exact ⟨node, more, reads, kind, later⟩
  | primaryKey =>
    obtain ⟨word', more', gap', begins', last⟩ := LaidBefore.word later parted_nil (by decide)
    obtain ⟨node, reads, kind⟩ := attribute_reads .primaryKeyConstraint begins (by decide)
      ((begins.keyword_reads.seq gap').optional.seq begins'.keyword_reads)
    exact ⟨node, more', reads, kind, last⟩
  | uniqueKey =>
    obtain ⟨word', more', gap', begins', last⟩ := LaidBefore.word later parted_nil (by decide)
    obtain ⟨node, reads, kind⟩ := attribute_reads .uniqueKeyConstraint begins (by decide)
      (begins.keyword_reads.seq (gap'.seq begins'.keyword_reads).optional)
    exact ⟨node, more', reads, kind, last⟩
  | collation => exact other (by simp [otherAttributes, keyword]) rfl (collation_reads begins later)
  | generation always expression =>
    have known : ((generation always expression).keyword, Grammar.generation) ∈ otherAttributes := by
      cases always <;> simp [otherAttributes, keyword]
    exact other known rfl (generation_reads computed begins later)
  | onUpdate => exact other (by simp [otherAttributes, keyword]) rfl (onUpdate_reads begins later)
  | check name condition =>
    have known : ((check name condition).keyword, Grammar.check) ∈ otherAttributes := by
      cases name <;> simp [otherAttributes, keyword]
    exact other known rfl (check_reads begins later)
  | reference => exact other (by simp [otherAttributes, keyword]) rfl (reference_reads (referred rfl) begins later)

end IgnoredAttribute

/-- A text of blanks that end before whatever follows. -/
def Skipped (gap : List Char) : Prop := ∀ rest, Script.skipBlanks (gap ++ rest) = Script.skipBlanks rest

theorem Skipped.head {gap : List Char} (skipped : Skipped gap) (rest : List Char) :
    ∃ c more, gap ++ ' ' :: rest = c :: more ∧ c ∈ blankStarts := by
  cases gap with
  | nil => exact ⟨' ', rest, rfl, by decide⟩
  | cons c gap =>
    refine ⟨c, _, rfl, ?_⟩
    by_contra visible
    have empty := skipped []
    rw [List.append_nil, skipBlanks_of_visible (blank_misses visible gap), skipBlanks_nil] at empty
    cases empty

theorem Skipped.space {gap : List Char} (skipped : Skipped gap) (rest : List Char) :
    Script.skipBlanks (gap ++ ' ' :: rest) = Script.skipBlanks rest := by
  rw [skipped, skipBlanks_space rfl]

section Actions

variable {word more : List Char}

theorem PlainWord.keyword_misses (value : PlainWord) (known : name ∈ ["SET", "NO", "RESTRICT", "CASCADE"])
    (stop : ∀ c ∈ more.head?, isWordChar c = false) : (keyword name).Misses (value.text ++ more) := by
  have all : ∀ name ∈ ["SET", "NO", "RESTRICT", "CASCADE"],
      name.toList.all isKeywordChar ∧ 'K' ∉ name.toList := by decide
  obtain ⟨chars, kelvin⟩ := all name known
  rcases readKeyword_ok_or_miss name.toList (value.text ++ more) with ⟨taken, left, found⟩ | missed
  · obtain ⟨rfl, spells⟩ := firstWord_of_readKeyword (List.all_eq_true.mp chars) kelvin found
    rw [(span_until value.chars stop).1] at spells
    exact absurd spells (value.plain name known)
  · exact missed

/-- An update with a plain word is no action of a reference. -/
theorem onUpdate_is_no_action {value : PlainWord} (begins : BeginsWithWord "ON" word more)
    (h : LaidBefore rest (IgnoredAttribute.onUpdate value).further more) : referenceAction.Misses (word ++ more) := by
  obtain ⟨word', more', gap, begins', later⟩ := LaidBefore.word h (parted_of_gapped gapped_of_apart) (by decide)
  obtain ⟨left, gap', last⟩ := later.exact value.visible
  have stop := fun c hc => (parted_nil.wordEnds last c hc).2
  have none {name : String} (known : name ∈ ["SET", "NO", "RESTRICT", "CASCADE"]) :
      (keyword name).Misses (value.text ++ left) := value.keyword_misses known stop
  have update := begins'.anyKeyword_reads (show "UPDATE" ∈ ["DELETE", "UPDATE"] by decide) (by decide)
  have actionless : actionWords.Misses (value.text ++ left) :=
    (none (by decide)).seq_first.seq_first.choice ((none (by decide)).seq_first.seq_first.choice
      ((none (by decide)).seq_first.seq_first.choice ((none (by decide)).choice (none (by decide)))))
  exact (((begins.keyword_reads.seq gap).seq update).seq gap').seq_misses actionless

end Actions

namespace IgnoredAttribute

variable {gap : List Char} (item : IgnoredAttribute) (skipped : Skipped gap) (h : LaidBefore rest item.tokens text)

omit skipped h in
theorem eq_onUpdate (same : item.keyword = "ON") : ∃ value, item = onUpdate value := by
  cases item with
  | onUpdate value => exact ⟨value, rfl⟩
  | generation always => cases always <;> simp [keyword] at same
  | check name => cases name <;> simp [keyword] at same
  | _ => simp [keyword] at same

omit skipped h in
theorem eq_collation (collates : item.isCollation) : ∃ name, item = collation name := by
  cases item with
  | collation name => exact ⟨name, rfl⟩
  | _ => cases collates

/-- What is looked for after blanks where an attribute or a type ends. -/
def soughtApart : List Grammar :=
  .group :: referenceAction :: anyKeyword "VIRTUAL" ["STORED"] ::
    ["KEY", "NULL", "DEFAULT", "ACTION", "VARYING", "PRECISION", "VARCHAR", "VARBINARY"].map Grammar.keyword

include skipped h in
theorem sought_misses : ∀ part ∈ turnSought ++ typeSought, part.Misses (gap ++ ' ' :: text) := by
  have apart : ∀ part ∈ turnSought ++ typeSought,
      (blankStarts.all fun c => part.blocked (refusedAt c)) ∨ ∃ next ∈ soughtApart, part = Grammar.blanks ++ next := by
    decide
  have other : ∀ name ∈ keywords, ∀ next ∈ soughtApart,
      next.blocked (refusedAtWord name) ∨ name = "ON" ∧ next = referenceAction := by decide
  intro part hpart
  rcases apart part hpart with blocked | ⟨next, hnext, rfl⟩
  · obtain ⟨c, more, whole, blank⟩ := skipped.head text
    rw [whole]
    exact misses_of_blocked (refuses_at c more) (List.all_eq_true.mp blocked c blank)
  · obtain ⟨word, more, reads, begins, later⟩ := h.word item.parted_further item.keyword_proper
    refine (blanks_misses_iff (skipped.space text)).mpr (reads.seq_misses ?_)
    rcases other _ item.keyword_mem next hnext with blocked | ⟨same, rfl⟩
    · exact misses_of_blocked begins.refuses blocked
    · obtain ⟨value, rfl⟩ := item.eq_onUpdate same
      exact onUpdate_is_no_action begins later

include skipped h in
theorem modifier_misses (other : item.isCollation = false) : modifierTurn.Misses (gap ++ ' ' :: text) := by
  obtain ⟨word, more, reads, begins, -⟩ := h.word item.parted_further item.keyword_proper
  have all : ∀ name ∈ keywords, name ≠ "COLLATE" → typeModifier.blocked (refusedAtWord name) := by decide
  have plain : item.keyword ≠ "COLLATE" := by
    cases item with
    | collation => cases other
    | generation always => cases always <;> simp [keyword]
    | check name => cases name <;> simp [keyword]
    | _ => simp [keyword]
  exact (blanks_misses_iff (skipped.space text)).mpr
    (reads.seq_misses (misses_of_blocked begins.refuses (all _ item.keyword_mem plain)))

theorem collation_modifies {name : Identifier} (h : LaidBefore rest (collation name).tokens text) :
    ∃ left, modifierTurn.Reads text [] left ∧ LaidBefore rest [] left := by
  obtain ⟨word, more, gap, begins, later⟩ := h.word (parted_further _) (keyword_proper _)
  obtain ⟨left, reads, last⟩ := collation_reads begins later
  have known : chosen (refusedAtWord "COLLATE") typeModifier = Grammar.collation := by decide
  exact ⟨left, gap.seq (reads_of_chosen begins.refuses (known ▸ reads)), last⟩

end IgnoredAttribute

end DdlModels.Written
