import DdlModels.Proofs.DraftWalk
import DdlModels.Proofs.WrittenValues
import Mathlib.Data.List.Forall2

/-!
# Reading written columns

A column that is laid out in a text is read up to the token after it. The token that comes next decides
at each place that nothing else is taken for a part of the column.
-/

namespace DdlModels.Written

open Sql Text Grammar

/-- After blanks, a text cannot go on with certain lexemes. -/
def Next (refused : Lexeme → Bool) (text : List Char) : Prop :=
  ∃ start, Grammar.blanks.Reads text [] start ∧ Refuses refused start

def refusedBy (token : Token) : Lexeme → Bool :=
  match token.form with
  | .word name => refusedAtWord name
  | .exact [] => fun _ => false
  | .exact (c :: _) => refusedAt c

/-- Whether a token is a keyword in capitals or a text that blanks cannot begin with. -/
def Proper (token : Token) : Prop :=
  match token.form with
  | .word name => name ≠ "" ∧ name.toList.all isKeywordChar
  | .exact piece => piece ≠ [] ∧ blank.blocked (refusedBy token)

instance (token : Token) : Decidable (Proper token) :=
  match token with
  | ⟨_, .word _⟩ => inferInstanceAs (Decidable (_ ∧ _))
  | ⟨_, .exact _⟩ => inferInstanceAs (Decidable (_ ∧ _))

theorem Next.of_laid {token : Token} {tokens : List Token} {text : List Char}
    (h : Laid (token :: tokens) text) (gapped : Gapped tokens) (proper : Proper token) :
    Next (refusedBy token) text := by
  obtain ⟨spacing, form⟩ := token
  cases form with
  | word name =>
    obtain ⟨word, rest, reads, begins, -⟩ := h.word gapped proper
    exact ⟨word ++ rest, reads, begins.refuses⟩
  | exact piece =>
    obtain ⟨ne, blocks⟩ := proper
    obtain ⟨c, piece, rfl⟩ := List.exists_cons_of_ne_nil ne
    have visible (rest : List Char) : blank.Misses (c :: piece ++ rest) :=
      misses_of_blocked (refuses_at c _) blocks
    obtain ⟨rest, reads, -⟩ := h.exact visible
    exact ⟨_, reads, refuses_at c _⟩

section Next

variable {refused : Lexeme → Bool} {text : List Char} {part : Grammar}

theorem Next.misses (h : Next refused text) (blocks : part.blocked refused) :
    (Grammar.blanks ++ part).Misses text := by
  obtain ⟨start, reads, refuses⟩ := h
  exact reads.seq_misses (misses_of_blocked refuses blocks)

theorem Next.optional (h : Next refused text) (blocks : part.blocked refused) :
    (Grammar.optional (Grammar.blanks ++ part)).Reads text [] text :=
  (h.misses blocks).optional

theorem Next.many (h : Next refused text) (blocks : part.blocked refused) :
    (Grammar.many (Grammar.blanks ++ part)).Reads text [] text :=
  (h.misses blocks).many

end Next

/-- Whether these lexemes neither go on with a type's words nor modify it. -/
def endsType (refused : Lexeme → Bool) : Bool :=
  (keyword "VARYING").blocked refused && (keyword "PRECISION").blocked refused &&
    (keyword "VARCHAR").blocked refused && typeModifier.blocked refused

namespace TypeWord

private theorem listed (type : TypeWord) :
    type.name ∈ typeWords type.category ∨
      (type.name ∈ ["CHAR", "CHARACTER", "NCHAR"] ∧ type.category = .string) ∨
      (type.name = "DOUBLE" ∧ type.category = .dimension) := by
  obtain ⟨name, category, known⟩ := type
  simp only [typeKeyword?] at known
  split at known
  case isTrue h =>
    obtain rfl := Option.some.inj known
    rcases List.mem_append.mp h with h | h
    · exact .inl h
    · exact .inr (.inl ⟨h, rfl⟩)
  case isFalse =>
    split at known
    case isTrue h =>
      obtain rfl := Option.some.inj known
      rcases List.mem_append.mp h with h | h
      · exact .inl h
      · exact .inr (.inr ⟨List.mem_singleton.mp h, rfl⟩)
    case isFalse =>
      split at known
      case isTrue h =>
        obtain rfl := Option.some.inj known
        exact .inl h
      case isFalse =>
        split at known
        case isTrue h =>
          obtain rfl := Option.some.inj known
          exact .inl h
        case isFalse =>
          split at known
          case isTrue h =>
            obtain rfl := Option.some.inj known
            exact .inl h
          case isFalse => contradiction

/-- The categories whose words are listed, in the order in which they are tried. -/
private def categories : List TypeCategory := [.string, .dimension, .simple, .collection, .spatial]

private theorem words_proper : ∀ category ∈ categories, ∀ name ∈ typeWords category,
    name ≠ "" ∧ name.toList.all isKeywordChar := by decide

private theorem category_mem {category : TypeCategory} {name : String} (h : name ∈ typeWords category) :
    category ∈ categories := by
  cases category with
  | string | dimension | simple | collection | spatial => decide
  | nationalString | nationalVaryingString | longVarchar | longVarbinary => simp [typeWords] at h

theorem proper (type : TypeWord) : type.name ≠ "" ∧ type.name.toList.all isKeywordChar := by
  rcases type.listed with h | ⟨h, -⟩ | ⟨h, -⟩
  · exact words_proper _ (category_mem h) _ h
  · have all : ∀ name ∈ ["CHAR", "CHARACTER", "NCHAR"], name ≠ "" ∧ name.toList.all isKeywordChar := by
      decide
    exact all _ h
  · rw [h]
    decide

/-- The categories before the own one do not list a type's word, and neither does any the other four. -/
private theorem not_listed : ∀ category ∈ categories, ∀ name ∈ typeWords category,
    ∀ other ∈ categories.takeWhile (· ≠ category),
      (oneWordType other).blocked (refusedAtWord name) := by decide

private theorem others_not_listed : ∀ name ∈ ["CHAR", "CHARACTER", "NCHAR", "DOUBLE"],
    ∀ other ∈ categories, (oneWordType other).blocked (refusedAtWord name) := by decide

variable {word rest : List Char} {refused : Lexeme → Bool}

private theorem oneWord_reads {name : String} (begins : BeginsWithWord name word rest)
    {category : TypeCategory} (h : name ∈ typeWords category) :
    (oneWordType category).Reads (word ++ rest) [.leaf (.dataType category) (String.ofList word)] rest :=
  (begins.wordAmong_reads h).leaf _

private theorem further_reads {name other : String} (begins : BeginsWithWord name word rest)
    {words : List String} (h : name ∈ words) (next : Next refused rest)
    (ends : (keyword other).blocked refused) (category : TypeCategory) :
    (Grammar.leaf (.dataType category) (wordAmong words ++ further other)).Reads (word ++ rest)
      [.leaf (.dataType category) (String.ofList word)] rest :=
  ((begins.wordAmong_reads h).seq (next.optional ends)).leaf _

theorem typeName_reads (type : TypeWord) (begins : BeginsWithWord type.name word rest)
    (next : Next refused rest) (ends : endsType refused) :
    typeName.Reads (word ++ rest) [.leaf (.dataType type.category) (String.ofList word)] rest := by
  simp only [endsType, Bool.and_eq_true] at ends
  have listed := type.listed
  obtain ⟨name, category, known⟩ := type
  replace begins : BeginsWithWord name word rest := begins
  have skips {other : Grammar} (h : other.blocked (refusedAtWord name)) :
      other.Misses (word ++ rest) := misses_of_blocked begins.refuses h
  rcases listed with h | ⟨h, same⟩ | ⟨h, same⟩
  · have mem := category_mem h
    have read := oneWord_reads begins h
    have earlier {other : TypeCategory} (hother : other ∈ categories.takeWhile (· ≠ category)) :=
      skips (not_listed category mem name h other hother)
    simp only [categories, List.mem_cons, List.not_mem_nil, or_false] at mem
    rcases mem with rfl | rfl | rfl | rfl | rfl
    · exact read.orElse
    · exact (earlier (by decide)).orElse read.orElse
    · exact (earlier (by decide)).orElse ((earlier (by decide)).orElse read.orElse)
    · exact (earlier (by decide)).orElse ((earlier (by decide)).orElse
        ((earlier (by decide)).orElse read.orElse))
    · exact (earlier (by decide)).orElse ((earlier (by decide)).orElse
        ((earlier (by decide)).orElse ((earlier (by decide)).orElse read.orElse)))
  · have skip {grammar : Grammar} (read : grammar.Reads (word ++ rest)
        [.leaf (.dataType category) (String.ofList word)] rest) :
        (oneWordType .string <|> oneWordType .dimension <|> oneWordType .simple <|>
          oneWordType .collection <|> oneWordType .spatial <|> grammar).Reads (word ++ rest)
          [.leaf (.dataType category) (String.ofList word)] rest := by
      have none {other : TypeCategory} (hother : other ∈ categories) :=
        skips (others_not_listed name (List.mem_append_left ["DOUBLE"] h) other hother)
      exact (none (by decide)).orElse ((none (by decide)).orElse ((none (by decide)).orElse
        ((none (by decide)).orElse ((none (by decide)).orElse read))))
    subst same
    simp only [List.mem_cons, List.not_mem_nil, or_false] at h
    rcases h with rfl | rfl | rfl
    · exact skip (further_reads begins (by decide) next ends.1.1.1 .string).orElse
    · exact skip (further_reads begins (by decide) next ends.1.1.1 .string).orElse
    · -- `NCHAR` is tried with `VARCHAR` after it first
      have first : (wordAmong ["NCHAR"]).Reads (word ++ rest) [] rest :=
        begins.wordAmong_reads (List.mem_singleton_self _)
      have longer : (wordAmong ["NCHAR"] ++ Grammar.blanks ++ keyword "VARCHAR").Misses (word ++ rest) := by
        obtain ⟨start, blank, refuses⟩ := next
        exact (first.seq blank).seq_misses (misses_of_blocked refuses ends.1.2)
      have read := (longer.leaf (.dataType .nationalString)).orElse (first.leaf (.dataType .string))
      exact skip ((skips (by decide)).orElse ((skips (by decide)).orElse read.orElse))
  · subst same
    obtain rfl : name = "DOUBLE" := h
    have none {other : TypeCategory} (hother : other ∈ categories) :=
      skips (others_not_listed "DOUBLE" (by decide) other hother)
    have read := further_reads begins (List.mem_singleton_self _) next ends.1.1.2 .dimension
    exact (none (by decide)).orElse ((none (by decide)).orElse ((none (by decide)).orElse
      ((none (by decide)).orElse ((none (by decide)).orElse
        ((skips (by decide)).orElse read.orElse)))))

end TypeWord

/-- Tokens that begin with one at which certain lexemes are refused. -/
def Ends (check : (Lexeme → Bool) → Bool) (tokens : List Token) : Prop :=
  ∃ token more, tokens = token :: more ∧ token.spacing ≠ .free ∧ Gapped more ∧ Proper token ∧
    check (refusedBy token)

theorem Ends.gapped {check : (Lexeme → Bool) → Bool} {tokens : List Token} (h : Ends check tokens) :
    Gapped tokens := by
  obtain ⟨token, more, rfl, apart, -⟩ := h
  intro head hhead
  obtain rfl := Option.some.inj hhead
  exact apart

theorem Ends.next {check : (Lexeme → Bool) → Bool} {tokens : List Token} (h : Ends check tokens)
    {text : List Char} (laid : Laid tokens text) : ∃ refused, Next refused text ∧ check refused := by
  obtain ⟨token, more, rfl, -, gapped, proper, checked⟩ := h
  exact ⟨refusedBy token, .of_laid laid gapped proper, checked⟩

theorem gapped_of_apart {tokens : List Token} {form : Form} :
    Gapped ({ form := form } :: tokens) := by
  intro token htoken
  obtain rfl := Option.some.inj htoken
  simp

def afterType (refused : Lexeme → Bool) : Bool := endsType refused && Grammar.group.blocked refused

def typeTokens (type : TypeWord) (size : Option Group) : List Token :=
  { form := .word type.name } :: size.toList.map fun group => { form := .exact group.text }

theorem Group.visible (group : Group) (rest : List Char) : blank.Misses (group.text ++ rest) := by
  obtain ⟨inner, whole, -⟩ := group.text_eq
  rw [whole]
  exact misses_of_blocked (refuses_at _ _) (by decide)

theorem dataType_reads (type : TypeWord) (size : Option Group) {after : List Token} {text : List Char}
    (h : Laid (typeTokens type size ++ after) text) (ends : Ends afterType after) :
    ∃ word rest, (Grammar.blanks ++ dataType).Reads text
        [.leaf (.dataType type.category) (String.ofList word)] rest ∧
      Spells type.name word ∧ Laid after rest := by
  cases size with
  | none =>
    obtain ⟨word, rest, blank, begins, laid⟩ := Laid.word h ends.gapped type.proper
    obtain ⟨refused, next, checked⟩ := ends.next laid
    have both := Bool.and_eq_true_iff.mp checked
    have modifiers : typeModifier.blocked refused := (Bool.and_eq_true_iff.mp both.1).2
    have name := type.typeName_reads begins next both.1
    have read := (name.seq (next.optional both.2)).seq (next.many modifiers)
    exact ⟨word, rest, blank.seq read, begins.spells, laid⟩
  | some group =>
    obtain ⟨word, rest, blank, begins, laid⟩ := Laid.word h gapped_of_apart type.proper
    obtain ⟨rest', opens, laid'⟩ := laid.exact group.visible
    obtain ⟨inner, whole, -⟩ := group.text_eq
    have next : Next (refusedAt '(') rest := by
      refine ⟨group.text ++ rest', opens, ?_⟩
      rw [whole]
      exact refuses_at '(' _
    have name := type.typeName_reads begins next (by decide)
    obtain ⟨refused, next', checked⟩ := ends.next laid'
    have both := Bool.and_eq_true_iff.mp checked
    have modifiers : typeModifier.blocked refused := (Bool.and_eq_true_iff.mp both.1).2
    have read := (name.seq (opens.seq (group.reads rest')).optional).seq (next'.many modifiers)
    exact ⟨word, rest', blank.seq read, begins.spells, laid'⟩

structure Attribute.ToldBy (item : Attribute) (node : Node) : Prop where
  kind : node.kind = item.kind
  null : ∀ forbids ∈ item.forbidsNull?, forbidsNull node.text = forbids
  default : item.kind = .defaultConstraint → nonempty? (trimmed node.text) = item.default?
  comment : item.kind = .commentConstraint → nonempty? (unquote node.text) = item.comment?

theorem forbidsNull_of_spells {name : String} {word : List Char} (h : Spells name word)
    (more : List Char) : forbidsNull (String.ofList (word ++ more)) =
      "NOT".toList.isPrefixOf (name.toList ++ more.map Char.toUpper) := by
  have whole : (String.ofList (word ++ more)).toList = word ++ more := String.toList_ofList
  rw [forbidsNull, whole, List.map_append, show word.map Char.toUpper = name.toList from h]

theorem Attribute.reads (item : Attribute) {after : List Token} {text : List Char}
    (h : Laid (item.tokens ++ after) text) (gapped : Gapped after) :
    ∃ node rest, (Grammar.blanks ++ columnAttribute).Reads text [node] rest ∧
      item.ToldBy node ∧ Laid after rest := by
  cases item with
  | null =>
    obtain ⟨word, rest, gap, begins, laid⟩ := Laid.word h gapped (by decide)
    have read : columnAttribute.Reads (word ++ rest) [.leaf .nullConstraint (String.ofList word)] rest :=
      (misses_of_blocked begins.refuses (by decide)).orElse
        (begins.keyword_reads.leaf .nullConstraint).orElse
    refine ⟨_, rest, gap.seq read, ⟨rfl, ?_, by simp [kind], by simp [kind]⟩, laid⟩
    intro forbids hforbids
    obtain rfl := Option.some.inj hforbids
    have text := forbidsNull_of_spells begins.spells []
    rw [List.append_nil] at text
    exact text
  | notNull =>
    obtain ⟨word, rest, gap, begins, laid⟩ := Laid.word h gapped_of_apart (by decide)
    obtain ⟨word', rest', gap', begins', laid'⟩ := Laid.word laid gapped (by decide)
    have second := gap'.seq begins'.keyword_reads
    obtain ⟨between, rfl⟩ := second.splits
    have phrase := (begins.keyword_reads.seq gap').seq begins'.keyword_reads
    rw [← List.append_assoc] at phrase
    have read : columnAttribute.Reads (word ++ between ++ rest')
        [.leaf .nullConstraint (String.ofList (word ++ between))] rest' :=
      (phrase.leaf .nullConstraint).orElse
    rw [List.append_assoc] at read
    refine ⟨_, rest', gap.seq read, ⟨rfl, ?_, by simp [kind], by simp [kind]⟩, laid'⟩
    intro forbids hforbids
    obtain rfl := Option.some.inj hforbids
    exact forbidsNull_of_spells begins.spells between
  | default value =>
    obtain ⟨word, rest, gap, begins, laid⟩ := Laid.word h gapped_of_apart (by decide)
    obtain ⟨rest', gap', laid'⟩ := laid.exact value.visible
    have valued := (value.reads (laid'.startsGap gapped)).commit "default value"
    have alternative := (begins.keyword_reads.seq gap').seq (valued.leaf .defaultConstraint)
    have skips {other : Grammar} (h : other.blocked (refusedAtWord "DEFAULT")) :
        other.Misses (word ++ rest) := misses_of_blocked begins.refuses h
    have read : columnAttribute.Reads (word ++ rest)
        [.leaf .defaultConstraint (String.ofList value.text)] rest' :=
      (skips (by decide)).orElse ((skips (by decide)).orElse alternative.orElse)
    refine ⟨_, rest', gap.seq read, ⟨rfl, by simp [forbidsNull?], ?_, by simp [kind]⟩, laid'⟩
    intro _
    change nonempty? (trimmed (String.ofList value.text)) = some (String.ofList value.text)
    rw [trimmed, String.toList_ofList, value.trim_text, nonempty?]
    simp [value.text_ne_nil]
  | comment content plain =>
    obtain ⟨word, rest, gap, begins, laid⟩ := Laid.word h gapped_of_apart (by decide)
    have visible (rest : List Char) : blank.Misses (enquote '\x27' content.toList ++ rest) :=
      misses_of_blocked (refuses_at '\x27' _) (by decide)
    obtain ⟨rest', gap', laid'⟩ := laid.exact visible
    have apart : rest'.head? ≠ some '\x27' := (laid'.startsGap gapped).head_ne (by decide)
    have quoted := readQuoted_enquote (by decide) (.inr plain) apart
    have literal : stringLiteral.Reads (enquote '\x27' content.toList ++ rest') [] rest' := quoted.orElse
    have alternative := (begins.keyword_reads.seq gap').seq
      ((literal.commit "comment string").leaf .commentConstraint)
    have skips {other : Grammar} (h : other.blocked (refusedAtWord "COMMENT")) :
        other.Misses (word ++ rest) := misses_of_blocked begins.refuses h
    have read : columnAttribute.Reads (word ++ rest)
        [.leaf .commentConstraint (String.ofList (enquote '\x27' content.toList))] rest' :=
      (skips (by decide)).orElse ((skips (by decide)).orElse
        ((skips (by decide)).orElse alternative.orElse))
    refine ⟨_, rest', gap.seq read, ⟨rfl, by simp [forbidsNull?], by simp [kind], ?_⟩, laid'⟩
    intro _
    change nonempty? (unquote (String.ofList (enquote '\x27' content.toList))) = nonempty? content
    rw [unquote_enquote (by decide)]

def afterColumn (refused : Lexeme → Bool) : Bool :=
  afterType refused && columnAttribute.blocked refused

theorem Ends.mono {check weaker : (Lexeme → Bool) → Bool} {tokens : List Token} (h : Ends check tokens)
    (imp : ∀ refused, check refused → weaker refused) : Ends weaker tokens := by
  obtain ⟨token, more, whole, apart, gapped, proper, checked⟩ := h
  exact ⟨token, more, whole, apart, gapped, proper, imp _ checked⟩

theorem gapped_items (items : List Attribute) {after : List Token} (gapped : Gapped after) :
    Gapped (items.flatMap Attribute.tokens ++ after) := by
  cases items with
  | nil => exact gapped
  | cons item items => cases item <;> exact gapped_of_apart

theorem attributes_read {items : List Attribute} {after : List Token} {text : List Char}
    (h : Laid (items.flatMap Attribute.tokens ++ after) text) (ends : Ends afterColumn after) :
    ∃ nodes rest, (Grammar.many (Grammar.blanks ++ columnAttribute)).Reads text nodes rest ∧
      List.Forall₂ Attribute.ToldBy items nodes ∧ Laid after rest := by
  induction items generalizing text with
  | nil =>
    obtain ⟨refused, next, checked⟩ := ends.next h
    exact ⟨[], text, next.many (Bool.and_eq_true_iff.mp checked).2, .nil, h⟩
  | cons item items ih =>
    rw [List.flatMap_cons, List.append_assoc] at h
    obtain ⟨node, rest, read, told, laid⟩ := item.reads h (gapped_items items ends.gapped)
    obtain ⟨nodes, rest', reads, tolds, laid'⟩ := ih laid
    exact ⟨node :: nodes, rest', read.many (by decide) reads, .cons told tolds, laid'⟩

private theorem ends_type (items : List Attribute) {after : List Token} (ends : Ends afterColumn after) :
    Ends afterType (items.flatMap Attribute.tokens ++ after) := by
  cases items with
  | nil => exact ends.mono fun refused h => (Bool.and_eq_true_iff.mp h).1
  | cons item items =>
    have gapped := gapped_items items ends.gapped
    rw [List.flatMap_cons, List.append_assoc]
    cases item with
    | null => exact ⟨_, _, rfl, by simp, gapped, by decide, by decide⟩
    | notNull => exact ⟨_, _, rfl, by simp, gapped_of_apart, by decide, by decide⟩
    | default value => exact ⟨_, _, rfl, by simp, gapped_of_apart, by decide, by decide⟩
    | comment content plain =>
      exact ⟨_, _, rfl, by simp, gapped_of_apart, by decide, by decide⟩

private theorem foldl_told {β : Type} {field : DdlModels.Column → β} {kind : NodeKind} {set : Node → β}
    (step : ∀ (column : DdlModels.Column) (node : Node), field (column.told node) =
      if node.kind = kind then set node else field column)
    {nodes : List Node} (once : (nodes.map Node.kind).Nodup) (column : DdlModels.Column) :
    field (nodes.foldl DdlModels.Column.told column) =
      ((nodes.find? (·.kind = kind)).map set).getD (field column) := by
  induction nodes generalizing column with
  | nil => rfl
  | cons node nodes ih =>
    rw [List.map_cons, List.nodup_cons] at once
    rw [List.foldl_cons, ih once.2, step]
    by_cases same : node.kind = kind
    · have none : nodes.find? (·.kind = kind) = none := by
        refine List.find?_eq_none.mpr ?_
        intro other hother again
        have equal : other.kind = node.kind := by
          rw [same]
          simpa using again
        exact once.1 (equal ▸ List.mem_map_of_mem hother)
      simp [same, none]
    · simp [same]

section Told

variable {items : List Attribute} {nodes : List Node}

private theorem kinds_of_told (h : List.Forall₂ Attribute.ToldBy items nodes) :
    nodes.map Node.kind = items.map Attribute.kind := by
  induction h with
  | nil => rfl
  | cons told _ ih => rw [List.map_cons, List.map_cons, told.kind, ih]

private theorem find_null (h : List.Forall₂ Attribute.ToldBy items nodes) :
    ((nodes.find? (·.kind = .nullConstraint)).map fun node => forbidsNull node.text) =
      items.findSome? Attribute.forbidsNull? := by
  induction h with
  | nil => rfl
  | @cons item node _ _ told _ ih =>
    have kind := told.kind
    have null := told.null
    cases item <;> simp_all [Attribute.kind, Attribute.forbidsNull?, List.findSome?_cons]

private theorem find_default (h : List.Forall₂ Attribute.ToldBy items nodes) :
    ((nodes.find? (·.kind = .defaultConstraint)).map fun node => nonempty? (trimmed node.text)).join =
      items.findSome? Attribute.default? := by
  induction h with
  | nil => rfl
  | @cons item node _ _ told _ ih =>
    have kind := told.kind
    have value := told.default
    cases item <;> simp_all [Attribute.kind, Attribute.default?, List.findSome?_cons]

/-- Of several comments only the first could be told, so that none may be empty before another one. -/
private theorem find_comment (h : List.Forall₂ Attribute.ToldBy items nodes)
    (once : (items.map Attribute.kind).Nodup) :
    ((nodes.find? (·.kind = .commentConstraint)).map fun node => nonempty? (unquote node.text)).join =
      items.findSome? Attribute.comment? := by
  induction h with
  | nil => rfl
  | @cons item node items _ told _ ih =>
    have kind := told.kind
    have content := told.comment
    rw [List.map_cons, List.nodup_cons] at once
    have later := ih once.2
    cases item with
    | comment text plain =>
      have none : items.findSome? Attribute.comment? = none := by
        refine List.findSome?_eq_none_iff.mpr ?_
        intro other hother
        have mem : other.kind ∈ items.map Attribute.kind := List.mem_map_of_mem hother
        have differs : other.kind ≠ .commentConstraint := by
          intro same
          rw [same] at mem
          exact once.1 mem
        cases other <;> simp_all [Attribute.kind, Attribute.comment?]
      have found := content rfl
      simp only [Attribute.kind] at kind
      simp only [List.find?_cons, kind, decide_true, Option.map_some, Option.join_some, found,
        List.findSome?_cons, none]
      cases Attribute.comment? (.comment text plain) <;> rfl
    | null | notNull | default => simp_all [Attribute.kind, Attribute.comment?, List.findSome?_cons]

private theorem foldl_attributes (h : ∀ node ∈ nodes, node.kind.isAttribute)
    (column : DdlModels.Column) :
    (nodes.foldl DdlModels.Column.told column).name = column.name ∧
      (nodes.foldl DdlModels.Column.told column).goType = column.goType := by
  induction nodes generalizing column with
  | nil => exact ⟨rfl, rfl⟩
  | cons node nodes ih =>
    have later := ih (fun other hother => h other (List.mem_cons_of_mem node hother)) (column.told node)
    have kind := h node List.mem_cons_self
    have kept : (column.told node).name = column.name ∧ (column.told node).goType = column.goType := by
      cases same : node.kind <;> simp_all [DdlModels.Column.told, NodeKind.isAttribute]
    rw [List.foldl_cons]
    exact ⟨later.1.trans kept.1, later.2.trans kept.2⟩

/-- The nodes of a column tell the field that it stands for. -/
private theorem told_field (column : Column) {word : List Char} (spells : Spells column.type.name word)
    (h : List.Forall₂ Attribute.ToldBy column.attributes nodes) :
    (Node.leaf (.dataType column.type.category) (String.ofList word) :: nodes).foldl
      DdlModels.Column.told { name := column.name } = column.field := by
  have once : (nodes.map Node.kind).Nodup := by
    rw [kinds_of_told h]
    exact column.once
  have goType : ((DdlModels.Column.mk column.name "" false none none).told
      (.leaf (.dataType column.type.category) (String.ofList word))) =
      { name := column.name, goType := column.type.goType } := by
    have same := column.type.category.rules.classify_of_spells column.type.proper.2 spells
    simp only [DdlModels.Column.told, Node.leaf, same, TypeWord.goType]
  have attributes : ∀ node ∈ nodes, node.kind.isAttribute := by
    intro node hnode
    have mem : node.kind ∈ column.attributes.map Attribute.kind := by
      rw [← kinds_of_told h]
      exact List.mem_map_of_mem hnode
    obtain ⟨item, -, same⟩ := List.mem_map.mp mem
    rw [← same]
    cases item <;> rfl
  rw [List.foldl_cons, goType]
  let start : DdlModels.Column := { name := column.name, goType := column.type.goType }
  have plain := foldl_attributes attributes start
  have null := @foldl_told Bool DdlModels.Column.notNull .nullConstraint
    (fun node => forbidsNull node.text)
    (by intro column node; cases same : node.kind <;> simp [DdlModels.Column.told, same]) nodes once start
  have default := @foldl_told _ DdlModels.Column.defaultValue .defaultConstraint
    (fun node => nonempty? (trimmed node.text))
    (by intro column node; cases same : node.kind <;> simp [DdlModels.Column.told, same]) nodes once start
  have comment := @foldl_told _ DdlModels.Column.comment .commentConstraint
    (fun node => nonempty? (unquote node.text))
    (by intro column node; cases same : node.kind <;> simp [DdlModels.Column.told, same]) nodes once start
  have join {α : Type} (value : Option (Option α)) : value.getD none = value.join := by
    cases value <;> rfl
  rw [find_null h] at null
  rw [show start.defaultValue = none from rfl, join, find_default h] at default
  rw [show start.comment = none from rfl, join, find_comment h column.once] at comment
  change nodes.foldl DdlModels.Column.told start = _
  cases told : nodes.foldl DdlModels.Column.told start with
  | mk name goType notNull defaultValue comment' =>
    rw [told] at plain null default comment
    simp only at plain null default comment
    rw [Column.field, plain.1, plain.2, null, default, comment]

end Told

/-- A column is read as a node that tells its field. -/
theorem Column.reads (column : Column) {after : List Token} {text : List Char}
    (h : Laid (column.tokens ++ after) text) (ends : Ends afterColumn after) :
    ∃ start node rest, (Grammar.blanks.Reads text [] start ∧ definition.Reads start [node] rest) ∧
      (node.kind = .columnDeclaration ∧ node.column = column.field ∧
        node.children.flatMap Node.typeImports =
          (column.type.category.rules.classify column.type.name).imports) ∧
      Laid after rest := by
  have tokens : column.tokens ++ after = { form := .exact (enquote '\x60' column.name.toList) } ::
      (typeTokens column.type column.size ++
        (column.attributes.flatMap Attribute.tokens ++ after)) := by
    simp only [Column.tokens, typeTokens, List.cons_append, List.append_assoc]
  rw [tokens] at h
  have visible (rest : List Char) : blank.Misses (enquote '\x60' column.name.toList ++ rest) :=
    misses_of_blocked (refuses_at '\x60' _) (by decide)
  obtain ⟨rest, gap, laid⟩ := h.exact visible
  have apart : rest.head? ≠ some '\x60' := (laid.startsGap gapped_of_apart).head_ne (by decide)
  have name : identifier.Reads (enquote '\x60' column.name.toList ++ rest) [] rest :=
    (readQuoted_enquote (by decide) (.inl rfl) apart).orElse
  obtain ⟨word, rest', type, spells, laid'⟩ :=
    dataType_reads column.type column.size laid (ends_type column.attributes ends)
  obtain ⟨nodes, rest'', attributes, tolds, laid''⟩ := attributes_read laid' ends
  have body := (type.commit "data type").seq attributes
  have read : definition.Reads (enquote '\x60' column.name.toList ++ rest)
      [⟨.columnDeclaration, String.ofList (enquote '\x60' column.name.toList),
        .leaf (.dataType column.type.category) (String.ofList word) :: nodes⟩] rest'' :=
    ((misses_of_blocked (refuses_at '\x60' _) (by decide)).orElse (name.branch body _)).context _
  have type_imports : (Node.leaf (.dataType column.type.category) (String.ofList word)).typeImports =
      (column.type.category.rules.classify column.type.name).imports := by
    have same := column.type.category.rules.classify_of_spells column.type.proper.2 spells
    simp only [Node.typeImports, Node.leaf, same]
  have no_imports : nodes.flatMap Node.typeImports = [] := by
    refine List.flatMap_eq_nil_iff.mpr ?_
    intro node hnode
    have mem : node.kind ∈ column.attributes.map Attribute.kind := by
      rw [← kinds_of_told tolds]
      exact List.mem_map_of_mem hnode
    obtain ⟨item, -, same⟩ := List.mem_map.mp mem
    cases item <;> simp only [Attribute.kind] at same <;> simp [Node.typeImports, ← same]
  refine ⟨_, _, rest'', ⟨gap, read⟩, ⟨rfl, ?_, ?_⟩, laid''⟩
  · rw [Node.column, unquote_enquote (by decide)]
    exact told_field column spells tolds
  · rw [List.flatMap_cons, type_imports, no_imports, List.append_nil]

end DdlModels.Written
