import DdlModels.Proofs.ColumnPlaces
import DdlModels.Proofs.IgnoredAttributes
import DdlModels.Proofs.SwappedTables

/-!
# Places of attributes

An attribute may stand anywhere after the type of a column. What stands before such a place is read alike if an
attribute that says nothing about the field is put there, and so is what stands after it.
-/

namespace DdlModels.Sql

open Text Grammar Script Written

variable {text other rest left : List Char} {nodes children definitions : List Node}

/-- A text that goes on after some attributes of a column is read into other attributes of it and into the
definitions after it. -/
def GoesOn (text : List Char) (children definitions : List Node) (rest : List Char) : Prop :=
  ∃ between, (many attributeTurn).Reads text children between ∧ afterDefinition.Reads between definitions rest

theorem afterDefinition_same (same : skipBlanks text = skipBlanks other)
    (reads : afterDefinition.Reads text nodes rest) :
    afterDefinition.Reads other nodes rest := by
  have again {nodes : List Node} {left : List Char} (turn : (separator ++ definition).Reads text nodes left) :
      (separator ++ definition).Reads other nodes left := by
    simp only [separator, reads_assoc] at turn ⊢
    exact (blanks_reads_iff same).mp turn
  obtain ⟨_, _, _, turns, close, rfl⟩ := reads.of_seq
  rcases turns.of_many with ⟨_, _, _, turn, -, more, rfl⟩ | ⟨missed, rfl, rfl⟩
  · exact ((again turn).many (by decide) more).seq close
  · have still : (separator ++ definition).Misses other := by
      simp only [separator, misses_assoc] at missed ⊢
      exact (blanks_misses_iff same).mp missed
    exact still.many.seq ((blanks_reads_iff same).mp close)

theorem misses_of_alternatives {part : Grammar} (h : ∀ other ∈ part.alternatives, other.Misses text) :
    part.Misses text := by
  induction part with
  | choice first second ihf ihs =>
    exact (ihf fun other hother => h other (List.mem_append_left _ hother)).choice
      (ihs fun other hother => h other (List.mem_append_right _ hother))
  | leaf kind part ih => exact (ih h).leaf kind
  | _ => exact h _ (List.mem_singleton_self _)

namespace GoesOn

theorem same (blanks : skipBlanks text = skipBlanks other) (goes : GoesOn text children definitions rest) :
    GoesOn other children definitions rest := by
  obtain ⟨between, turns, last⟩ := goes
  rcases turns.of_many with ⟨_, _, _, turn, -, more, rfl⟩ | ⟨missed, rfl, rfl⟩
  · exact ⟨between, ((blanks_reads_iff blanks).mp turn).many rfl more, last⟩
  · exact ⟨other, ((blanks_misses_iff blanks).mp missed).many, afterDefinition_same blanks last⟩

theorem parenthesis_mem (goes : GoesOn text children definitions rest) : ')' ∈ text := by
  have later {grammar : Grammar} {text rest : List Char} {nodes : List Node} (reads : grammar.Reads text nodes rest)
      (mem : ')' ∈ rest) : ')' ∈ text := by
    obtain ⟨taken, rfl⟩ := reads.splits
    exact List.mem_append_right taken mem
  obtain ⟨between, turns, last⟩ := goes
  obtain ⟨_, _, _, more, close, -⟩ := last.of_seq
  obtain ⟨_, _, _, gap, after, -⟩ := close.of_seq
  obtain ⟨_, _, _, mark, -, -⟩ := after.of_seq
  refine later turns (later more (later gap ?_))
  rw [reads_symbol mark.of_commit]
  exact List.mem_cons_self

theorem next (goes : GoesOn text children definitions rest) :
    (∃ nodes left, columnAttribute.Reads (skipBlanks text) nodes left) ∨
      ∃ mark ∈ [',', ')'], ∃ more, skipBlanks text = mark :: more := by
  obtain ⟨between, turns, last⟩ := goes
  have gap := (blanks_read text).1
  rcases turns.of_many with ⟨_, _, _, turn, -, -, -⟩ | ⟨-, -, rfl⟩
  · exact .inl ⟨_, _, gap.then_iff.mp turn⟩
  obtain ⟨_, _, _, more, close, -⟩ := last.of_seq
  rcases more.of_many with ⟨_, _, _, turn, -, -, -⟩ | ⟨-, -, rfl⟩
  · simp only [separator, reads_assoc, gap.then_iff] at turn
    obtain ⟨_, _, _, comma, -, -⟩ := turn.of_seq
    exact .inr ⟨',', by decide, _, reads_symbol comma⟩
  · obtain ⟨_, _, _, mark, -, -⟩ := (gap.then_iff.mp close).of_seq
    exact .inr ⟨')', by decide, _, reads_symbol mark.of_commit⟩

theorem attribute_of_keyword {name : String} {found : List Char} (goes : GoesOn text children definitions rest)
    (chars : name.toList.all isKeywordChar) (nonempty : name.toList ≠ []) (kelvin : 'K' ∉ name.toList)
    (reads : (keyword name).Reads (skipBlanks text) nodes found) :
    Refuses (refusedBeside name) (skipBlanks text) ∧ ¬ columnAttribute.Misses (skipBlanks text) := by
  have closed : ')' ∈ skipBlanks text :=
    (goes.same (skipBlanks_of_visible (blanks_read text).2).symm).parenthesis_mem
  have next := goes.next
  obtain ⟨word, split⟩ := reads.splits
  rw [split] at reads closed next ⊢
  obtain ⟨first, -⟩ := firstWord_of_readKeyword (List.all_eq_true.mp chars) kelvin
    (show readKeyword name.toList (word ++ found) = .ok nodes word found from reads.read_eq)
  have run : ∀ c ∈ word, isWordChar c := fun c hc => List.mem_takeWhile_imp (first ▸ hc)
  have more : found ≠ [] := by
    rintro rfl
    rw [List.append_nil] at closed
    exact absurd (run ')' closed) (by decide)
  refine ⟨(BeginsAlike.of_keyword chars more reads).refuses, ?_⟩
  rcases next with ⟨_, _, turn⟩ | ⟨mark, known, after, whole⟩
  · exact turn.not_misses
  · -- no word begins with a mark
    have goes : word ≠ [] := by
      have advances : (keyword name).advances := by simpa [advances, Lexeme.advances, keyword] using nonempty
      rintro rfl
      exact absurd (reads.length_lt advances) (Nat.lt_irrefl _)
    obtain ⟨c, inner, rfl⟩ := List.exists_cons_of_ne_nil goes
    obtain rfl : c = mark := (List.cons.inj whole).1
    have all : ∀ c ∈ [',', ')'], isWordChar c = false := forall_among (by decide)
    have other := all c known
    rw [run c List.mem_cons_self] at other
    cases other

theorem storage_misses (goes : GoesOn text children definitions rest) :
    (Grammar.blanks ++ anyKeyword "VIRTUAL" ["STORED"]).Misses text := by
  have none {name : String} (known : name ∈ ["VIRTUAL", "STORED"]) : (keyword name).Misses (skipBlanks text) := by
    have all : ∀ name ∈ ["VIRTUAL", "STORED"], name.toList.all isKeywordChar ∧ name.toList ≠ [] ∧ 'K' ∉ name.toList ∧
        columnAttribute.blocked (refusedBeside name) := by decide
    obtain ⟨chars, nonempty, kelvin, blocked⟩ := all name known
    rcases readKeyword_ok_or_miss name.toList (skipBlanks text) with ⟨taken, found, reads⟩ | missed
    · obtain ⟨refuses, begins⟩ := goes.attribute_of_keyword chars nonempty kelvin ⟨taken, reads⟩
      exact absurd (misses_of_blocked refuses blocked) begins
    · exact missed
  exact (blanks_read text).1.seq_misses ((none (by decide)).choice (none (by decide)))

theorem action_misses (goes : GoesOn text children definitions rest)
    (plain : (Grammar.blanks ++ onUpdate).Misses text) :
    (Grammar.blanks ++ referenceAction).Misses text := by
  have gap := (blanks_read text).1
  refine gap.seq_misses ?_
  rcases readKeyword_ok_or_miss "ON".toList (skipBlanks text) with ⟨taken, found, reads⟩ | missed
  · obtain ⟨refuses, begins⟩ := goes.attribute_of_keyword (by decide) (by decide) (by decide) ⟨taken, reads⟩
    have all : ∀ other ∈ columnAttribute.alternatives, other = onUpdate ∨ other.blocked (refusedBeside "ON") := by
      decide
    refine absurd (misses_of_alternatives fun other hother => ?_) begins
    rcases all other hother with rfl | blocked
    · exact gap.then_misses_iff.mp plain
    · exact misses_of_blocked refuses blocked
  · have missed : (keyword "ON").Misses (skipBlanks text) := missed
    exact missed.seq_first.seq_first.seq_first.seq_first

end GoesOn

/-- Where an attribute may stand in a script: after what statements, in what table, after what definitions of it, in
what column, and after what modifiers of its type and what other attributes. -/
structure AttributePlace where
  front : List Char
  tables : List Node
  foregoing : Foregoing front tables
  opening : List Char
  reference : String
  leading : List Char
  definitions : List Node
  head : List Char
  name : String
  type : List Node
  modifiers : List Char
  attributes : List Char
  told : List Node

namespace AttributePlace

variable (place : AttributePlace)

def typed (rest : List Char) : List Char := place.modifiers ++ (place.attributes ++ rest)

def column (rest : List Char) : List Char := place.head ++ place.typed rest

def statement (rest : List Char) : List Char := place.opening ++ (place.leading ++ place.column rest)

def script (rest : List Char) : List Char := place.front ++ place.statement rest

/-- The place is reached when the script is read. -/
structure Reached (rest : List Char) : Prop where
  opens : tableOpening.Reads (place.statement rest) [⟨.createTable, place.reference, []⟩]
    (place.leading ++ place.column rest)
  leads : Turns (definition ++ separator) (place.leading ++ place.column rest) place.definitions (place.column rest)
  columnar : tableConstraint.Misses (place.column rest)
  headed : columnHead.Reads (place.column rest) [⟨.columnDeclaration, place.name, place.type⟩] (place.typed rest)
  modified : Turns modifierTurn (place.typed rest) [] (place.attributes ++ rest)
  told : Turns attributeTurn (place.attributes ++ rest) place.told rest

/-- The place is reached, and the attributes have begun there. -/
structure Between (rest : List Char) : Prop extends place.Reached rest where
  unmodified : modifierTurn.Misses (place.attributes ++ rest)

def table (children definitions : List Node) : Node :=
  ⟨.createTable, place.reference,
    place.definitions ++ ⟨.columnDeclaration, place.name, place.type ++ (place.told ++ children)⟩ :: definitions⟩

variable {place}

theorem many_after_turns {part : Grammar} {more : List Node} (advances : part.advances)
    (turns : Turns part text nodes other) :
    (many part).Reads text more rest ↔ ∃ others, more = nodes ++ others ∧ (many part).Reads other others rest := by
  induction turns generalizing more with
  | done => simp
  | turn reads _ ih =>
    constructor
    · intro whole
      rcases whole.of_many with ⟨_, _, _, turn, -, others, rfl⟩ | ⟨missed, -, -⟩
      · obtain ⟨rfl, rfl⟩ := turn.unique reads
        obtain ⟨more, rfl, last⟩ := ih.mp others
        exact ⟨more, by rw [List.append_assoc], last⟩
      · exact absurd missed reads.not_misses
    · rintro ⟨others, rfl, last⟩
      rw [List.append_assoc]
      exact reads.many advances (ih.mpr ⟨others, rfl, last⟩)

theorem definitions_after_turns {more : List Node} (turns : Turns (definition ++ separator) text nodes other) :
    (definition ++ afterDefinition).Reads text more rest ↔
      ∃ others, more = nodes ++ others ∧ (definition ++ afterDefinition).Reads other others rest := by
  induction turns generalizing more with
  | done => simp
  | turn reads _ ih =>
    rw [definition_then_iff reads]
    constructor
    · rintro ⟨_, rfl, others⟩
      obtain ⟨more, rfl, last⟩ := ih.mp others
      exact ⟨more, by rw [List.append_assoc], last⟩
    · rintro ⟨more, rfl, last⟩
      exact ⟨_, by rw [List.append_assoc], ih.mpr ⟨more, rfl, last⟩⟩

namespace Between

variable (between : place.Between rest)

include between

theorem body_reads_iff (sized : sizedType.Reads text place.type (place.typed rest)) :
    columnBody.Reads text nodes left ↔
      ∃ later, nodes = place.type ++ (place.told ++ later) ∧ (many attributeTurn).Reads rest later left := by
  have modifiers := (reads_many_iff (by rfl)).mpr ⟨between.modified, between.unmodified⟩
  have type := reads_assoc.mp (sized.seq modifiers)
  rw [List.append_nil] at type
  have whole : (commit "data type" (Grammar.blanks ++ dataType)).Reads text place.type (place.attributes ++ rest) :=
    Reads.commit type "data type"
  rw [columnBody, whole.seq_iff]
  constructor
  · rintro ⟨_, rfl, attributes⟩
    obtain ⟨later, rfl, more⟩ := (many_after_turns (by decide) between.told).mp attributes
    exact ⟨later, rfl, more⟩
  · rintro ⟨later, rfl, more⟩
    exact ⟨_, rfl, (many_after_turns (by decide) between.told).mpr ⟨later, rfl, more⟩⟩

theorem column_reads_iff :
    (definition ++ afterDefinition).Reads (place.column rest) nodes left ↔ ∃ children definitions,
      nodes = ⟨.columnDeclaration, place.name, place.type ++ (place.told ++ children)⟩ :: definitions ∧
        GoesOn rest children definitions left := by
  obtain ⟨name, _, _, start, split, named, sized, same⟩ := between.headed.of_branch
  obtain ⟨text, type⟩ : place.name = String.ofList name ∧ place.type = _ := by
    simpa using same
  rw [split] at named
  rw [← type] at sized
  have one {nodes : List Node} {left : List Char} : definition.Reads (place.column rest) nodes left ↔
      ∃ body, nodes = [⟨.columnDeclaration, place.name, body⟩] ∧ columnBody.Reads start body left := by
    rw [definition, reads_context_iff, between.columnar.orElse_iff, split, text]
    exact named.branch_iff
  constructor
  · intro reads
    obtain ⟨_, definitions, after, first, others, rfl⟩ := reads.of_seq
    obtain ⟨_, rfl, body⟩ := one.mp first
    obtain ⟨children, rfl, turns⟩ := (between.body_reads_iff sized).mp body
    exact ⟨children, definitions, rfl, after, turns, others⟩
  · rintro ⟨children, definitions, rfl, after, turns, others⟩
    exact (one.mpr ⟨_, rfl, (between.body_reads_iff sized).mpr ⟨children, rfl, turns⟩⟩).seq others

private theorem opening_parts : ∃ name before start after, place.reference = String.ofList name ∧
    (tableHead ++ Grammar.blanks).Reads (place.statement rest) [] (name ++ after) ∧
      Grammar.tableName.Reads (name ++ after) before after ∧ start = place.leading ++ place.column rest ∧
        parenthesis.Reads after [] start := by
  obtain ⟨silent, _, start, front, opened, nodes⟩ := between.opens.of_seq
  obtain ⟨name, before, children, after, rfl, named, opens, rfl⟩ := opened.of_branch
  cases silent with
  | cons node silent => simp at nodes
  | nil =>
    obtain ⟨reference, rfl⟩ : place.reference = String.ofList name ∧ [] = children := by simpa using nodes
    exact ⟨name, before, _, after, reference, front, named, rfl, opens⟩

theorem statement_reads_iff :
    tableStatement.Reads (place.statement rest) nodes left ↔
      ∃ children definitions, nodes = [place.table children definitions] ∧ GoesOn rest children definitions left := by
  obtain ⟨name, _, _, after, reference, head, named, rfl, opens⟩ := between.opening_parts
  obtain ⟨_, _, _, mark, -, -⟩ := opens.of_seq
  rw [tableStatement_reads_iff head named mark]
  simp only [tableBody_reads_iff opens, definitions_after_turns between.leads, between.column_reads_iff]
  constructor
  · rintro ⟨_, rfl, _, rfl, children, definitions, rfl, goes⟩
    exact ⟨children, definitions, by rw [table, reference], goes⟩
  · rintro ⟨children, definitions, rfl, goes⟩
    exact ⟨_, by rw [table, reference], _, rfl, children, definitions, rfl, goes⟩

/-- The script can be read if the rest of the column can, and what follows it. -/
theorem parse_iff {tree : Node} :
    parse (String.ofList (place.script rest)) = .ok tree ↔ ∃ children definitions left,
      GoesOn rest children definitions left ∧ (readFrom left).fault = none ∧
        tree = ⟨.root, "", place.tables ++ place.table children definitions :: (readFrom left).tables⟩ := by
  have visible : skipBlanks (place.statement rest) = place.statement rest :=
    skipBlanks_of_visible (visible_of_reads between.opens (by decide) (forall_among (by decide)))
  obtain ⟨name, _, _, after, -, head, named, -, opens⟩ := between.opening_parts
  obtain ⟨_, _, _, mark, -, -⟩ := opens.of_seq
  have begun := tableStatement_not_misses head named mark
  have single (nodes : List Node) (left : List Char) (reads : tableStatement.Reads (place.statement rest) nodes left) :
      ∃ node, nodes = [node] := by
    obtain ⟨_, _, made, -⟩ := between.statement_reads_iff.mp reads
    exact ⟨_, made⟩
  rw [script, parse_table_iff place.foregoing String.toList_ofList visible begun single]
  simp only [between.statement_reads_iff]
  constructor
  · rintro ⟨_, left, ⟨children, definitions, same, goes⟩, sound, rfl⟩
    obtain rfl := List.singleton_inj.mp same
    exact ⟨children, definitions, left, goes, sound, rfl⟩
  · rintro ⟨children, definitions, left, goes, sound, rfl⟩
    exact ⟨_, left, ⟨children, definitions, rfl, goes⟩, sound, rfl⟩

end Between

private theorem visible_column (headed : columnHead.Reads text nodes left) : blank.Misses text :=
  visible_of_reads headed (by decide) (forall_among (by decide))

private theorem visible_leading (leads : Turns (definition ++ separator) text nodes other)
    (visible : blank.Misses other) :
    blank.Misses text := by
  cases leads with
  | done => exact visible
  | turn reads _ => exact visible_of_reads reads (by decide) (forall_among (by decide))

theorem Reached.swap (reached : place.Reached rest) (swapped : Swapped rest other)
    (fits : ∀ part ∈ turnSought ++ typeSought, part.Misses rest → part.Misses other) : place.Reached other := by
  have fitting : ∀ part ∈ turnSought, part.Misses rest → part.Misses other :=
    fun part hpart => fits part (List.mem_append_left _ hpart)
  -- from the last attribute back to the beginning of the statement
  have told := (reached.told.swap attributeTurn_swaps (by decide) turns_exclude swapped fitting).1
  have attributes : ∀ part ∈ typeSought, part.Misses (place.attributes ++ rest) →
      part.Misses (place.attributes ++ other) :=
    fun part hpart => reached.told.misses attributeTurn_swaps (by decide) turns_exclude
      (turn_excludes part (List.mem_append_right _ hpart)) swapped fitting (fits part (List.mem_append_right _ hpart))
  have later := swapped.append place.attributes
  have modified := (reached.modified.swap modifierTurn_swaps (by decide) (by simp) later (by simp)).1
  have typed : ∀ part ∈ typeSought, part.Misses (place.typed rest) → part.Misses (place.typed other) :=
    fun part hpart => reached.modified.misses modifierTurn_swaps (by decide) (by simp)
      (modifier_excludes_type part hpart)
      later (by simp) (attributes part hpart)
  have after : Swapped (place.typed rest) (place.typed other) := later.append place.modifiers
  have headed := columnHead_swaps after typed reached.headed
  have named : place.head ≠ [] := by
    intro empty
    have shorter := reached.headed.length_lt (by decide)
    rw [column, empty] at shorter
    exact absurd shorter (Nat.lt_irrefl _)
  have apart : Excludes [] columnHead tableConstraint := named_excludes_tableConstraint _ _
  have columnar := apart named after (by simp) reached.headed reached.columnar
  have whole : Swapped (place.column rest) (place.column other) := after.append place.head
  have visible := visible_column headed
  have blank : Excludes [blank] (definition ++ separator) blank :=
    (excludes_of_bars (by decide)).mono (List.nil_subset _)
  have leads := (reached.leads.swap definition_separator_swaps (by decide) (List.forall_mem_singleton.mpr blank) whole
    (List.forall_mem_singleton.mpr fun _ => visible)).1
  have opens := tableOpening_swaps (whole.append place.leading)
    (List.forall_mem_singleton.mpr fun _ => visible_leading leads visible) reached.opens
  exact ⟨opens, leads, columnar, headed, modified, told⟩

def afterAttribute (place : AttributePlace) (taken : List Char) (node : Node) : AttributePlace :=
  { place with attributes := place.attributes ++ taken, told := place.told ++ [node] }

def afterModifier (place : AttributePlace) (taken : List Char) : AttributePlace :=
  { place with modifiers := place.modifiers ++ taken, attributes := [], told := [] }

theorem Reached.told_eq_nil (reached : place.Reached rest) (first : place.attributes = []) : place.told = [] := by
  have told := reached.told
  rw [first, List.nil_append] at told
  generalize place.told = nodes at told
  cases told with
  | done => rfl
  | turn reads others =>
    obtain ⟨taken, split⟩ := others.splits
    have shorter := reads.length_lt (by decide)
    rw [split, List.length_append] at shorter
    omega

theorem Reached.afterAttribute {taken : List Char} {node : Node} (reached : place.Reached (taken ++ rest))
    (turn : attributeTurn.Reads (taken ++ rest) [node] rest) : (place.afterAttribute taken node).Reached rest := by
  obtain ⟨opens, leads, columnar, headed, modified, told⟩ := reached
  have more := told.append (.turn turn .done)
  have same : place.attributes ++ (taken ++ rest) = (place.attributes ++ taken) ++ rest :=
    (List.append_assoc _ _ _).symm
  simp only [statement, column, typed, same] at opens leads columnar headed modified more
  exact ⟨opens, leads, columnar, headed, modified, more⟩

theorem Reached.afterModifier {taken : List Char} (reached : place.Reached (taken ++ rest))
    (first : place.attributes = [])
    (turn : modifierTurn.Reads (taken ++ rest) [] rest) : (place.afterModifier taken).Reached rest := by
  obtain ⟨opens, leads, columnar, headed, modified, told⟩ := reached
  have same : place.modifiers ++ (taken ++ rest) = (place.modifiers ++ taken) ++ rest := (List.append_assoc _ _ _).symm
  simp only [statement, column, typed, first, List.nil_append, same] at opens leads columnar headed modified told
  have more := modified.append (.turn turn .done)
  exact ⟨opens, leads, columnar, headed, more, .done⟩

end AttributePlace

section EveryPlace

variable {front : List Char} {told before after others tables : List Node} {type column : Node}
  {reference name : String}

theorem turns_of_attributes (reads : (many attributeTurn).Reads text (told ++ children) left) :
    ∃ rest, Turns attributeTurn text told rest ∧ (many attributeTurn).Reads rest children left := by
  induction told generalizing text with
  | nil => exact ⟨text, .done, reads⟩
  | cons first told ih =>
    rcases reads.of_many with ⟨nodes, _, _, turn, -, more, same⟩ | ⟨-, none, -⟩
    · obtain ⟨node, rfl, -⟩ := yields_leaf (by decide : attributeTurn.makesLeaf fun _ => true) turn.yields
      obtain ⟨rfl, rfl⟩ := List.cons.inj same
      obtain ⟨rest, turns, last⟩ := ih more
      exact ⟨rest, .turn turn turns, last⟩
    · cases none

theorem closing_kind (close : (Grammar.blanks ++ (commit "',' or ')'" (symbol ')') ++
    (Grammar.blanks ++ trimmedLeaf .tableOption statementTail))).Reads text nodes left) :
    ∀ node ∈ nodes, node.kind = .tableOption := by
  obtain ⟨_, _, _, gap, ended, rfl⟩ := close.of_seq
  obtain ⟨_, _, _, mark, tail, rfl⟩ := ended.of_seq
  obtain ⟨_, _, _, gap', options, rfl⟩ := tail.of_seq
  rw [gap.nodes_eq_nil (by decide), mark.nodes_eq_nil (by decide), gap'.nodes_eq_nil (by decide)]
  simp only [List.nil_append]
  rcases options_yields options.yields with rfl | ⟨option, rfl, kind, -⟩
  · simp
  · simpa using kind

theorem turns_of_definitions (columnar : column.kind = .columnDeclaration)
    (reads : (definition ++ afterDefinition).Reads text (before ++ column :: after) left) :
    ∃ start rest, Turns (definition ++ separator) text before start ∧ tableConstraint.Misses start ∧
      Grammar.column.Reads start [column] rest ∧ afterDefinition.Reads rest after left := by
  induction before generalizing text with
  | nil =>
    obtain ⟨_, _, rest, first, later, same⟩ := reads.of_seq
    obtain ⟨node, rfl, -⟩ := definition_yields first.yields
    obtain ⟨rfl, rfl⟩ := List.cons.inj same
    rcases first.of_context.of_choice with key | ⟨missed, column⟩
    · obtain ⟨_, made, kind, -⟩ :=
        yields_leaf (by decide : tableConstraint.makesLeaf (· == .tableConstraint)) key.yields
      obtain rfl := List.singleton_inj.mp made
      simp [columnar] at kind
    · exact ⟨text, rest, .done, missed, column, later⟩
  | cons node before ih =>
    obtain ⟨_, nodes, between, first, later, same⟩ := reads.of_seq
    obtain ⟨_, rfl, -⟩ := definition_yields first.yields
    obtain ⟨rfl, rfl⟩ : node = _ ∧ before ++ column :: after = nodes := List.cons.inj same
    obtain ⟨_, _, _, turns, close, same⟩ := later.of_seq
    rcases turns.of_many with ⟨_, _, _, turn, -⟩ | ⟨-, rfl, rfl⟩
    · obtain ⟨_, _, next, comma, -⟩ := turn.of_seq
      obtain rfl := comma.nodes_eq_nil (by decide)
      obtain ⟨start, rest, leads, found⟩ := ih ((afterDefinition_reads_iff comma).mp later)
      exact ⟨start, rest, .turn (first.seq comma) leads, found⟩
    · -- only the options of the table are left, which are no column
      have mem : column ∈ before ++ column :: after := List.mem_append_right _ List.mem_cons_self
      rw [same] at mem
      rw [closing_kind close column mem] at columnar
      cases columnar

theorem turns_of_modifiers (reads : (commit "data type" (Grammar.blanks ++ dataType)).Reads text nodes left) :
    ∃ rest, sizedType.Reads text nodes rest ∧ Turns modifierTurn rest [] left ∧ modifierTurn.Misses left := by
  have whole : (sizedType ++ many modifierTurn).Reads text nodes left := reads_assoc.mpr reads.of_commit
  obtain ⟨_, _, rest, sized, modified, rfl⟩ := whole.of_seq
  obtain rfl := modified.nodes_eq_nil (by decide)
  obtain ⟨turns, ended⟩ := (reads_many_iff (by rfl)).mp modified
  exact ⟨rest, by rwa [List.append_nil], turns, ended⟩

theorem parts_of_column {attributes : List Node}
    (reads : Grammar.column.Reads text [⟨.columnDeclaration, name, type :: attributes⟩] left) :
    ∃ sized start, columnHead.Reads text [⟨.columnDeclaration, name, [type]⟩] sized ∧
      Turns modifierTurn sized [] start ∧
      modifierTurn.Misses start ∧ (many attributeTurn).Reads start attributes left := by
  obtain ⟨word, _, _, _, rfl, spelled, body, made⟩ := reads.of_branch
  obtain ⟨rfl, rfl⟩ : name = String.ofList word ∧ _ = _ := by simpa using made
  obtain ⟨_, _, start, typed, turns, made⟩ := body.of_seq
  obtain ⟨_, rfl, -⟩ :=
    yields_leaf (by decide : (commit "data type" (Grammar.blanks ++ dataType)).makesLeaf NodeKind.isType) typed.yields
  obtain ⟨rfl, rfl⟩ := List.cons.inj made
  obtain ⟨sized, size, modifiers, unmodified⟩ := turns_of_modifiers typed
  exact ⟨sized, start, spelled.branch size .columnDeclaration, modifiers, unmodified, turns⟩

theorem parenthesis_of_tableBody (reads : tableBody.Reads text nodes left) :
    ∃ start, parenthesis.Reads text [] start := by
  simp only [tableBody, reads_assoc] at reads
  obtain ⟨_, _, _, gap, opened, rfl⟩ := reads.of_seq
  simp only [Grammar.definitions, reads_assoc] at opened
  obtain ⟨_, _, _, mark, after, rfl⟩ := opened.of_seq
  obtain ⟨_, _, start, gap', -, -⟩ := after.of_seq
  obtain rfl := gap.nodes_eq_nil (by decide)
  obtain rfl := mark.nodes_eq_nil (by decide)
  obtain rfl := gap'.nodes_eq_nil (by decide)
  exact ⟨start, (gap.seq mark).seq gap'⟩

theorem parts_of_tableStatement (reads : tableStatement.Reads text [⟨.createTable, reference, children⟩] left) :
    ∃ start, tableOpening.Reads text [⟨.createTable, reference, []⟩] start ∧
      (definition ++ afterDefinition).Reads start children left := by
  obtain ⟨_, _, _, begun, reads, same⟩ := reads.of_seq
  obtain rfl := begun.nodes_eq_nil (by decide)
  rcases reads.of_choice with reads | ⟨-, reads⟩
  · obtain ⟨title, _, _, _, rfl, named, body, rfl⟩ := reads.of_branch
    obtain ⟨rfl, rfl⟩ : reference = String.ofList title ∧ _ = _ := by simpa using same
    obtain ⟨start, mark⟩ := parenthesis_of_tableBody body
    exact ⟨start, begun.seq (named.branch mark .createTable), (tableBody_reads_iff mark).mp body⟩
  · rw [reads.nodes_eq_nil (by decide)] at same
    cases same

namespace AttributePlace

/-- Where a table is read, there is a place after any of the attributes of any of its columns. -/
theorem exists_between (foregoing : Foregoing front tables)
    (reads : tableStatement.Reads text [⟨.createTable, reference,
      definitions ++ ⟨.columnDeclaration, name, type :: (told ++ children)⟩ :: others⟩] left) :
    ∃ (place : AttributePlace) (rest : List Char), place.Between rest ∧ GoesOn rest children others left ∧
      place.script rest = front ++ text ∧ place.tables = tables ∧ place.definitions = definitions ∧ place.told = told ∧
      place.table children others = ⟨.createTable, reference,
        definitions ++ ⟨.columnDeclaration, name, type :: (told ++ children)⟩ :: others⟩ := by
  obtain ⟨_, opens, defined⟩ := parts_of_tableStatement reads
  obtain ⟨_, _, leads, columnar, column, later⟩ := turns_of_definitions rfl defined
  obtain ⟨_, _, headed, modified, unmodified, turns⟩ := parts_of_column column
  obtain ⟨rest, turns, further⟩ := turns_of_attributes turns
  -- the texts of the parts of the place
  obtain ⟨attributes, rfl⟩ := turns.splits
  obtain ⟨modifiers, rfl⟩ := modified.splits
  obtain ⟨head, rfl⟩ := headed.splits
  obtain ⟨leading, rfl⟩ := leads.splits
  obtain ⟨opening, rfl⟩ := opens.splits
  let place : AttributePlace :=
    ⟨front, tables, foregoing, opening, reference, leading, definitions, head, name, [type], modifiers,
      attributes, told⟩
  have reached : place.Reached rest := ⟨opens, leads, columnar, headed, modified, turns⟩
  exact ⟨place, rest, ⟨reached, unmodified⟩, ⟨_, further, later⟩, rfl, rfl, rfl, rfl, rfl⟩

end AttributePlace

end EveryPlace

end DdlModels.Sql
