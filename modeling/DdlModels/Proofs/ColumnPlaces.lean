import DdlModels.Proofs.Composition
import DdlModels.Proofs.QualifiedNames

/-!
# Places of columns

A column may stand anywhere in a script: after other statements, and after other definitions of its table.
What the script's tree holds besides is read alike whatever the column's type and attributes are.
-/

namespace DdlModels.Sql

open Text Grammar Script

def columnBody : Grammar :=
  .commit "data type" (Grammar.blanks ++ dataType) ++ .many (Grammar.blanks ++ columnAttribute)

def separator : Grammar := Grammar.blanks ++ symbol ',' ++ Grammar.blanks

def afterDefinition : Grammar :=
  .many (separator ++ definition) ++
    (Grammar.blanks ++ (.commit "',' or ')'" (symbol ')') ++
      (Grammar.blanks ++ trimmedLeaf .tableOption statementTail)))

variable {text start front rest : List Char} {nodes lead : List Node}

/-- What is read and begins with no mark of a blank does not stand after one. -/
theorem visible_of_reads {grammar : Grammar} (reads : grammar.Reads text nodes rest) (advances : grammar.advances)
    (blocks : ∀ c ∈ blankStarts, grammar.blocked (refusedAt c)) : blank.Misses text := by
  obtain ⟨c, more, rfl⟩ := List.exists_cons_of_ne_nil (reads_ne_nil reads advances)
  refine blank_misses ?_ more
  intro mark
  exact reads.not_misses (misses_of_blocked (refuses_at c more) (blocks c mark))

def parenthesis : Grammar := Grammar.blanks ++ symbol '(' ++ Grammar.blanks

theorem tableBody_reads_iff (opens : parenthesis.Reads text [] start) :
    tableBody.Reads text nodes rest ↔ (definition ++ afterDefinition).Reads start nodes rest := by
  obtain ⟨_, _, _, front, last, silent⟩ := opens.of_seq
  obtain ⟨_, _, _, gap, mark, silent'⟩ := front.of_seq
  obtain ⟨rfl, rfl⟩ := List.append_eq_nil_iff.mp silent.symm
  obtain ⟨rfl, rfl⟩ := List.append_eq_nil_iff.mp silent'.symm
  simp only [tableBody, definitions, reads_assoc, gap.then_iff, mark.then_iff, last.then_iff]
  rw [reads_seq_iff, reads_seq_iff]
  simp only [reads_cut_iff]
  rfl

theorem afterDefinition_reads_iff (comma : separator.Reads text [] start) :
    afterDefinition.Reads text nodes rest ↔ (definition ++ afterDefinition).Reads start nodes rest := by
  constructor
  · intro reads
    obtain ⟨_, _, _, turns, last, rfl⟩ := reads.of_seq
    rcases turns.of_many with ⟨_, _, _, turn, -, more, rfl⟩ | ⟨-, rfl, rfl⟩
    · rw [List.append_assoc]
      exact (comma.then_iff.mp turn).seq (more.seq last)
    · -- what ends the definitions is no comma
      obtain ⟨_, _, _, gap, close, -⟩ := last.of_seq
      obtain ⟨_, _, _, parenthesis, -, -⟩ := close.of_seq
      obtain ⟨_, _, _, before, -, -⟩ := comma.of_seq
      obtain ⟨_, _, _, blanks, mark, -⟩ := before.of_seq
      obtain ⟨-, rfl⟩ := gap.unique blanks
      have same := (reads_symbol parenthesis.of_commit).symm.trans (reads_symbol mark)
      cases same
  · intro reads
    obtain ⟨_, _, _, first, others, rfl⟩ := reads.of_seq
    obtain ⟨_, _, _, turns, last, rfl⟩ := others.of_seq
    rw [← List.append_assoc]
    exact ((comma.then_iff.mpr first).many (by decide) turns).seq last

theorem definition_then_iff {more : List Node} (turn : (definition ++ separator).Reads text nodes start) :
    (definition ++ afterDefinition).Reads text more rest ↔
      ∃ others, more = nodes ++ others ∧ (definition ++ afterDefinition).Reads start others rest := by
  obtain ⟨_, silent, between, first, comma, rfl⟩ := turn.of_seq
  obtain rfl := comma.nodes_eq_nil (by decide)
  rw [List.append_nil, first.seq_iff]
  exact exists_congr fun others => and_congr_right fun _ => afterDefinition_reads_iff comma

/-- Definitions with a comma after each of them, which are read alike whatever follows. -/
inductive Leading : List Char → List Node → Prop where
  | nil : Leading [] []
  | cons {text front : List Char} {nodes lead : List Node} :
      (∀ rest, blank.Misses rest → (definition ++ separator).Reads (text ++ rest) nodes rest) →
      Leading front lead → Leading (text ++ front) (nodes ++ lead)

theorem Leading.visible (leading : Leading front lead) (visible : blank.Misses text) :
    blank.Misses (front ++ text) := by
  induction leading with
  | nil => exact visible
  | cons reads _ ih =>
    have marks : ∀ c ∈ blankStarts, (definition ++ separator).blocked (refusedAt c) :=
      forall_among (by decide)
    rw [List.append_assoc]
    exact visible_of_reads (reads _ ih) (by decide) marks

theorem Leading.reads_iff (leading : Leading front lead) (visible : blank.Misses text) :
    (definition ++ afterDefinition).Reads (front ++ text) nodes rest ↔
      ∃ more, nodes = lead ++ more ∧ (definition ++ afterDefinition).Reads text more rest := by
  induction leading generalizing nodes with
  | nil => simp
  | cons reads leading ih =>
    rw [List.append_assoc, definition_then_iff (reads _ (leading.visible visible))]
    constructor
    · rintro ⟨_, rfl, others⟩
      obtain ⟨more, rfl, last⟩ := ih.mp others
      exact ⟨more, by rw [List.append_assoc], last⟩
    · rintro ⟨more, rfl, last⟩
      exact ⟨_, by rw [List.append_assoc], ih.mpr ⟨more, rfl, last⟩⟩

theorem Leading.of_reads {between : List Char} (plain : Plain text) (reads : definition.Reads text nodes between)
    (comma : skipBlanks between = [',']) : Leading (text ++ " \n".toList) nodes := by
  have closed : ClosedBy [',', ')'] between := ⟨',', [], comma, by decide⟩
  have one (rest : List Char) (visible : blank.Misses rest) :
      (definition ++ separator).Reads (text ++ " \n".toList ++ rest) nodes rest := by
    have longer := definition_continues plain reads closed rest
    have gap := blanks_continue (plain.reads reads) (by simp [comma]) rest
    rw [comma] at gap
    have after : Grammar.blanks.Reads (' ' :: '\n' :: rest) [] rest :=
      blanks_read_space rfl (blanks_read_space rfl visible.many)
    have whole : text ++ " \n".toList ++ rest = text ++ ' ' :: '\n' :: rest := by simp
    have read := longer.seq ((gap.seq (symbol_reads ',' _)).seq after)
    rwa [List.append_nil, List.append_nil, List.append_nil, ← whole] at read
  have leading := Leading.cons one .nil
  rwa [List.append_nil, List.append_nil] at leading

/-- Where a column stands in a script: after what statements, in what table, after what definitions of it and
under what name. -/
structure ColumnPlace where
  front : List Char
  tables : List Node
  foregoing : Foregoing front tables
  schemas : List Identifier
  last : Identifier
  leading : List Char
  definitions : List Node
  leads : Leading leading definitions
  name : Identifier
  /-- Nothing but a column begins with this name. -/
  columnar : ∀ rest, tableConstraint.Misses (name.written ++ ' ' :: rest)

namespace ColumnPlace

variable (place : ColumnPlace)

def script (rest : List Char) : List Char :=
  place.front ++ createTable place.schemas place.last (place.leading ++ (place.name.written ++ ' ' :: rest))

def reference : String := String.ofList (Identifier.dotted place.schemas place.last)

def column (children : List Node) : Node := ⟨.columnDeclaration, String.ofList place.name.written, children⟩

def tree (children definitions tables : List Node) : Node :=
  ⟨.root, "", place.tables ++
    ⟨.createTable, place.reference, place.definitions ++ place.column children :: definitions⟩ :: tables⟩

theorem definition_reads_iff :
    definition.Reads (place.name.written ++ ' ' :: text) nodes rest ↔
      ∃ children, nodes = [place.column children] ∧ columnBody.Reads (' ' :: text) children rest := by
  have named := place.name.reads (endsName_space text).1
  rw [definition, reads_context_iff, (place.columnar text).orElse_iff, Grammar.column, named.branch_iff]
  rfl

/-- The script can be read if the column can, and what follows it. -/
theorem parse_iff (rest : List Char) {tree : Node} :
    parse (String.ofList (place.script rest)) = .ok tree ↔
      ∃ children definitions between left, columnBody.Reads (' ' :: rest) children between ∧
        afterDefinition.Reads between definitions left ∧ (readFrom left).fault = none ∧
        tree = place.tree children definitions (readFrom left).tables := by
  have visible := place.name.blank_misses (' ' :: rest)
  have opens := (space_parenthesis_reads _).seq (place.leads.visible visible).many
  rw [script, parse_createTable_iff place.foregoing String.toList_ofList]
  simp only [createTable_reads_iff, tableBody_reads_iff opens,
    place.leads.reads_iff visible]
  constructor
  · rintro ⟨_, left, ⟨_, same, _, rfl, reads⟩, sound, rfl⟩
    obtain rfl := List.singleton_inj.mp same
    obtain ⟨_, definitions, between, one, others, rfl⟩ := reads.of_seq
    obtain ⟨children, rfl, body⟩ := place.definition_reads_iff.mp one
    exact ⟨children, definitions, between, left, body, others, sound, rfl⟩
  · rintro ⟨children, definitions, between, left, body, others, sound, rfl⟩
    have one := place.definition_reads_iff.mpr ⟨children, rfl, body⟩
    exact ⟨_, left, ⟨_, rfl, _, rfl, one.seq others⟩, sound, rfl⟩

/-- The tables of the package: the column stands in its place between the others. -/
theorem tables_packageNamed (packageName : String) (children definitions tables : List Node) :
    (Node.packageNamed packageName (place.tree children definitions tables)).tables =
      place.tables.map Node.table ++
        ⟨DdlModels.tableName place.reference, Node.columns place.definitions ++
          (place.column children).column :: Node.columns definitions⟩ :: tables.map Node.table := by
  have columns : Node.columns (place.definitions ++ place.column children :: definitions) =
      Node.columns place.definitions ++ (place.column children).column :: Node.columns definitions := by
    rw [Node.columns, List.filter_append, List.map_append]
    rfl
  rw [Node.packageNamed, tree, List.map_append, List.map_cons, Node.table, columns]

end ColumnPlace

end DdlModels.Sql
