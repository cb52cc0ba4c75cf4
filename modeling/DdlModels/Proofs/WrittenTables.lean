import DdlModels.Proofs.FieldTypes
import DdlModels.Proofs.Steps
import DdlModels.Proofs.WrittenColumns

/-!
# Round trips of written tables

Tables that are laid out in a source, with any gaps between their tokens and with keywords in any case,
are read back: the package that is built has the structs and the fields that the tables stand for.
-/

namespace DdlModels.Written

open Sql Text Grammar

def Definition.ToldBy : Definition → Node → Prop
  | .column written, node => node.kind = .columnDeclaration ∧ node.column = written.field ∧
      node.children.flatMap Node.typeImports =
        (written.type.category.rules.classify written.type.name).imports
  | .primaryKey _, node => node.kind = .tableConstraint ∧ node.children = []

def Definition.closingToken (written : Definition) (mark : Char) : Token :=
  { spacing := written.closing, form := .exact [mark] }

private theorem marks_end : ∀ mark ∈ [',', ')'], blank.blocked (refusedAt mark) ∧
    afterColumn (refusedAt mark) ∧ mark ∈ definitionStops ∧ mark ≠ '(' ∧ isQuote mark = false :=
  forall_among (by decide)

/-- White space before a mark is passed over by the scan for the end of a key, and so is the rest of it. -/
private theorem scan_primaryKey {key gap gap' gap'' : List Char} (spells : Spells "KEY" key)
    (columns : Group) (white : ∀ c ∈ gap ++ gap' ++ gap'', c ∈ [' ', '\t', '\n']) {mark : Char}
    (hmark : mark ∈ [',', ')']) (rest : List Char) :
    scan Leap.literals.withGroups definitionStops
      (gap ++ (key ++ (gap' ++ (columns.text ++ (gap'' ++ (mark :: rest)))))) = mark :: rest := by
  obtain ⟨-, -, stops, not_open, not_quote⟩ := marks_end mark hmark
  have spaces : ∀ c ∈ [' ', '\t', '\n'], c ∉ definitionStops := forall_among (by decide)
  have pass {before : List Char} (h : ∀ c ∈ before, c ∈ gap ++ gap' ++ gap'') (text : List Char) :
      scan Leap.literals.withGroups definitionStops (before ++ text) =
        scan Leap.literals.withGroups definitionStops text :=
    scan_append (fun c hc => spaces c (white c (h c hc))) definitionStops_quiet text
  have letters : ∀ c ∈ key, c ∉ definitionStops := by
    intro c hc
    have word := isWordChar_of_spelled (spells.keywordChars (by decide) c hc)
    have others : ∀ c ∈ definitionStops, isWordChar c = false := forall_among (by decide)
    intro stop
    rw [others c stop] at word
    exact absurd word Bool.false_ne_true
  obtain ⟨inner, whole, -⟩ := columns.text_eq
  have jump : Leap.literals.withGroups.over? (columns.text ++ (gap'' ++ mark :: rest)) =
      some (gap'' ++ mark :: rest) :=
    Option.or_eq_some_iff.mpr (.inl (Leap.groups_append columns.over_eq _))
  rw [pass (fun c hc => by simp [hc]), scan_append letters definitionStops_quiet,
    pass (fun c hc => by simp [hc])]
  rw [whole, List.cons_append] at jump ⊢
  rw [scan_leap jump, pass (fun c hc => by simp [hc]),
    scan_char (Leap.withGroups_over_none not_open not_quote rest), if_pos stops]

private theorem tableConstraint_leaf {word rest : List Char} (begins : BeginsWithWord "PRIMARY" word rest)
    (between : List Char) : ∃ node, trimmedLeafOf .tableConstraint (word ++ between) = [node] ∧
      node.kind = .tableConstraint ∧ node.children = [] := by
  obtain ⟨c, more, rfl⟩ := List.exists_cons_of_ne_nil begins.word_ne_nil
  have visible := isBlank_of_spelled (begins.keywordChars c List.mem_cons_self)
  have ne : trim (c :: more ++ between) ≠ [] :=
    trim_ne_nil (List.mem_append_left between List.mem_cons_self) visible
  simp only [trimmedLeafOf]
  exact ⟨_, rfl, rfl, rfl⟩

theorem Definition.reads (written : Definition) {mark : Char} (hmark : mark ∈ [',', ')'])
    {after : List Token} {text : List Char} (gapped : Gapped after)
    (h : Laid (written.tokens ++ written.closingToken mark :: after) text) :
    ∃ start node left rest, (Grammar.blanks.Reads text [] start ∧ definition.Reads start [node] left) ∧
      Grammar.blanks.Reads left [] (mark :: rest) ∧ written.ToldBy node ∧ Laid after rest := by
  obtain ⟨blocks, ends, stops, -, -⟩ := marks_end mark hmark
  cases written with
  | column column =>
    have ended : Ends afterColumn (Definition.closingToken (.column column) mark :: after) :=
      ⟨_, _, rfl, by simp [closingToken, closing], gapped, ⟨List.cons_ne_nil _ _, blocks⟩, ends⟩
    obtain ⟨start, node, left, read, told, laid⟩ := column.reads h ended
    have visible (rest : List Char) : blank.Misses ([mark] ++ rest) :=
      misses_of_blocked (refuses_at mark rest) blocks
    obtain ⟨rest, gap, laid'⟩ := Laid.exact laid visible
    exact ⟨start, node, left, rest, read, gap, told, laid'⟩
  | primaryKey columns =>
    have apart : Gapped ({ spacing := .white, form := .word "KEY" } ::
        { spacing := .white, form := .exact columns.text } ::
          Definition.closingToken (.primaryKey columns) mark :: after) := by
      intro token htoken
      obtain rfl := Option.some.inj htoken
      simp
    obtain ⟨word, text', gap, begins, laid⟩ := Laid.word h apart (by decide)
    have start := begins.keyword_reads
    cases laid with
    | @token _ _ gap₁ key _ allows₁ spells laid =>
      cases laid with
      | @token _ _ gap₂ group _ allows₂ writes laid =>
        cases laid with
        | @token _ _ gap₃ closing rest allows₃ closes laid =>
          obtain rfl : group = columns.text := writes
          obtain rfl : closing = [mark] := closes
          have white : ∀ c ∈ gap₁ ++ gap₂ ++ gap₃, c ∈ [' ', '\t', '\n'] := by
            intro c hc
            rcases List.mem_append.mp hc with hc | hc
            · rcases List.mem_append.mp hc with hc | hc
              · exact allows₁.1 c hc
              · exact allows₂.1 c hc
            · exact allows₃.1 c hc
          -- the key as it is written goes up to the mark, the white space before that included
          have tail := definitionTail_reads
            (gap₁ ++ (key ++ (gap₂ ++ (columns.text ++ (gap₃ ++ (mark :: rest))))))
          rw [scan_primaryKey spells columns white hmark rest] at tail
          obtain ⟨between, whole⟩ := tail.splits
          replace start : (keyword "PRIMARY").Reads (word ++ (between ++ mark :: rest)) []
              (between ++ mark :: rest) := whole ▸ start
          rw [whole] at tail
          have key_read : (anyKeyword "PRIMARY" ["UNIQUE", "KEY", "INDEX", "FULLTEXT", "SPATIAL",
              "CONSTRAINT", "FOREIGN", "CHECK"] ++ definitionTail).Reads
              (word ++ between ++ mark :: rest) [] (mark :: rest) := by
            rw [List.append_assoc]
            exact start.orElse.seq tail
          obtain ⟨node, leaf, kind, children⟩ := tableConstraint_leaf begins between
          have read : definition.Reads (word ++ between ++ mark :: rest) [node] (mark :: rest) := by
            rw [← leaf]
            exact (key_read.trimmedLeaf .tableConstraint).orElse.context _
          have idle : Grammar.blanks.Reads (mark :: rest) [] (mark :: rest) :=
            reads_of_idle (refuses_at mark rest) blocks
          rw [List.append_assoc, ← whole] at read
          exact ⟨_, node, mark :: rest, rest, ⟨gap, read⟩, idle, ⟨kind, children⟩, laid⟩

theorem definitions_read (first : Definition) (more : List Definition) {after : List Token}
    {text : List Char} (gapped : Gapped after) (h : Laid (first.allTokens more ++ after) text) :
    ∃ start node nodes left left' rest,
      (Grammar.blanks.Reads text [] start ∧ definition.Reads start [node] left) ∧
      (Grammar.many (Grammar.blanks ++ symbol ',' ++ Grammar.blanks ++ definition)).Reads left nodes left' ∧
      Grammar.blanks.Reads left' [] (')' :: rest) ∧
      List.Forall₂ Definition.ToldBy (first :: more) (node :: nodes) ∧ Laid after rest := by
  induction more generalizing first text with
  | nil =>
    rw [Definition.allTokens, List.append_assoc] at h
    obtain ⟨start, node, left, rest, read, gap, told, laid⟩ := first.reads (by decide) gapped h
    have none : (Grammar.blanks ++ symbol ',').Misses left :=
      gap.seq_misses (symbol_misses (by decide) rest)
    exact ⟨start, node, [], left, left, rest, read, none.seq_first.seq_first.many, gap,
      .cons told .nil, laid⟩
  | cons next more ih =>
    rw [Definition.allTokens, List.append_assoc] at h
    have next_gapped : Gapped (next.allTokens more ++ after) := by
      cases more <;> cases next <;> exact gapped_of_apart
    obtain ⟨start, node, left, rest, read, gap, told, laid⟩ := first.reads (by decide) next_gapped h
    obtain ⟨start', node', nodes, between, left', rest', read', reads, close, tolds, laid'⟩ :=
      ih next laid
    have turn := ((gap.seq (symbol_reads ',' rest)).seq read'.1).seq read'.2
    exact ⟨start, node, node' :: nodes, left, left', rest', read, turn.many (by decide) reads,
      close, .cons told tolds, laid'⟩

structure Table.ToldBy (written : Table) (node : Node) : Prop where
  struct : node.table = written.struct
  imports : Node.imports [node] = written.columns.flatMap fun column =>
    (column.type.category.rules.classify column.type.name).imports

theorem columns_told {definitions : List Definition} {nodes : List Node}
    (h : List.Forall₂ Definition.ToldBy definitions nodes) :
    Node.columns nodes = (definitions.filterMap Definition.column?).map Column.field ∧
      (nodes.flatMap fun node => node.children.flatMap Node.typeImports) =
        (definitions.filterMap Definition.column?).flatMap fun column =>
          (column.type.category.rules.classify column.type.name).imports := by
  induction h with
  | nil => exact ⟨rfl, rfl⟩
  | @cons definition node _ nodes told _ ih =>
    cases definition with
    | column written =>
      obtain ⟨kind, field, imports⟩ := told
      have columns : Node.columns (node :: nodes) = node.column :: Node.columns nodes := by
        simp [Node.columns, kind]
      rw [columns, ih.1, List.flatMap_cons, ih.2, imports, field]
      exact ⟨rfl, rfl⟩
    | primaryKey group =>
      obtain ⟨kind, children⟩ := told
      have columns : Node.columns (node :: nodes) = Node.columns nodes := by
        simp [Node.columns, kind]
      rw [columns, ih.1, List.flatMap_cons, ih.2, children]
      exact ⟨rfl, rfl⟩

private theorem temporary_reads (temporary : Bool) {after : List Token} {text : List Char}
    (gapped : Gapped after)
    (h : Laid (Table.temporaryTokens temporary ++ { form := .word "TABLE" } :: after) text) :
    ∃ left word rest, (further "TEMPORARY").Reads text [] left ∧
      Grammar.blanks.Reads left [] (word ++ rest) ∧ BeginsWithWord "TABLE" word rest ∧
      Laid after rest := by
  cases temporary with
  | false =>
    obtain ⟨word, rest, gap, begins, laid⟩ := Laid.word h gapped (by decide)
    have next : Next (refusedAtWord "TABLE") text := ⟨word ++ rest, gap, begins.refuses⟩
    exact ⟨text, word, rest, next.optional (by decide), gap, begins, laid⟩
  | true =>
    obtain ⟨word, rest, gap, begins, laid⟩ := Laid.word h gapped_of_apart (by decide)
    obtain ⟨word', rest', gap', begins', laid'⟩ := laid.word gapped (by decide)
    exact ⟨rest, word', rest', (gap.seq begins.keyword_reads).optional, gap', begins', laid'⟩

private theorem enquote_visible (name : String) (rest : List Char) :
    blank.Misses (enquote '\x60' name.toList ++ rest) :=
  misses_of_blocked (refuses_at '\x60' _) (by decide)

private theorem ifNotExists_reads (ifNotExists : Bool) {name : String} {after : List Token}
    {text : List Char}
    (h : Laid (Table.ifNotExistsTokens ifNotExists ++
      { form := .exact (enquote '\x60' name.toList) } :: after) text) :
    ∃ left rest, (Grammar.optional (Grammar.blanks ++ phrase "IF" ["NOT", "EXISTS"])).Reads text [] left ∧
      Grammar.blanks.Reads left [] (enquote '\x60' name.toList ++ rest) ∧ Laid after rest := by
  cases ifNotExists with
  | false =>
    obtain ⟨rest, gap, laid⟩ := Laid.exact h (enquote_visible name)
    have next : Next (refusedAt '\x60') text := ⟨_, gap, refuses_at '\x60' _⟩
    exact ⟨text, rest, next.optional (by decide), gap, laid⟩
  | true =>
    obtain ⟨word, rest, gap, begins, laid⟩ := Laid.word h gapped_of_apart (by decide)
    obtain ⟨word', rest', gap', begins', laid'⟩ := laid.word gapped_of_apart (by decide)
    obtain ⟨word'', rest'', gap'', begins'', laid''⟩ := laid'.word gapped_of_apart (by decide)
    obtain ⟨rest₃, gap₃, laid₃⟩ := laid''.exact (enquote_visible name)
    have phrase := (begins.keyword_reads.seq gap').seq
      ((begins'.keyword_reads.seq gap'').seq begins''.keyword_reads)
    exact ⟨rest'', rest₃, (gap.seq phrase).optional, gap₃, laid₃⟩

private theorem tableName_reads (name : String) {rest : List Char} (gap : StartsGap rest) :
    Grammar.tableName.Reads (enquote '\x60' name.toList ++ rest) [] rest := by
  have quoted : identifier.Reads (enquote '\x60' name.toList ++ rest) [] rest :=
    (readQuoted_enquote (by decide) (.inl rfl) (gap.head_ne (by decide))).orElse
  have dot : (symbol '.').Misses rest := by
    cases rest with
    | nil => exact ⟨_, rfl⟩
    | cons c rest =>
      refine symbol_misses ?_ rest
      rintro rfl
      exact absurd (gap '.' rfl) (by decide)
  exact (quoted.seq dot.seq_first.many).commit "table name"

/-- The statement that creates a table is read as a node that tells it. -/
theorem Table.reads (written : Table) {after : List Token} {text : List Char}
    (h : Laid (written.tokens ++ after) text) :
    ∃ start node rest, Grammar.blanks.Reads text [] start ∧
      tableStatement.Reads start [node] (';' :: rest) ∧ written.ToldBy node ∧ Laid after rest := by
  simp only [Table.tokens, List.cons_append, List.append_assoc, List.nil_append] at h
  have gapped₁ (tokens : List Token) :
      Gapped (Table.temporaryTokens written.temporary ++ { form := .word "TABLE" } :: tokens) := by
    cases written.temporary <;> exact gapped_of_apart
  have gapped₂ (tokens : List Token) : Gapped (Table.ifNotExistsTokens written.ifNotExists ++
      { form := .exact (enquote '\x60' written.name.toList) } :: tokens) := by
    cases written.ifNotExists <;> exact gapped_of_apart
  obtain ⟨create, text₁, gap₁, begins₁, laid₁⟩ := Laid.word h (gapped₁ _) (by decide)
  obtain ⟨left₂, table, text₂, temporary, gap₂, begins₂, laid₂⟩ :=
    temporary_reads written.temporary (gapped₂ _) laid₁
  obtain ⟨left₃, text₃, ifNotExists, gap₃, laid₃⟩ := ifNotExists_reads written.ifNotExists laid₂
  have head : tableHead.Reads (create ++ text₁) [] left₃ :=
    (((begins₁.keyword_reads.seq temporary).seq gap₂).seq begins₂.keyword_reads).seq ifNotExists
  have name := tableName_reads written.name (laid₃.startsGap gapped_of_apart)
  obtain ⟨text₄, gap₄, laid₄⟩ := laid₃.exact fun rest => misses_of_blocked (refuses_at '(' rest) (by decide)
  obtain ⟨start₅, node, nodes, left₅, left₆, text₆, first, more, gap₆, told, laid₆⟩ :=
    definitions_read written.first written.more gapped_of_apart laid₄
  obtain ⟨text₇, gap₇, laid₇⟩ := laid₆.exact fun rest => misses_of_blocked (refuses_at ';' rest) (by decide)
  have inner : Grammar.definitions.Reads ('(' :: text₄) (node :: nodes) text₆ := by
    have read := (((((symbol_reads '(' text₄).seq first.1).seq first.2.cut).seq more).seq
      gap₆).seq ((symbol_reads ')' text₆).commit "',' or ')'")
    simp only [List.nil_append, List.append_nil, List.singleton_append] at read
    exact read
  have options : (trimmedLeaf .tableOption statementTail).Reads (';' :: text₇) [] (';' :: text₇) := by
    have none : statementTail.Reads ([] ++ ';' :: text₇) [] (';' :: text₇) :=
      reads_of_idle (refuses_at ';' text₇) (by decide)
    exact none.trimmedLeaf .tableOption
  have body : (Grammar.blanks ++ Grammar.definitions ++ Grammar.blanks ++
      trimmedLeaf .tableOption statementTail).Reads text₃ (node :: nodes) (';' :: text₇) := by
    have read := ((gap₄.seq inner).seq gap₇).seq options
    simp only [List.nil_append, List.append_nil] at read
    exact read
  have read : tableStatement.Reads (create ++ text₁)
      [⟨.createTable, String.ofList (enquote '\x60' written.name.toList), node :: nodes⟩] (';' :: text₇) :=
    (head.seq gap₃).seq (name.branch body .createTable).orElse
  have columns := columns_told told
  refine ⟨create ++ text₁, _, text₇, gap₁, read, ⟨?_, ?_⟩, laid₇⟩
  · rw [Node.table, tableName_enquote written.undotted, columns.1]
    rfl
  · simp only [Node.imports, List.flatMap_cons, List.flatMap_nil, List.append_nil]
    exact columns.2

/-- Tables that are laid out in a text are its statements. -/
theorem script_reads {tables : List Table} {text : List Char}
    (h : Laid (tables.flatMap Table.tokens) text) :
    (Script.readFrom text).fault = none ∧
      List.Forall₂ Table.ToldBy tables (Script.readFrom text).tables := by
  induction tables generalizing text with
  | nil =>
    cases h with
    | done gap =>
      have visible : blank.Misses [] := ⟨_, rfl⟩
      have read := gap.reads visible
      rw [List.append_nil] at read
      have ended : Script.next text = .ended := Script.next_ended (skipBlanks_eq read)
      rw [Script.readFrom_eq, ended]
      exact ⟨rfl, .nil⟩
  | cons table tables ih =>
    rw [List.flatMap_cons] at h
    obtain ⟨start, node, rest, gap, ⟨taken, read⟩, told, laid⟩ := table.reads h
    obtain ⟨fault, tolds⟩ := ih laid
    have statement : Script.next text = .statement (.table node) (';' :: rest) :=
      Script.next_of_table (skipBlanks_eq gap) read
    have separator : Script.next (';' :: rest) = .separator rest := by
      have idle : Grammar.blanks.Reads (';' :: rest) [] (';' :: rest) :=
        reads_of_idle (refuses_at ';' rest) (by decide)
      exact Script.next_separator (skipBlanks_eq idle)
    rw [Script.readFrom_eq, statement]
    simp only
    rw [Script.readFrom_eq, separator]
    exact ⟨fault, .cons told tolds⟩

private theorem imports_told {tables : List Table} {nodes : List Node}
    (h : List.Forall₂ Table.ToldBy tables nodes) :
    Node.imports nodes = tables.flatMap fun table => table.columns.flatMap fun column =>
      (column.type.category.rules.classify column.type.name).imports := by
  induction h with
  | nil => rfl
  | @cons table node _ nodes told _ ih =>
    have split : Node.imports (node :: nodes) = Node.imports [node] ++ Node.imports nodes := by
      simp [Node.imports]
    rw [split, told.imports, ih]
    rfl

private theorem structs_told {tables : List Table} {nodes : List Node}
    (h : List.Forall₂ Table.ToldBy tables nodes) : nodes.map Node.table = tables.map Table.struct := by
  induction h with
  | nil => rfl
  | cons told _ ih => rw [List.map_cons, List.map_cons, told.struct, ih]

private theorem imports_eq_nil (tables : List Table) :
    (tables.flatMap fun table => table.columns.flatMap fun column =>
      (column.type.category.rules.classify column.type.name).imports) = [] ↔
      (tables.any fun table => table.columns.any fun column =>
        column.type.goType == GoType.time) = false := by
  simp only [List.flatMap_eq_nil_iff, List.any_eq_false, Bool.not_eq_true, beq_eq_false_iff_ne,
    imports_of_goType, TypeWord.goType]
  constructor
  · intro h table htable column hcolumn same
    have none := h table htable column hcolumn
    rw [if_pos same] at none
    contradiction
  · intro h table htable column hcolumn
    rw [if_neg (h table htable column hcolumn)]

/-- Tables that are laid out in a source are read back from it. -/
theorem laid_tables_are_built (settings : Settings) {tables : List Table} {source : String}
    (h : Lays tables source) :
    (buildPackage settings source).result = .ok (package settings.packageName tables) := by
  obtain ⟨fault, told⟩ := script_reads h
  have parsed : Sql.parse source = .ok ⟨.root, "", (Script.readFrom source.toList).tables⟩ := by
    simp only [Sql.parse, readScript, Script.tree, fault]
  rw [(buildPackage_of_parse settings parsed).1]
  have all_time : ∀ path ∈ Node.imports (Script.readFrom source.toList).tables, path = "time" := by
    intro path hpath
    rw [imports_told told] at hpath
    simp only [List.mem_flatMap, imports_of_goType] at hpath
    obtain ⟨table, -, column, -, mem⟩ := hpath
    split at mem
    case isTrue => exact List.mem_singleton.mp mem
    case isFalse => contradiction
  have imports := Package.addImports_same all_time settings.packageName
  rw [imports_told told] at imports
  have name := Package.addImports_name { name := settings.packageName }
    (Node.imports (Script.readFrom source.toList).tables)
  rw [imports_told told] at name
  have needed := imports_eq_nil tables
  simp only [Node.packageNamed, package, structs_told told, name, imports_told told, imports,
    Except.ok.injEq, Package.mk.injEq, true_and]
  cases moment : tables.any fun table => table.columns.any fun column =>
      column.type.goType == GoType.time with
  | false =>
    rw [if_pos (needed.mpr moment)]
    rfl
  | true =>
    have some_import := mt needed.mp (by simp [moment])
    rw [if_neg some_import]
    rfl

def momentColumn : Column where
  name := "at"
  type := ⟨"DATETIME", .dimension, rfl⟩
  attributes := [.notNull]
  once := by decide

def momentTable : Table := { name := "t", undotted := by decide, first := .column momentColumn }

theorem moment_table_is_built :
    Lays [momentTable] "Create Table `t` ( `at` DateTime/*;*/Not Null -- )\n) ;" ∧
      (buildPackage {} "Create Table `t` ( `at` DateTime/*;*/Not Null -- )\n) ;").result =
        .ok { tables := [⟨"t", [{ name := "at", goType := "time.Time", notNull := true }]⟩],
              imports := ["time"] } := by
  have space : Spacing.apart.Allows [' '] := ⟨.space (by decide) .nil, by decide⟩
  have block : Spacing.apart.Allows "/*;*/".toList := ⟨@Gap.block [';'] [] (by decide) .nil, by decide⟩
  have line : Spacing.apart.Allows " -- )\n".toList :=
    ⟨.space (by decide) (@Gap.line ['-', '-'] " )".toList [] (by decide) (forall_among (by decide)) .nil),
      by decide⟩
  have tail : Laid [{ form := .exact [')'] }, { form := .exact [';'] }] _ :=
    .token line rfl (.token space rfl (.done .nil))
  have column : Laid (momentColumn.tokens ++ [{ form := .exact [')'] }, { form := .exact [';'] }]) _ :=
    .token space rfl (.token space (by decide : Spells "DATETIME" "DateTime".toList)
      (.token block (by decide : Spells "NOT" "Not".toList)
        (.token space (by decide : Spells "NULL" "Null".toList) tail)))
  have tokens : Laid ([momentTable].flatMap Table.tokens) _ :=
    .token Gap.nil (by decide : Spells "CREATE" "Create".toList)
      (.token space (by decide : Spells "TABLE" "Table".toList)
        (.token space rfl (.token space rfl column)))
  have laid : Lays [momentTable] "Create Table `t` ( `at` DateTime/*;*/Not Null -- )\n) ;" := tokens
  refine ⟨laid, ?_⟩
  have same : package defaultPackageName [momentTable] =
      { tables := [⟨"t", [{ name := "at", goType := "time.Time", notNull := true }]⟩],
        imports := ["time"] } := by decide +kernel
  rw [← same]
  exact laid_tables_are_built {} laid

end DdlModels.Written
