import DdlModels.Proofs.CaseBlind
import DdlModels.Proofs.DraftWalk
import DdlModels.Proofs.Steps

/-!
# Sources that differ in letter case

Two sources that are the same up to the case of ASCII letters are read into trees that are the same up to case, or
refused at the same place for the same reason. Packages that are built of them differ in the case of names, defaults
and comments only: what decides on types and on null is blind to case.
-/

namespace DdlModels

open Text

namespace Sql

theorem caseBlind_tableStatement : Grammar.tableStatement.caseBlind := by decide

def Statement.folded : Statement → Statement
  | table node => table node.folded
  | bodiless text => bodiless (fold text)
  | skipped text => skipped (fold text)

namespace Script

def Next.folded : Next → Next
  | ended => ended
  | separator rest => separator (fold rest)
  | statement made rest => statement made.folded (fold rest)
  | halted fault => halted (fault.move fold)

def folded (script : Script) : Script where
  statements := script.statements.map Statement.folded
  fault := script.fault.map (Fault.move fold)

theorem skipBlanks_fold (text : List Char) : skipBlanks (fold text) = fold (skipBlanks text) := by
  rw [skipBlanks, skipBlanks, Grammar.blanks.read_fold (by decide)]
  cases Grammar.blanks.read text <;> rfl

theorem next_fold (text : List Char) : next (fold text) = (next text).folded := by
  have skips := skipBlanks_fold text
  cases start : skipBlanks text with
  | nil =>
    rw [start] at skips
    rw [next_ended skips, next_ended start]
    rfl
  | cons c rest =>
    rw [start, fold_cons] at skips
    have mark := toLower_eq_iff (by decide : ';'.isAlpha = false) c
    by_cases separator : c = ';'
    · subst separator
      rw [next_separator skips, next_separator start]
      rfl
    · have table := Grammar.read_fold caseBlind_tableStatement (c :: rest)
      have tail := Grammar.statementTail.read_fold (by decide) (c :: rest)
      rw [fold_cons] at table tail
      rw [next_statement skips (mark.not.mpr separator), next_statement start separator, table, tail]
      cases Grammar.tableStatement.read (c :: rest) with
      | ok nodes taken left => cases nodes <;> rfl
      | fail failure => rfl
      | miss errors =>
        cases Grammar.statementTail.read (c :: rest) with
        | ok nodes taken left => cases taken <;> rfl
        | miss | fail => rfl

theorem readFrom_fold (text : List Char) : readFrom (fold text) = (readFrom text).folded := by
  fun_induction readFrom text with
  | case1 text found =>
    rw [readFrom_eq, next_fold, found]
    rfl
  | case2 text rest found ih =>
    rw [readFrom_eq, next_fold, found]
    exact ih
  | case3 text statement rest found ih =>
    rw [readFrom_eq, next_fold, found, Next.folded]
    simp only [ih]
    rfl
  | case4 text fault found =>
    rw [readFrom_eq, next_fold, found]
    rfl

theorem tables_folded (script : Script) : script.folded.tables = Node.foldedAll script.tables := by
  have node (statement : Statement) : statement.folded.node? = statement.node?.map Node.folded := by
    cases statement <;> rfl
  rw [tables, folded, List.filterMap_map, Node.foldedAll_eq_map, tables, List.map_filterMap]
  exact congrArg (fun node? => script.statements.filterMap node?) (funext node)

end Script

def ParseError.folded (error : ParseError) : ParseError := { error with message := Text.folded error.message }

theorem folded_wording (expected : Option String) (place : List Char) :
    Text.folded (wording expected (fold place)) = Text.folded (wording expected place) := by
  have quoted : Text.folded (excerpt (fold place)) = Text.folded (excerpt place) := by
    rw [excerpt_fold, folded_folded]
  cases place with
  | nil => rfl
  | cons c rest =>
    rw [fold_cons] at quoted ⊢
    cases expected <;> simp only [wording, folded_append, quoted]

theorem Fault.report_folded (fault : Fault) (source : List Char) :
    ((fault.move fold).report (fold source)).folded = (fault.report source).folded := by
  have quoted (text : List Char) : Text.folded (excerpt (fold text)) = Text.folded (excerpt text) := by
    rw [excerpt_fold, folded_folded]
  have same (text : List Char) {message other : String} (alike : Text.folded message = Text.folded other) :
      (ParseError.at (fold source) (fold text) message).folded = (ParseError.at source text other).folded := by
    simp only [ParseError.at, ParseError.folded, byteSize_fold, alike]
  cases fault with
  | failed failure =>
    cases failure with
    | incomplete => simp only [move, Failure.move, report, Failure.report, byteSize_fold]
    | errors errors =>
      cases errors with
      | nil => rfl
      | cons error outer =>
        refine same error.1 ?_
        rw [← folded_wording _ error.1]
        exact congrArg (fun expected => Text.folded (wording expected (fold error.1)))
          (Errors.expected?_move fold (error :: outer))
  | unterminatedLiteral text => exact same text (by simp only [folded_append, quoted])

/-- A folded source is parsed into the folded tree, or refused at the same place with the same message up to case. -/
theorem parse_folded (source : String) :
    (parse (folded source)).mapError ParseError.folded =
      ((parse source).map Node.folded).mapError ParseError.folded := by
  have script : readScript (folded source) = (readScript source).folded := by
    rw [readScript, folded, String.toList_ofList, Script.readFrom_fold, readScript]
  rw [parse, parse, script, Script.tree, Script.tree, folded, String.toList_ofList]
  cases found : (readScript source).fault with
  | none =>
    have fine : (readScript source).folded.fault = none := by rw [Script.folded, found]; rfl
    rw [fine]
    simp only [Script.tables_folded]
    rfl
  | some fault =>
    have same : (readScript source).folded.fault = some (fault.move fold) := by rw [Script.folded, found]; rfl
    rw [same]
    exact congrArg Except.error (fault.report_folded source.toList)

end Sql

def Column.folded (column : Column) : Column :=
  { column with
    name := Text.folded column.name
    defaultValue := column.defaultValue.map Text.folded
    comment := column.comment.map Text.folded }

def Table.folded (table : Table) : Table where
  name := Text.folded table.name
  columns := table.columns.map Column.folded

/-- The package with folded texts. Its name and its imports stay as they are. -/
def Package.folded (package : Package) : Package := { package with tables := package.tables.map Table.folded }

theorem tableName_folded (reference : String) : tableName (folded reference) = folded (tableName reference) := by
  have dots (c : Char) : (c.toLower != '.') = (c != '.') :=
    congrArg (!·) (toLower_beq (by decide : '.'.isAlpha = false) c)
  have afterDot (text : List Char) : (fold text).takeWhile (· != '.') = fold (text.takeWhile (· != '.')) :=
    takeWhile_fold dots text
  simp only [tableName, folded, String.toList_ofList, reverse_fold, afterDot, unquoteChars_fold]

theorem nonempty?_folded (value : String) : nonempty? (folded value) = (nonempty? value).map folded := by
  have empty : (folded value).isEmpty = value.isEmpty := by
    rw [Bool.eq_iff_iff, String.isEmpty_iff, String.isEmpty_iff, ← String.toList_inj, folded, String.toList_ofList,
      ← String.toList_inj]
    exact fold_eq_nil
  rw [nonempty?, nonempty?, empty]
  split <;> rfl

theorem forbidsNull_folded (text : String) : forbidsNull (folded text) = forbidsNull text := by
  simp only [forbidsNull, folded, String.toList_ofList, map_toUpper_fold]

theorem RuleChain.classify_folded (chain : RuleChain) (name : String) :
    chain.classify (Text.folded name) = chain.classify name := by
  rw [classify, classify, Text.folded, String.toList_ofList, trim_fold, lowercase_fold]

theorem Column.told_folded (column : Column) (node : Node) :
    column.folded.told node.folded = (column.told node).folded := by
  obtain ⟨kind, text, children⟩ := node
  cases kind with
  | dataType category => simp only [told, Node.folded, folded, RuleChain.classify_folded]
  | nullConstraint => simp only [told, Node.folded, folded, forbidsNull_folded]
  | defaultConstraint => simp only [told, Node.folded, folded, trimmed_folded, nonempty?_folded]
  | commentConstraint => simp only [told, Node.folded, folded, unquote_folded, nonempty?_folded]
  | _ => rfl

namespace Node

theorem kind_folded (node : Node) : node.folded.kind = node.kind := by cases node; rfl

theorem text_folded (node : Node) : node.folded.text = Text.folded node.text := by cases node; rfl

theorem children_folded (node : Node) : node.folded.children = node.children.map folded := by
  obtain ⟨kind, text, children⟩ := node
  exact foldedAll_eq_map children

theorem typeImports_folded (node : Node) : node.folded.typeImports = node.typeImports := by
  obtain ⟨kind, text, children⟩ := node
  cases kind with
  | dataType category => exact congrArg TypeRule.imports (category.rules.classify_folded text)
  | _ => rfl

theorem column_folded (node : Node) : node.folded.column = node.column.folded := by
  have told (nodes : List Node) (column : Column) :
      (nodes.map folded).foldl Column.told column.folded = (nodes.foldl Column.told column).folded := by
    induction nodes generalizing column with
    | nil => rfl
    | cons node nodes ih => rw [List.map_cons, List.foldl_cons, Column.told_folded, ih, List.foldl_cons]
  rw [column, column, children_folded, text_folded, unquote_folded, ← told]
  rfl

theorem columns_folded (nodes : List Node) : columns (nodes.map folded) = (columns nodes).map Column.folded := by
  simp only [columns, List.filter_map, List.map_map, Function.comp_def, kind_folded, column_folded]

theorem table_folded (node : Node) : node.folded.table = node.table.folded := by
  rw [table, children_folded, text_folded, columns_folded, tableName_folded]
  rfl

theorem imports_folded (nodes : List Node) : imports (nodes.map folded) = imports nodes := by
  simp only [imports, List.flatMap_map, children_folded, typeImports_folded]

/-- The package of a folded tree is the folded package of the tree. -/
theorem packageNamed_folded (name : String) (tree : Node) :
    tree.folded.packageNamed name = (tree.packageNamed name).folded := by
  simp only [packageNamed, Package.folded, children_folded, imports_folded, List.map_map, Function.comp_def,
    table_folded]

end Node

/-- Two sources that are the same up to the case of ASCII letters are both parsed, into trees of which packages are
built that are the same up to case, with the same types and imports; or both are refused, at the same position and
with the same message up to case. -/
theorem recased_source_is_read_alike {source other : String} (same : folded source = folded other) :
    (∃ tree tree', Sql.parse source = .ok tree ∧ Sql.parse other = .ok tree' ∧ tree.folded = tree'.folded ∧
      ∀ settings, ∃ package package', (buildPackage settings source).result = .ok package ∧
        (buildPackage settings other).result = .ok package' ∧ package.folded = package'.folded) ∨
    ∃ error error', Sql.parse source = .error error ∧ Sql.parse other = .error error' ∧
      error.position = error'.position ∧ folded error.message = folded error'.message := by
  have alike := Sql.parse_folded source
  rw [same, Sql.parse_folded other] at alike
  cases parsed : Sql.parse source with
  | ok tree =>
    cases parsed' : Sql.parse other with
    | ok tree' =>
      rw [parsed, parsed'] at alike
      have trees : tree'.folded = tree.folded := Except.ok.inj alike
      refine .inl ⟨tree, tree', rfl, rfl, trees.symm, fun settings => ?_⟩
      refine ⟨_, _, (buildPackage_of_parse settings parsed).1, (buildPackage_of_parse settings parsed').1, ?_⟩
      rw [← Node.packageNamed_folded, ← trees, Node.packageNamed_folded]
    | error error' =>
      rw [parsed, parsed'] at alike
      contradiction
  | error error =>
    cases parsed' : Sql.parse other with
    | ok tree' =>
      rw [parsed, parsed'] at alike
      contradiction
    | error error' =>
      rw [parsed, parsed'] at alike
      obtain ⟨position, message⟩ := Sql.ParseError.mk.inj (Except.error.inj alike)
      exact .inr ⟨error, error', rfl, rfl, position.symm, message.symm⟩

/-- An exponent may be written in either case, with digits and without. -/
theorem small_exponent_is_read_alike :
    (∃ tree tree', Sql.parse "CREATE TABLE T (A FLOAT DEFAULT 1E3)" = .ok tree ∧
      Sql.parse "create table t (a float default 1e3)" = .ok tree' ∧ tree.folded = tree'.folded) ∧
    ∃ error error', Sql.parse "CREATE TABLE T (A FLOAT DEFAULT 1E)" = .error error ∧
      Sql.parse "create table t (a float default 1e)" = .error error' ∧ error.position = error'.position ∧
        folded error.message = folded error'.message := by
  constructor
  · have parsed : (Sql.parse "CREATE TABLE T (A FLOAT DEFAULT 1E3)").toOption.isSome := by decide +kernel
    have same : folded "CREATE TABLE T (A FLOAT DEFAULT 1E3)" = folded "create table t (a float default 1e3)" := by
      decide +kernel
    rcases recased_source_is_read_alike same with ⟨tree, tree', found, found', alike, -⟩ | ⟨error, error', refused, -⟩
    · exact ⟨tree, tree', found, found', alike⟩
    · simp [refused, Except.toOption] at parsed
  · have unparsed : (Sql.parse "CREATE TABLE T (A FLOAT DEFAULT 1E)").toOption.isNone := by decide +kernel
    have same : folded "CREATE TABLE T (A FLOAT DEFAULT 1E)" = folded "create table t (a float default 1e)" := by
      decide +kernel
    rcases recased_source_is_read_alike same with ⟨tree, tree', found, -⟩ | refused
    · simp [found, Except.toOption] at unparsed
    · exact refused

end DdlModels
