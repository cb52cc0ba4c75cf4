import DdlModels.Proofs.FieldTypes
import DdlModels.Proofs.LineFeeds

/-!
# The lines of Go source

The source of a package is written line by line, one line for each field. Names, defaults and comments are not
escaped, so that a line feed in one of them breaks its line; there are no other line breaks.
-/

namespace DdlModels

/-- The texts of a column that come from the script as they are. -/
def Column.texts (column : Column) : List String :=
  column.name :: column.defaultValue.toList ++ column.comment.toList

/-- Line feeds in a column's line. The name is written twice, and stands in for a comment that is missing. -/
def Column.breaks (column : Column) : Nat :=
  2 * lineFeeds column.name + lineFeeds (column.defaultValue.getD "") + lineFeeds (column.comment.getD column.name)

namespace Table

/-- The lines between the braces of a struct. Without fields there is an empty one. -/
def body (table : Table) : List String :=
  if table.columns.isEmpty then [""] else table.columns.map Column.goSource

/-- The lines of a struct, with empty ones around it. -/
def lines (table : Table) : List String :=
  ["", "type " ++ table.name ++ " struct \x7b"] ++ table.body ++ ["\x7d", ""]

def breaks (table : Table) : Nat := lineFeeds table.name + (table.columns.map Column.breaks).sum

end Table

namespace Package

def importLines (package : Package) : List String :=
  if package.imports.isEmpty then []
  else ["import ("] ++ package.imports.map (fun path => "    \x22" ++ path ++ "\x22") ++ [")"]

def lines (package : Package) : List String :=
  ["package " ++ package.clauseName] ++ package.importLines ++ package.tables.flatMap Table.lines

def breaks (package : Package) : Nat := (package.tables.map Table.breaks).sum

/-- The texts of a package that come from the script as they are: names, defaults and comments. -/
def texts (package : Package) : List String :=
  package.tables.flatMap fun table => table.name :: table.columns.flatMap Column.texts

end Package

theorem Table.goSource_eq_lines (table : Table) :
    table.goSource ++ "\n" = String.join (table.lines.map (· ++ "\n")) := by
  have fields : String.intercalate "\n" (table.columns.map Column.goSource) ++ "\n" =
      String.join (table.body.map (· ++ "\n")) := by
    rw [body]
    cases table.columns with
    | nil => rfl
    | cons column columns => exact intercalate_append_separator "\n" _ _
  rw [lines, List.map_append, List.map_append, String.join_append, String.join_append, ← fields, goSource]
  simp [← String.toList_inj]

theorem Package.goSource_eq_lines (package : Package) :
    package.goSource = String.join (package.lines.map (· ++ "\n")) := by
  have imports : importBlock package.imports = String.join (package.importLines.map (· ++ "\n")) := by
    rw [importBlock, importLines]
    split
    case isTrue => rfl
    case isFalse =>
      simp [← String.toList_inj, List.flatMap_map]
  have tables : String.join (package.tables.map fun table => table.goSource ++ "\n") =
      String.join ((package.tables.flatMap Table.lines).map (· ++ "\n")) := by
    induction package.tables with
    | nil => rfl
    | cons table tables ih =>
      rw [List.map_cons, String.join_cons, ih, table.goSource_eq_lines, List.flatMap_cons, List.map_append,
        String.join_append]
  rw [goSource, imports, tables, lines, List.map_append, List.map_append, String.join_append, String.join_append]
  simp

theorem Table.length_lines (table : Table) : table.lines.length = 4 + max 1 table.columns.length := by
  rw [lines, body]
  cases table.columns with
  | nil => rfl
  | cons column columns =>
    simp
    omega

theorem Package.length_lines (package : Package) :
    package.lines.length = 1 + (if package.imports.isEmpty then 0 else 2 + package.imports.length) +
      (package.tables.map fun table => 4 + max 1 table.columns.length).sum := by
  have imports : package.importLines.length =
      if package.imports.isEmpty then 0 else 2 + package.imports.length := by
    rw [importLines]
    split
    case isTrue => rfl
    case isFalse =>
      simp
      omega
  rw [lines, List.length_append, List.length_append, imports, List.length_flatMap]
  simp only [Table.length_lines, List.length_singleton]

theorem Column.lineFeeds_goSource {column : Column} (typed : lineFeeds column.goType = 0) :
    lineFeeds column.goSource = column.breaks := by
  have tags : lineFeeds (String.intercalate ";" column.tagParts) =
      lineFeeds column.name + lineFeeds (column.defaultValue.getD "") := by
    have default : lineFeeds "default:" = 0 := by decide
    have name : lineFeeds "column:" = 0 := by decide
    have null : lineFeeds "not null" = 0 := by decide
    rw [lineFeeds_intercalate (by decide), tagParts]
    cases column.defaultValue <;> cases column.notNull <;> simp [default, name, null]
  have marks : lineFeeds "    " = 0 ∧ lineFeeds " " = 0 ∧ lineFeeds " \x60gorm:\x22" = 0 ∧
      lineFeeds "\x22\x60 //" = 0 := by decide
  obtain ⟨indent, gap, opening, closing⟩ := marks
  rw [goSource]
  simp only [lineFeeds_append, tags, typed, breaks, indent, gap, opening, closing]
  omega

theorem Table.lineFeeds_lines {table : Table} (typed : ∀ column ∈ table.columns, lineFeeds column.goType = 0) :
    (table.lines.map lineFeeds).sum = table.breaks := by
  have head : lineFeeds ("type " ++ table.name ++ " struct \x7b") = lineFeeds table.name := by
    have marks : lineFeeds "type " = 0 ∧ lineFeeds " struct \x7b" = 0 := by decide
    rw [lineFeeds_append, lineFeeds_append, marks.1, marks.2, Nat.zero_add, Nat.add_zero]
  have fields : (table.body.map lineFeeds).sum = (table.columns.map Column.breaks).sum := by
    rw [body]
    split
    case isTrue empty =>
      rw [List.isEmpty_iff.mp empty]
      rfl
    case isFalse =>
      rw [List.map_map]
      refine congrArg List.sum (List.map_congr_left ?_)
      intro column hcolumn
      exact Column.lineFeeds_goSource (typed column hcolumn)
  have brace : lineFeeds "\x7d" = 0 := by decide
  rw [lines, List.map_append, List.map_append, List.sum_append, List.sum_append, fields, breaks]
  simp [head, brace]

theorem Package.lineFeeds_lines {package : Package} (clause : '\n' ∉ package.name.toList)
    (imports : ∀ path ∈ package.imports, lineFeeds path = 0)
    (types : ∀ table ∈ package.tables, ∀ column ∈ table.columns, lineFeeds column.goType = 0) :
    (package.lines.map lineFeeds).sum = package.breaks := by
  have name : lineFeeds ("package " ++ package.clauseName) = 0 := by
    have plain : lineFeeds package.clauseName = 0 := by
      rw [clauseName]
      split
      case isTrue => decide
      case isFalse => exact lineFeeds_eq_zero.mpr clause
    rw [lineFeeds_append, plain]
    decide
  have imports : (package.importLines.map lineFeeds).sum = 0 := by
    have marks : lineFeeds "    \x22" = 0 ∧ lineFeeds "\x22" = 0 := by decide
    have paths : ∀ path ∈ package.imports, lineFeeds ("    \x22" ++ path ++ "\x22") = 0 := by
      intro path hpath
      rw [lineFeeds_append, lineFeeds_append, marks.1, marks.2, imports path hpath]
    rw [List.sum_eq_zero_iff_forall_eq_nat, List.forall_mem_map, importLines]
    split
    case isTrue => simp
    case isFalse =>
      rw [List.forall_mem_append, List.forall_mem_append, List.forall_mem_map]
      exact ⟨⟨by decide, paths⟩, by decide⟩
  have structs : ((package.tables.flatMap Table.lines).map lineFeeds).sum = package.breaks := by
    rw [List.map_flatMap, List.flatMap_def, List.sum_flatten, List.map_map, breaks]
    refine congrArg List.sum (List.map_congr_left ?_)
    intro table htable
    exact Table.lineFeeds_lines (types table htable)
  rw [lines, List.map_append, List.map_append, List.sum_append, List.sum_append, imports, structs]
  simp [name]

/-- The known types are free of line feeds, and so is the only import. -/
theorem Package.WellTyped.lineFeeds_lines {package : Package} (h : package.WellTyped)
    (clause : '\n' ∉ package.name.toList) : (package.lines.map lineFeeds).sum = package.breaks := by
  have types : ∀ goType ∈ GoType.all, lineFeeds goType = 0 := by decide
  refine Package.lineFeeds_lines clause ?_ fun table htable column hcolumn =>
    types _ (h.types table htable column hcolumn)
  intro path hpath
  rw [h.imports] at hpath
  split at hpath
  case isTrue =>
    rw [List.mem_singleton.mp hpath]
    decide
  case isFalse => contradiction

theorem Column.breaks_eq_zero {column : Column} :
    column.breaks = 0 ↔ ∀ text ∈ column.texts, '\n' ∉ text.toList := by
  obtain ⟨name, goType, notNull, defaultValue, comment⟩ := column
  simp only [breaks, texts, ← lineFeeds_eq_zero]
  -- without a comment the name is counted three times, else twice
  cases defaultValue <;> cases comment <;> simp <;> omega

theorem Package.breaks_eq_zero {package : Package} :
    package.breaks = 0 ↔ ∀ text ∈ package.texts, '\n' ∉ text.toList := by
  simp only [breaks, texts, List.sum_eq_zero_iff_forall_eq_nat, List.forall_mem_map, List.forall_mem_flatMap]
  refine forall₂_congr fun table _ => ?_
  rw [Table.breaks, Nat.add_eq_zero_iff, lineFeeds_eq_zero, List.forall_mem_cons,
    List.sum_eq_zero_iff_forall_eq_nat, List.forall_mem_map, List.forall_mem_flatMap]
  exact and_congr_right fun _ => forall₂_congr fun column _ => Column.breaks_eq_zero

/-- Every field has its own line, unless a name, a default or a comment breaks it. The source of a package that is
built has the line feeds that end its lines, and those in names, defaults and comments. -/
theorem goSource_line_feeds {settings : Settings} {source : String} {package : Package}
    (built : (buildPackage settings source).result = .ok package) (clause : '\n' ∉ package.name.toList) :
    lineFeeds package.goSource =
      1 + (if package.imports.isEmpty then 0 else 2 + package.imports.length) +
        (package.tables.map fun table => 4 + max 1 table.columns.length).sum + package.breaks ∧
    (lineFeeds package.goSource =
        1 + (if package.imports.isEmpty then 0 else 2 + package.imports.length) +
          (package.tables.map fun table => 4 + max 1 table.columns.length).sum ↔
      ∀ text ∈ package.texts, '\n' ∉ text.toList) ∧
    ((∀ text ∈ package.texts, '\n' ∉ text.toList) →
      package.goSource.toList.splitOn '\n' = package.lines.map String.toList ++ [[]]) := by
  obtain ⟨-, typed⟩ := buildPackage_wellTyped built
  have inside := typed.lineFeeds_lines clause
  have total : lineFeeds package.goSource =
      1 + (if package.imports.isEmpty then 0 else 2 + package.imports.length) +
        (package.tables.map fun table => 4 + max 1 table.columns.length).sum + package.breaks := by
    rw [package.goSource_eq_lines, lineFeeds_join_lines, inside, package.length_lines]
  refine ⟨total, ?_, ?_⟩
  · rw [total, Nat.add_eq_left]
    exact Package.breaks_eq_zero
  · intro unbroken
    rw [Package.breaks_eq_zero.mpr unbroken, List.sum_eq_zero_iff_forall_eq_nat, List.forall_mem_map] at inside
    rw [package.goSource_eq_lines]
    exact splitOn_join_lines fun line hline => lineFeeds_eq_zero.mp (inside line hline)

theorem two_fields_take_two_lines :
    (buildPackage {} "CREATE TABLE t (a INT DEFAULT 1 COMMENT 'x', b DATE)").result =
      .ok { tables := [⟨"t", [{ name := "a", goType := "int64", defaultValue := some "1", comment := some "x" },
              { name := "b", goType := "time.Time" }]⟩],
            imports := ["time"] } ∧
    ∃ text, convert {} "CREATE TABLE t (a INT DEFAULT 1 COMMENT 'x', b DATE)" = .ok text ∧ lineFeeds text = 10 ∧
      text.toList.splitOn '\n' =
        ["package models", "import (", "    \x22time\x22", ")", "", "type t struct \x7b",
          "    a int64 \x60gorm:\x22column:a;default:1\x22\x60 //x",
          "    b time.Time \x60gorm:\x22column:b\x22\x60 //b", "\x7d", "", ""].map String.toList := by
  have built : (buildPackage {} "CREATE TABLE t (a INT DEFAULT 1 COMMENT 'x', b DATE)").result =
      .ok { tables := [⟨"t", [{ name := "a", goType := "int64", defaultValue := some "1", comment := some "x" },
              { name := "b", goType := "time.Time" }]⟩],
            imports := ["time"] } := by decide +kernel
  obtain ⟨-, unbroken, lines⟩ := goSource_line_feeds built (by decide)
  refine ⟨built, _, by rw [convert, built]; rfl, unbroken.mpr (by decide), ?_⟩
  rw [lines (by decide)]
  decide

/-- A line feed in a comment puts the rest of it on a line of its own. -/
theorem comment_spills_onto_its_own_line :
    ∃ package, (buildPackage {} "CREATE TABLE t (a INT COMMENT 'x\ny');").result = .ok package ∧
      '\n' ∉ package.name.toList ∧
      1 + (if package.imports.isEmpty then 0 else 2 + package.imports.length) +
        (package.tables.map fun table => 4 + max 1 table.columns.length).sum = 6 ∧
      lineFeeds package.goSource = 7 ∧ ['y'] ∈ package.goSource.toList.splitOn '\n' := by
  refine ⟨{ tables := [⟨"t", [{ name := "a", goType := "int64", comment := some "x\ny" }]⟩] }, ?_, ?_⟩
  · decide +kernel
  · decide +kernel

end DdlModels
