import DdlModels.Package.Model
import DdlModels.Text.Json

/-!
# Packages as texts

As Go source, a package is written as a package clause, an import block if there are imports, and a struct for each
table. Names and literals are written as they are; nothing is escaped. For other programs it is written as JSON.
-/

namespace DdlModels

open Text (Json)

/-- The parts of a column's tag: its name, its default if any, and whether it may be null. -/
def Column.tagParts (column : Column) : List String :=
  ["column:" ++ column.name] ++
    (column.defaultValue.map ("default:" ++ ·)).toList ++
    (if column.notNull then ["not null"] else [])

/-- The line of a struct field. The comment defaults to the column's name. -/
def Column.goSource (column : Column) : String :=
  "    " ++ column.name ++ " " ++ column.goType ++ " \x60gorm:\x22" ++
    String.intercalate ";" column.tagParts ++ "\x22\x60 //" ++ column.comment.getD column.name

def Table.goSource (table : Table) : String :=
  "\ntype " ++ table.name ++ " struct \x7b\n" ++
    String.intercalate "\n" (table.columns.map Column.goSource) ++ "\n\x7d\n"

namespace Package

/-- The import block, which is left out when nothing is imported. -/
def importBlock (imports : List String) : String :=
  if imports.isEmpty then ""
  else "import (\n" ++ String.join (imports.map fun path => "    \x22" ++ path ++ "\x22\n") ++ ")\n"

/-- The name in the package clause, where an empty name stands for the default. -/
def clauseName (package : Package) : String :=
  if package.name.isEmpty then defaultPackageName else package.name

def goSource (package : Package) : String :=
  "package " ++ package.clauseName ++ "\n" ++ importBlock package.imports ++
    String.join (package.tables.map fun table => table.goSource ++ "\n")

end Package

def Column.json (column : Column) : Json :=
  .object [("name", .string column.name), ("data_type", .string column.goType),
    ("not_null", .bool column.notNull), ("default_value", .ofOption column.defaultValue),
    ("comment", .ofOption column.comment)]

def Table.json (table : Table) : Json :=
  .object [("name", .string table.name), ("columns", .array (table.columns.map Column.json))]

def Package.json (package : Package) : Json :=
  .object [("package", .string package.name), ("tables", .array (package.tables.map Table.json)),
    ("imports", .array (package.imports.map Json.string))]

/-- The JSON text of a package, ended by a line feed. -/
def Package.jsonText (package : Package) : String := package.json.pretty ++ "\n"

end DdlModels
