/-!
# The model of a Go package

A package holds one struct for each table and one field for each column.
-/

namespace DdlModels

def defaultPackageName : String := "models"

/-- A struct field. -/
structure Column where
  name : String
  goType : String := ""
  notNull : Bool := false
  defaultValue : Option String := none
  comment : Option String := none
  deriving DecidableEq, Repr

/-- A struct. -/
structure Table where
  name : String
  columns : List Column := []
  deriving DecidableEq, Repr

/-- A Go source file of structs, with the packages it imports in the order of their first use. -/
structure Package where
  name : String := defaultPackageName
  tables : List Table := []
  imports : List String := []
  deriving DecidableEq, Repr

namespace Package

/-- Adds an import that is not there yet. -/
def addImport (package : Package) (path : String) : Package :=
  if path ∈ package.imports then package else { package with imports := package.imports ++ [path] }

def addImports (package : Package) (paths : List String) : Package :=
  paths.foldl addImport package

def addTable (package : Package) (table : Table) : Package :=
  { package with tables := package.tables ++ [table] }

end Package

end DdlModels
