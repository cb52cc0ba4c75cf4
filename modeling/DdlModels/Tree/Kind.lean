/-!
# Kinds of tree nodes

A node is named for the piece of a script that it stands for. Data types are split into the categories
that decide which rules choose their Go type.
-/

namespace DdlModels

/-- The categories of SQL data types. -/
inductive TypeCategory where
  | string
  | nationalString
  | nationalVaryingString
  | dimension
  | simple
  | collection
  | spatial
  | longVarchar
  | longVarbinary
  deriving DecidableEq, Repr

namespace TypeCategory

def all : List TypeCategory :=
  [string, nationalString, nationalVaryingString, dimension, simple, collection, spatial,
    longVarchar, longVarbinary]

def name : TypeCategory → String
  | string => "String"
  | nationalString => "NationalString"
  | nationalVaryingString => "NationalVaryingString"
  | dimension => "Dimension"
  | simple => "Simple"
  | collection => "Collection"
  | spatial => "Spatial"
  | longVarchar => "LongVarchar"
  | longVarbinary => "LongVarbinary"

def ofName? (text : String) : Option TypeCategory := all.find? (·.name == text)

end TypeCategory

/-- What a node stands for. -/
inductive NodeKind where
  /-- The whole script. -/
  | root
  /-- A table with its definitions; the text is its name as written. -/
  | createTable
  /-- A column with its type and attributes; the text is its name as written. -/
  | columnDeclaration
  /-- A data type; the text is its keywords as written. -/
  | dataType (category : TypeCategory)
  /-- `NULL` or `NOT NULL`. -/
  | nullConstraint
  /-- A default; the text is its value. -/
  | defaultConstraint
  /-- A comment; the text is its literal with the quotes. -/
  | commentConstraint
  | autoIncrementConstraint
  | primaryKeyConstraint
  | uniqueKeyConstraint
  /-- Any other attribute of a column. -/
  | otherColumnConstraint
  /-- A key, index or constraint of a table. -/
  | tableConstraint
  /-- The options after a table's definitions. -/
  | tableOption
  deriving DecidableEq, Repr

namespace NodeKind

def name : NodeKind → String
  | root => "Root"
  | createTable => "CreateTable"
  | columnDeclaration => "ColumnDeclaration"
  | dataType category => category.name ++ "DataType"
  | nullConstraint => "NullConstraint"
  | defaultConstraint => "DefaultConstraint"
  | commentConstraint => "CommentConstraint"
  | autoIncrementConstraint => "AutoIncrementConstraint"
  | primaryKeyConstraint => "PrimaryKeyConstraint"
  | uniqueKeyConstraint => "UniqueKeyConstraint"
  | otherColumnConstraint => "OtherColumnConstraint"
  | tableConstraint => "TableConstraint"
  | tableOption => "TableOption"

def all : List NodeKind :=
  [root, createTable, columnDeclaration] ++ TypeCategory.all.map dataType ++
    [nullConstraint, defaultConstraint, commentConstraint, autoIncrementConstraint,
      primaryKeyConstraint, uniqueKeyConstraint, otherColumnConstraint, tableConstraint, tableOption]

def ofName? (text : String) : Option NodeKind := all.find? (·.name == text)

/-- The category of a data type node. -/
def category? : NodeKind → Option TypeCategory
  | dataType category => some category
  | _ => none

theorem ofName?_name (kind : NodeKind) : ofName? kind.name = some kind := by
  cases kind with
  | dataType category => cases category <;> decide
  | _ => decide

end NodeKind

end DdlModels
