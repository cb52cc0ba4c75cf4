import DdlModels.Sql.Grammar

/-!
# Data types

The grammar of a column's type: its keywords, which become a node, an optional group with its size or
its members, and modifiers.
-/

namespace DdlModels.Sql.Grammar

def phrase (first : String) : List String → Grammar
  | [] => keyword first
  | next :: more => keyword first ++ blanks ++ phrase next more

def anyKeyword (first : String) : List String → Grammar
  | [] => keyword first
  | next :: more => keyword first <|> anyKeyword next more

/-- A further keyword after blanks, which may be left out. -/
def further (name : String) : Grammar := .optional (blanks ++ keyword name)

/-- A name: in backquotes, in double quotes, or a bare word. -/
def identifier : Grammar := backquoted <|> quoted '\x22' <|> word

/-- A name, perhaps with others before it, joined by dots. -/
def qualifiedName : Grammar := identifier ++ .many (symbol '.' ++ identifier)

/-- An optional sign of equality with blanks around it, and a name. -/
def assignedName : Grammar := blanks ++ .optional (symbol '=') ++ blanks ++ identifier

def collation : Grammar := keyword "COLLATE" ++ assignedName

/-- The types of one word, by category. -/
def typeWords : TypeCategory → List String
  | .string => ["VARCHAR", "NVARCHAR", "TINYTEXT", "TEXT", "MEDIUMTEXT", "LONGTEXT"]
  | .dimension =>
    ["TINYINT", "SMALLINT", "MEDIUMINT", "MIDDLEINT", "INT", "INTEGER", "BIGINT", "INT1", "INT2",
      "INT3", "INT4", "INT8", "REAL", "FLOAT4", "FLOAT8", "FLOAT", "DECIMAL", "DEC", "FIXED",
      "NUMERIC", "BIT", "TIME", "TIMESTAMP", "DATETIME", "BINARY", "VARBINARY", "BLOB", "YEAR"]
  | .simple => ["DATE", "TINYBLOB", "MEDIUMBLOB", "LONGBLOB", "BOOL", "BOOLEAN", "SERIAL"]
  | .collection => ["ENUM", "SET"]
  | .spatial =>
    ["GEOMETRY", "GEOMETRYCOLLECTION", "GEOMCOLLECTION", "LINESTRING", "MULTILINESTRING",
      "MULTIPOINT", "MULTIPOLYGON", "POINT", "POLYGON", "JSON"]
  | _ => []

def oneWordType (category : TypeCategory) : Grammar :=
  .leaf (.dataType category) (wordAmong (typeWords category))

/-- A character type whose varying length is written as a word. -/
def characterType : Grammar :=
  .leaf (.dataType .string) (wordAmong ["CHAR", "CHARACTER"] ++ further "VARYING")

def doubleType : Grammar :=
  .leaf (.dataType .dimension) (wordAmong ["DOUBLE"] ++ further "PRECISION")

def ncharType : Grammar :=
  .leaf (.dataType .nationalString) (wordAmong ["NCHAR"] ++ blanks ++ keyword "VARCHAR") <|>
    .leaf (.dataType .string) (wordAmong ["NCHAR"])

def longType : Grammar :=
  .leaf (.dataType .longVarbinary) (wordAmong ["LONG"] ++ blanks ++ keyword "VARBINARY") <|>
    .leaf (.dataType .longVarchar) (wordAmong ["LONG"] ++ further "VARCHAR")

/-- The word after `NATIONAL`. -/
def nationalWords : Grammar :=
  wordAmong ["NATIONAL"] ++ blanks ++ anyKeyword "VARCHAR" ["CHARACTER", "CHAR"]

/-- The one type whose first word is not enough: a misfit after it counts as the misfit of a type. -/
def nationalType : Grammar :=
  .leaf (.dataType .nationalVaryingString) (nationalWords ++ blanks ++ keyword "VARYING") <|>
    .leaf (.dataType .nationalString) nationalWords

def typeName : Grammar :=
  oneWordType .string <|> oneWordType .dimension <|> oneWordType .simple <|>
    oneWordType .collection <|> oneWordType .spatial <|> characterType <|> doubleType <|>
    ncharType <|> longType <|> nationalType

def characterSet : Grammar :=
  (phrase "CHARACTER" ["SET"] <|> phrase "CHAR" ["SET"] <|> keyword "CHARSET") ++ assignedName

def typeModifier : Grammar :=
  anyKeyword "UNSIGNED" ["SIGNED", "ZEROFILL", "BINARY", "ASCII", "UNICODE"] <|> characterSet <|>
    collation

def dataType : Grammar :=
  typeName ++ .optional (blanks ++ .group) ++ .many (blanks ++ typeModifier)

end DdlModels.Sql.Grammar
