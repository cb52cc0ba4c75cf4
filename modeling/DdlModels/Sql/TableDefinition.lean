import DdlModels.Sql.ColumnAttribute

/-!
# Table definitions

The grammar of the statement that creates a table.
-/

namespace DdlModels.Sql.Grammar

/-- Everything up to the next comma or closing parenthesis outside of groups and quotes. -/
def definitionTail : Grammar :=
  .many (.group <|> stringLiteral <|> backquoted <|> run [',', '(', ')', '\x27', '\x22', '\x60'])

/-- Everything up to the next semicolon outside of quotes. -/
def statementTail : Grammar :=
  .many (stringLiteral <|> backquoted <|> run [';', '\x27', '\x22', '\x60'])

def column : Grammar :=
  .branch .columnDeclaration identifier
    (commit "data type" (blanks ++ dataType) ++ .many (blanks ++ columnAttribute))

/-- A key, an index or a constraint of the table. -/
def tableConstraint : Grammar :=
  .trimmedLeaf .tableConstraint
    (anyKeyword "PRIMARY"
        ["UNIQUE", "KEY", "INDEX", "FULLTEXT", "SPATIAL", "CONSTRAINT", "FOREIGN", "CHECK"] ++
      definitionTail)

def definition : Grammar := .context "column or key definition" (tableConstraint <|> column)

/-- The definitions of a table in parentheses, at least one, with commas between them. -/
def definitions : Grammar :=
  symbol '(' ++ blanks ++ .cut definition ++
    .many (blanks ++ symbol ',' ++ blanks ++ definition) ++
    blanks ++ commit "',' or ')'" (symbol ')')

def tableHead : Grammar :=
  keyword "CREATE" ++ further "TEMPORARY" ++ blanks ++ keyword "TABLE" ++
    .optional (blanks ++ phrase "IF" ["NOT", "EXISTS"])

def tableName : Grammar := commit "table name" qualifiedName

/-- A table with its definitions and its options, as a node. -/
def table : Grammar :=
  .branch .createTable tableName
    (blanks ++ definitions ++ blanks ++ .trimmedLeaf .tableOption statementTail)

/-- A table without definitions of its own, which leaves no node. -/
def bodilessTable : Grammar := tableName ++ blanks ++ statementTail

def tableStatement : Grammar := tableHead ++ blanks ++ (table <|> bodilessTable)

end DdlModels.Sql.Grammar
