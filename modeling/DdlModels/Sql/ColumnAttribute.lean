import DdlModels.Sql.DataType

/-!
# Column attributes

The grammar of what follows a column's type. Attributes that matter to a model become nodes of their
own kinds, the others are kept as text.
-/

namespace DdlModels.Sql.Grammar

def sign : Grammar := .optional (symbol '+' <|> symbol '-')

def digits : Grammar := .lexeme .digits

/-- A decimal number. Digits have to follow the mark of an exponent. -/
def number : Grammar :=
  sign ++
    (digits ++ .optional (symbol '.' ++ .optional digits) <|> symbol '.' ++ digits) ++
    .optional ((symbol 'e' <|> symbol 'E') ++ sign ++ .cut digits)

/-- A value: a group, a literal that may have a word before it, a number, or a word that may have a
group after it. -/
def value : Grammar :=
  .group <|>
    .optional word ++ stringLiteral <|>
    number <|>
    word ++ .optional .group

/-- What happens to a row when the row it refers to is changed. -/
def referenceAction : Grammar :=
  keyword "ON" ++ blanks ++ anyKeyword "DELETE" ["UPDATE"] ++ blanks ++
    (phrase "SET" ["NULL"] <|> phrase "SET" ["DEFAULT"] <|> phrase "NO" ["ACTION"] <|>
      anyKeyword "RESTRICT" ["CASCADE"])

def reference : Grammar :=
  keyword "REFERENCES" ++ blanks ++ qualifiedName ++ .optional (blanks ++ .group) ++
    .many (blanks ++ referenceAction)

def generation : Grammar :=
  .optional (phrase "GENERATED" ["ALWAYS"] ++ blanks) ++ keyword "AS" ++ blanks ++ .group ++
    .optional (blanks ++ anyKeyword "VIRTUAL" ["STORED"])

/-- A condition on the column, which may have a name. -/
def check : Grammar :=
  .optional
      (keyword "CONSTRAINT" ++ blanks ++
        .optional (.butNot (keyword "CHECK") identifier ++ blanks)) ++
    keyword "CHECK" ++ blanks ++ .group

/-- Attributes that do not matter to a model. -/
def otherAttribute : Grammar :=
  phrase "ON" ["UPDATE"] ++ blanks ++ value <|>
    collation <|>
    keyword "COLUMN_FORMAT" ++ blanks ++ word <|>
    keyword "STORAGE" ++ blanks ++ word <|>
    generation <|>
    reference <|>
    check <|>
    phrase "SERIAL" ["DEFAULT", "VALUE"] <|>
    keyword "SRID" ++ blanks ++ digits <|>
    anyKeyword "INVISIBLE" ["VISIBLE"]

def columnAttribute : Grammar :=
  .leaf .nullConstraint (phrase "NOT" ["NULL"]) <|>
    .leaf .nullConstraint (keyword "NULL") <|>
    keyword "DEFAULT" ++ blanks ++
      .leaf .defaultConstraint (commit "default value" value) <|>
    keyword "COMMENT" ++ blanks ++ .leaf .commentConstraint (commit "comment string" stringLiteral) <|>
    .leaf .autoIncrementConstraint (anyKeyword "AUTO_INCREMENT" ["AUTOINCREMENT"]) <|>
    .leaf .primaryKeyConstraint (.optional (keyword "PRIMARY" ++ blanks) ++ keyword "KEY") <|>
    .leaf .uniqueKeyConstraint (keyword "UNIQUE" ++ further "KEY") <|>
    .leaf .otherColumnConstraint otherAttribute

end DdlModels.Sql.Grammar
