import DdlModels.Draft.Reading
import DdlModels.Proofs.Layout

/-!
# Written tables

A table as it is written: its tokens in order, and the struct that they stand for. Names and comments are
given as they are meant, everything else as it is written.
-/

namespace DdlModels.Written

open Sql Text

/-- A group in parentheses. -/
structure Group where
  text : List Char
  closed : Grammar.group.read text = .ok [] text []

/-- A literal in single quotes. -/
structure Literal where
  text : List Char
  closed : (Grammar.quoted '\x27').read text = .ok [] text []

def Digits (text : List Char) : Prop := text ≠ [] ∧ ∀ c ∈ text, c.isDigit

def Sign (text : List Char) : Prop := text ∈ [[], ['+'], ['-']]

/-- A decimal number without sign and exponent. -/
inductive Mantissa : List Char → Prop where
  | whole {digits : List Char} : Digits digits → Mantissa digits
  | point {digits places : List Char} : Digits digits → (∀ c ∈ places, c.isDigit) →
      Mantissa (digits ++ '.' :: places)
  | fraction {places : List Char} : Digits places → Mantissa ('.' :: places)

/-- An exponent, or none. -/
inductive Exponent : List Char → Prop where
  | none : Exponent []
  | power {mark : Char} {sign digits : List Char} : mark ∈ ['e', 'E'] → Sign sign → Digits digits →
      Exponent (mark :: (sign ++ digits))

/-- A signed decimal number. -/
structure Number where
  sign : List Char
  mantissa : List Char
  exponent : List Char
  signed : Sign sign
  decimal : Mantissa mantissa
  scaled : Exponent exponent

def Number.text (number : Number) : List Char := number.sign ++ (number.mantissa ++ number.exponent)

/-- The value of a default. -/
inductive Value where
  | literal (written : Literal)
  | number (written : Number)
  | group (written : Group)

def Value.text : Value → List Char
  | .literal written => written.text
  | .number written => written.text
  | .group written => written.text

/-- An attribute of a column. -/
inductive Attribute where
  | null
  | notNull
  | default (value : Value)
  | comment (text : String) (plain : '\\' ∉ text.toList)

namespace Attribute

/-- The kind of an attribute. `NULL` and `NOT NULL` are of one kind. -/
def kind : Attribute → NodeKind
  | null | notNull => .nullConstraint
  | default _ => .defaultConstraint
  | comment .. => .commentConstraint

/-- Whether null is forbidden, if the attribute tells. -/
def forbidsNull? : Attribute → Option Bool
  | null => some false
  | notNull => some true
  | _ => none

def default? : Attribute → Option String
  | default value => some (String.ofList value.text)
  | _ => none

/-- The comment, if the attribute tells one that is not empty. -/
def comment? : Attribute → Option String
  | comment text _ => nonempty? text
  | _ => none

def tokens : Attribute → List Token
  | null => [{ form := .word "NULL" }]
  | notNull => [{ form := .word "NOT" }, { form := .word "NULL" }]
  | default value => [{ form := .word "DEFAULT" }, { form := .exact value.text }]
  | comment text _ => [{ form := .word "COMMENT" }, { form := .exact (enquote '\x27' text.toList) }]

end Attribute

def typeKeyword? (name : String) : Option TypeCategory :=
  if name ∈ Grammar.typeWords .string ++ ["CHAR", "CHARACTER", "NCHAR"] then some .string
  else if name ∈ Grammar.typeWords .dimension ++ ["DOUBLE"] then some .dimension
  else if name ∈ Grammar.typeWords .simple then some .simple
  else if name ∈ Grammar.typeWords .collection then some .collection
  else if name ∈ Grammar.typeWords .spatial then some .spatial
  else none

/-- A type of one word. -/
structure TypeWord where
  name : String
  category : TypeCategory
  known : typeKeyword? name = some category

def TypeWord.goType (type : TypeWord) : String := (type.category.rules.classify type.name).goType

/-- A column. No two of its attributes are of one kind. -/
structure Column where
  name : String
  type : TypeWord
  size : Option Group := none
  attributes : List Attribute := []
  once : (attributes.map Attribute.kind).Nodup

namespace Column

def tokens (column : Column) : List Token :=
  { form := .exact (enquote '\x60' column.name.toList) } :: { form := .word column.type.name } ::
    (column.size.toList.map fun group => { form := .exact group.text }) ++
      column.attributes.flatMap Attribute.tokens

def field (column : Column) : DdlModels.Column where
  name := column.name
  goType := column.type.goType
  notNull := (column.attributes.findSome? Attribute.forbidsNull?).getD false
  defaultValue := column.attributes.findSome? Attribute.default?
  comment := column.attributes.findSome? Attribute.comment?

end Column

/-- A definition of a table: a column, or the primary key with its columns. -/
inductive Definition where
  | column (written : Column)
  | primaryKey (columns : Group)

namespace Definition

def tokens : Definition → List Token
  | .column written => written.tokens
  | .primaryKey columns =>
    [{ form := .word "PRIMARY" }, { spacing := .white, form := .word "KEY" },
      { spacing := .white, form := .exact columns.text }]

/-- What may stand before the mark that ends a definition. -/
def closing : Definition → Spacing
  | .column _ => .apart
  | .primaryKey _ => .white

def column? : Definition → Option Column
  | .column written => some written
  | .primaryKey _ => none

/-- The tokens of definitions, with commas between them and a closing parenthesis. -/
def allTokens (first : Definition) : List Definition → List Token
  | [] => first.tokens ++ [{ spacing := first.closing, form := .exact [')'] }]
  | next :: more =>
    first.tokens ++ { spacing := first.closing, form := .exact [','] } :: next.allTokens more

end Definition

/-- A table with one or more definitions. -/
structure Table where
  temporary : Bool := false
  ifNotExists : Bool := false
  name : String
  undotted : '.' ∉ name.toList
  first : Definition
  more : List Definition := []

namespace Table

def definitions (table : Table) : List Definition := table.first :: table.more

def columns (table : Table) : List Column := table.definitions.filterMap Definition.column?

def temporaryTokens (temporary : Bool) : List Token :=
  if temporary then [{ form := .word "TEMPORARY" }] else []

def ifNotExistsTokens (ifNotExists : Bool) : List Token :=
  if ifNotExists then [{ form := .word "IF" }, { form := .word "NOT" }, { form := .word "EXISTS" }]
  else []

def tokens (table : Table) : List Token :=
  { spacing := .free, form := .word "CREATE" } :: (temporaryTokens table.temporary ++
    { form := .word "TABLE" } :: (ifNotExistsTokens table.ifNotExists ++
      { form := .exact (enquote '\x60' table.name.toList) } :: { form := .exact ['('] } ::
        (table.first.allTokens table.more ++ [{ form := .exact [';'] }])))

def struct (table : Table) : DdlModels.Table :=
  { name := table.name, columns := table.columns.map Column.field }

end Table

def package (name : String) (tables : List Table) : Package where
  name := name
  tables := tables.map Table.struct
  imports :=
    if tables.any fun table => table.columns.any fun column => column.type.goType == GoType.time
    then ["time"] else []

/-- The source lays out the tables one after another. -/
def Lays (tables : List Table) (source : String) : Prop :=
  Laid (tables.flatMap Table.tokens) source.toList

end DdlModels.Written
