import DdlModels.Notice
import DdlModels.Package.Model
import DdlModels.Text.Quoted
import DdlModels.TypeRule

/-!
# Drafts

A package is drafted by operations in source order. At most one table and one column are open at a
time; an operation that breaks this nesting is refused, and one that sets an attribute of a column
while none is open is reported and has no effect.
-/

namespace DdlModels

/-- An operation that opens or closes something. -/
inductive Passage where
  | tableExit
  | columnStart
  | columnExit
  deriving DecidableEq, Repr

def Passage.name : Passage → String
  | tableExit => "table exit"
  | columnStart => "column start"
  | columnExit => "column exit"

/-- Why an operation is refused. -/
inductive Violation where
  /-- A table starts while another is open. -/
  | tableAlreadyOpen (current next : String)
  /-- Something needs an open table and there is none. -/
  | noOpenTable (passage : Passage)
  /-- A column starts while another is open. -/
  | columnAlreadyOpen (current next : String)
  /-- Something needs an open column and there is none. -/
  | noOpenColumn (passage : Passage)
  /-- Something ends while a part of it is open. -/
  | unfinished (name : String)
  deriving DecidableEq, Repr

def Violation.message : Violation → String
  | tableAlreadyOpen current next =>
    "table '" ++ current ++ "' is still open when table '" ++ next ++ "' starts"
  | noOpenTable passage => passage.name ++ " without an open table"
  | columnAlreadyOpen current next =>
    "column '" ++ current ++ "' is still open when column '" ++ next ++ "' starts"
  | noOpenColumn passage => passage.name ++ " without an open column"
  | unfinished name => "walk finished with '" ++ name ++ "' still open"

/-- A package in the making. -/
structure Draft where
  package : Package := {}
  openTable : Option Table := none
  openColumn : Option Column := none
  deriving DecidableEq, Repr

/-- An operation on a draft. -/
inductive Operation where
  /-- Opens a table, given as written, perhaps with a schema before its name. -/
  | enterTable (reference : String)
  | exitTable
  /-- Opens a column, given as written. -/
  | enterColumn (raw : String)
  | exitColumn
  | setType (name : String) (rules : RuleChain)
  | setDefault (raw : String)
  | setComment (literal : String)
  | setNotNull (notNull : Bool)
  deriving DecidableEq, Repr

/-- What an operation did: the draft after it, its reports, and the violation if it was refused. -/
structure Step where
  draft : Draft
  notices : List Notice := []
  violation : Option Violation := none
  deriving DecidableEq, Repr

/-- The last dotted part of a table reference, without its quotes. -/
def tableName (reference : String) : String :=
  let afterDot := (reference.toList.reverse.takeWhile (· != '.')).reverse
  String.ofList (Text.unquoteChars afterDot)

def nonempty? (value : String) : Option String := if value.isEmpty then none else some value

namespace Draft

/-- The draft that an empty package of that name starts from. -/
def start (name : String) : Draft := { package := { name } }

def refuse (draft : Draft) (violation : Violation) : Step := { draft, violation := some violation }

def enterTable (draft : Draft) (reference : String) : Step :=
  match draft.openTable with
  | some current => draft.refuse (.tableAlreadyOpen current.name (tableName reference))
  | none => { draft := { draft with openTable := some { name := tableName reference } } }

/-- Closes the open table and adds it to the package. -/
def exitTable (draft : Draft) : Step :=
  match draft.openColumn, draft.openTable with
  | some column, _ => draft.refuse (.unfinished column.name)
  | none, none => draft.refuse (.noOpenTable .tableExit)
  | none, some table =>
    { draft := { draft with package := draft.package.addTable table, openTable := none }
      notices := [.tableDone table.name table.columns.length] }

def enterColumn (draft : Draft) (raw : String) : Step :=
  match draft.openColumn, draft.openTable with
  | some current, _ => draft.refuse (.columnAlreadyOpen current.name (Text.unquote raw))
  | none, none => draft.refuse (.noOpenTable .columnStart)
  | none, some _ => { draft := { draft with openColumn := some { name := Text.unquote raw } } }

/-- Closes the open column and adds it to the open table. -/
def exitColumn (draft : Draft) : Step :=
  match draft.openTable, draft.openColumn with
  | none, _ => draft.refuse (.noOpenTable .columnExit)
  | some _, none => draft.refuse (.noOpenColumn .columnExit)
  | some table, some column =>
    { draft :=
        { draft with
          openTable := some { table with columns := table.columns ++ [column] }
          openColumn := none }
      notices := [.columnDone table.name column.name column.goType] }

/-- Changes the open column. Without one, only the notice remains. -/
def setAttribute (draft : Draft) (stray : Notice) (change : Column → Column) : Step :=
  match draft.openColumn with
  | none => { draft, notices := [stray] }
  | some column => { draft := { draft with openColumn := some (change column) } }

/-- Sets the type of the open column by a chain of rules, and adds the imports of that type. -/
def setType (draft : Draft) (name : String) (rules : RuleChain) : Step :=
  match draft.openColumn with
  | none => { draft, notices := [.strayType name] }
  | some column =>
    let rule := rules.classify name
    { draft :=
        { draft with
          package := draft.package.addImports rule.imports
          openColumn := some { column with goType := rule.goType } } }

def perform (draft : Draft) : Operation → Step
  | .enterTable reference => draft.enterTable reference
  | .exitTable => draft.exitTable
  | .enterColumn raw => draft.enterColumn raw
  | .exitColumn => draft.exitColumn
  | .setType name rules => draft.setType name rules
  | .setDefault raw =>
    draft.setAttribute (.strayDefault raw) fun column =>
      { column with defaultValue := nonempty? (Text.trimmed raw) }
  | .setComment literal =>
    draft.setAttribute (.strayComment literal) fun column =>
      { column with comment := nonempty? (Text.unquote literal) }
  | .setNotNull notNull =>
    draft.setAttribute (.strayNull notNull) fun column => { column with notNull }

/-- The finished package. Nothing may be open. -/
def finish (draft : Draft) : Except Violation Package :=
  match draft.openColumn, draft.openTable with
  | some column, _ => .error (.unfinished column.name)
  | none, some table => .error (.unfinished table.name)
  | none, none => .ok draft.package

end Draft

end DdlModels
