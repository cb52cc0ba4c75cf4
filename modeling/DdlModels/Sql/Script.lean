import DdlModels.Notice
import DdlModels.Sql.TableDefinition

/-!
# Scripts

A script is a sequence of statements, separated by semicolons. Statements that create a table are read
by the grammar; all others are passed over up to their semicolon.
-/

namespace DdlModels.Sql

/-- A statement, by what becomes of it. -/
inductive Statement where
  /-- A table with definitions. -/
  | table (node : Node)
  /-- A table without definitions, with the text from there on. -/
  | bodiless (text : List Char)
  /-- Any other statement. -/
  | skipped (text : List Char)

namespace Statement

def node? : Statement → Option Node
  | table node => some node
  | _ => none

def notice? : Statement → Option Notice
  | table _ => none
  | bodiless text => some (.bodilessTable (Text.excerpt text))
  | skipped text => some (.skippedStatement (Text.excerpt text))

/-- The statement that a table's nodes and its text make. -/
def ofTable (nodes : List Node) (text : List Char) : Statement :=
  match nodes with
  | node :: _ => table node
  | [] => bodiless text

end Statement

/-- What cannot be read, and where. -/
structure ParseError where
  position : Nat
  message : String
  deriving DecidableEq, Repr

/-- An error at the place where the given text is left of a source. -/
def ParseError.at (source place : List Char) (message : String) : ParseError :=
  ⟨Text.byteSize source - Text.byteSize place, message⟩

/-- The innermost part that has a name. -/
def Errors.expected? (errors : Errors) : Option String := errors.findSome? fun error => error.2.context?

/-- What is said of a place, where a part with a name may have been expected. -/
def wording (expected : Option String) (place : List Char) : String :=
  match expected, place with
  | some what, [] => "expected " ++ what ++ " at end of input"
  | some what, place => "expected " ++ what ++ " near '" ++ Text.excerpt place ++ "'"
  | none, [] => "unexpected end of input"
  | none, place => "unexpected input near '" ++ Text.excerpt place ++ "'"

/-- The error that is reported for a failure. -/
def Failure.report (source : List Char) : Failure → ParseError
  | incomplete => ⟨Text.byteSize source, "unexpected end of input"⟩
  | errors [] => ⟨0, "parse failed"⟩
  | errors ((place, kind) :: outer) =>
    .at source place (wording (Errors.expected? ((place, kind) :: outer)) place)

/-- Why a script cannot be read. -/
inductive Fault where
  | failed (failure : Failure)
  /-- A quote is opened at the beginning of the text or after it, and never closed. -/
  | unterminatedLiteral (text : List Char)
  deriving DecidableEq, Repr

def Fault.report (source : List Char) : Fault → ParseError
  | failed failure => failure.report source
  | unterminatedLiteral text =>
    .at source text ("unterminated literal near '" ++ Text.excerpt text ++ "'")

/-- The statements of a script, up to the fault that ends its reading, if there is one. -/
structure Script where
  statements : List Statement := []
  fault : Option Fault := none

namespace Script

def cons (statement : Statement) (script : Script) : Script :=
  { script with statements := statement :: script.statements }

def halted (fault : Fault) : Script := { fault := some fault }

def skipBlanks (text : List Char) : List Char :=
  match Grammar.blanks.read text with
  | .ok _ _ rest => rest
  | _ => text

theorem skipBlanks_length (text : List Char) : (skipBlanks text).length ≤ text.length := by
  have h := Grammar.blanks.read_splits text
  unfold skipBlanks
  split
  case h_1 nodes taken rest found =>
    rw [found] at h
    rw [show text = taken ++ rest from h, List.length_append]
    exact Nat.le_add_left _ _
  case h_2 => exact Nat.le_refl _

theorem rest_length_lt {grammar : Grammar} {text taken rest : List Char} {nodes : List Node}
    (found : grammar.read text = .ok nodes taken rest) (h : taken ≠ []) :
    rest.length < text.length := by
  have split := grammar.read_splits text
  rw [found] at split
  rw [show text = taken ++ rest from split, List.length_append]
  exact Nat.lt_add_of_pos_left (List.length_pos_iff.mpr h)

theorem tableStatement_taken {text taken rest : List Char} {nodes : List Node}
    (found : Grammar.tableStatement.read text = .ok nodes taken rest) : taken ≠ [] := by
  have h := Grammar.read_advances (by decide : Grammar.tableStatement.advances) text
  rwa [found] at h

/-- What comes next in a script. -/
inductive Next where
  | ended
  | separator (rest : List Char)
  | statement (statement : Statement) (rest : List Char)
  | halted (fault : Fault)

def nextTable (text : List Char) : Next :=
  match Grammar.tableStatement.read text with
  | .ok nodes _ rest => .statement (.ofTable nodes text) rest
  | .miss errors => .halted (.failed (.errors errors))
  | .fail failure => .halted (.failed failure)

/-- Passes over any other statement. -/
def nextOther (text : List Char) : Next :=
  match Grammar.statementTail.read text with
  | .ok _ [] _ => .halted (.unterminatedLiteral text)
  | .ok _ skipped rest => .statement (.skipped skipped) rest
  | .miss errors => .halted (.failed (.errors errors))
  | .fail failure => .halted (.failed failure)

/-- Reads a statement or a separator, after blanks. -/
def next (text : List Char) : Next :=
  match skipBlanks text with
  | [] => .ended
  | ';' :: rest => .separator rest
  | start =>
    match Grammar.tableHead.read start with
    | .ok .. => nextTable start
    | _ => nextOther start

/-- What is left of a text to go on with, after a statement or a separator. -/
def Next.rest? : Next → Option (List Char)
  | separator rest | statement _ rest => some rest
  | ended | halted _ => none

theorem nextTable_rest_length_lt {text rest : List Char} (h : (nextTable text).rest? = some rest) :
    rest.length < text.length := by
  revert h
  fun_cases nextTable text with
  | case1 nodes taken left found =>
    rintro ⟨⟩
    exact rest_length_lt found (tableStatement_taken found)
  | _ => nofun

theorem nextOther_rest_length_lt {text rest : List Char} (h : (nextOther text).rest? = some rest) :
    rest.length < text.length := by
  revert h
  fun_cases nextOther text with
  | case2 nodes skipped left something found =>
    rintro ⟨⟩
    exact rest_length_lt found something
  | _ => nofun

/-- Each step through a script shortens it. -/
theorem next_rest_length_lt {text rest : List Char} (h : (next text).rest? = some rest) :
    rest.length < text.length := by
  have blanks := skipBlanks_length text
  revert h
  fun_cases next text with
  | case2 left start =>
    rintro ⟨⟩
    rw [start, List.length_cons] at blanks
    exact blanks
  | case1 => nofun
  | case3 => exact fun table => Nat.lt_of_lt_of_le (nextTable_rest_length_lt table) blanks
  | case4 => exact fun other => Nat.lt_of_lt_of_le (nextOther_rest_length_lt other) blanks

/-- Reads statements up to the end of the text. -/
def readFrom (text : List Char) : Script :=
  match _found : next text with
  | .ended => {}
  | .separator rest => readFrom rest
  | .statement statement rest => (readFrom rest).cons statement
  | .halted fault => halted fault
termination_by text.length
decreasing_by all_goals exact next_rest_length_lt (by rw [_found]; rfl)

def tables (script : Script) : List Node := script.statements.filterMap Statement.node?

def notices (script : Script) : List Notice := script.statements.filterMap Statement.notice?

end Script

def readScript (source : String) : Script := Script.readFrom source.toList

/-- The tree of a script: a root with its tables. -/
def Script.tree (script : Script) (source : List Char) : Except ParseError Node :=
  match script.fault with
  | some fault => .error (fault.report source)
  | none => .ok ⟨.root, "", script.tables⟩

def parse (source : String) : Except ParseError Node :=
  (readScript source).tree source.toList

end DdlModels.Sql
