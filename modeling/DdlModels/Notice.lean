/-!
# Notices

What a conversion reports on its way, beside its result.
-/

namespace DdlModels

/-- How much a notice matters. -/
inductive Level where
  | debug
  | info
  | warn
  deriving DecidableEq, Repr

def Level.name : Level → String
  | debug => "DEBUG"
  | info => "INFO"
  | warn => "WARN"

/-- A report on one thing that happened. -/
inductive Notice where
  /-- A statement that creates no table was passed over. -/
  | skippedStatement (excerpt : String)
  /-- A table was created without column definitions, which leaves nothing to model. -/
  | bodilessTable (excerpt : String)
  /-- The script has been read. -/
  | parsed (tables : Nat)
  | columnDone (table column goType : String)
  | tableDone (table : String) (columns : Nat)
  /-- A data type stood outside of a column. -/
  | strayType (name : String)
  /-- A default stood outside of a column. -/
  | strayDefault (value : String)
  /-- A comment stood outside of a column. -/
  | strayComment (literal : String)
  /-- `NULL` or `NOT NULL` stood outside of a column. -/
  | strayNull (notNull : Bool)
  /-- The package is complete. -/
  | packageBuilt (tables imports : Nat)
  deriving DecidableEq, Repr

namespace Notice

def level : Notice → Level
  | skippedStatement _ | parsed _ | columnDone .. | tableDone .. => .debug
  | packageBuilt .. => .info
  | bodilessTable _ | strayType _ | strayDefault _ | strayComment _ | strayNull _ => .warn

def message : Notice → String
  | skippedStatement _ => "skipping statement"
  | bodilessTable _ => "CREATE TABLE without column definitions, skipped"
  | parsed _ => "parsed"
  | columnDone .. => "column done"
  | tableDone .. => "table done"
  | strayType _ => "data type outside of a column, ignored"
  | strayDefault _ => "default outside of a column, ignored"
  | strayComment _ => "comment outside of a column, ignored"
  | strayNull _ => "null constraint outside of a column, ignored"
  | packageBuilt .. => "model built"

/-- The details of a notice, by name. -/
def fields : Notice → List (String × String)
  | skippedStatement excerpt | bodilessTable excerpt => [("statement", excerpt)]
  | parsed tables => [("statements", toString tables)]
  | columnDone table column goType => [("table", table), ("column", column), ("data_type", goType)]
  | tableDone table columns => [("table", table), ("columns", toString columns)]
  | strayType name => [("type_name", name)]
  | strayDefault value => [("raw_value", value)]
  | strayComment literal => [("raw_literal", literal)]
  | strayNull notNull => [("not_null", toString notNull)]
  | packageBuilt tables imports => [("tables", toString tables), ("imports", toString imports)]

end Notice

end DdlModels
