import DdlModels.Text.CharClass
import DdlModels.Text.LetterCase
import DdlModels.Tree.Kind

/-!
# From SQL types to Go types

Each category of data types has a chain of rules. The first rule whose word occurs in the type's name
gives the Go type; the fallback at the end of a chain applies to every other name.
-/

namespace DdlModels

/-- A Go type, with the packages it needs, for the type names in which a word occurs. -/
structure TypeRule where
  contains : String
  goType : String
  imports : List String := []
  deriving DecidableEq, Repr

namespace TypeRule

def any (goType : String) : TypeRule := { contains := "", goType }

def occursIn (word : List Char) : List Char → Bool
  | [] => word.isEmpty
  | c :: rest => word.isPrefixOf (c :: rest) || occursIn word rest

def covers (rule : TypeRule) (name : List Char) : Bool := occursIn rule.contains.toList name

end TypeRule

/-- Rules in order, and the rule for names that none of them covers. -/
structure RuleChain where
  rules : List TypeRule
  fallback : TypeRule
  deriving DecidableEq, Repr

namespace RuleChain

/-- The chain that gives every name the same type. -/
def always (goType : String) : RuleChain := ⟨[], .any goType⟩

/-- The rules in order, the fallback last. -/
def toList (chain : RuleChain) : List TypeRule := chain.rules ++ [chain.fallback]

/-- The rule for a type name: the first whose word occurs in the trimmed lower-case name, else the
fallback. -/
def classify (chain : RuleChain) (name : String) : TypeRule :=
  let name := Text.lowercase (Text.trim name.toList)
  (chain.rules.find? (·.covers name)).getD chain.fallback

end RuleChain

namespace GoType

def int64 : String := "int64"
def float64 : String := "float64"
def bool : String := "bool"
def string : String := "string"
def time : String := "time.Time"

end GoType

namespace TypeRule

/-- A rule for points in time, which need the package `time`. -/
def temporal (word : String) : TypeRule :=
  { contains := word, goType := GoType.time, imports := ["time"] }

end TypeRule

namespace RuleChain

/-- Types that take a length or a precision: numbers, moments and bytes. -/
def dimension : RuleChain where
  rules := [{ contains := "int", goType := GoType.int64 },
    { contains := "timestamp", goType := GoType.int64 },
    .temporal "datetime", .temporal "year"]
  fallback := .any GoType.float64

/-- Types that take none: dates, truth values, serial numbers and blobs. -/
def simple : RuleChain where
  rules := [.temporal "date", { contains := "bool", goType := GoType.bool },
    { contains := "serial", goType := GoType.int64 }]
  fallback := .any GoType.string

/-- Types that are always text. -/
def string : RuleChain := .always GoType.string

end RuleChain

def TypeCategory.rules : TypeCategory → RuleChain
  | dimension => .dimension
  | simple => .simple
  | _ => .string

end DdlModels
