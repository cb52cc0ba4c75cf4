import DdlModels.Draft.Basic
import DdlModels.Files.Access
import DdlModels.Sql.Script

/-!
# Errors

All that a conversion can fail for, with the text that a user sees.
-/

namespace DdlModels

/-- Why settings cannot be had. -/
inductive SettingsError where
  /-- A document is not one of settings. -/
  | malformed
  /-- The same of a document in a file. -/
  | malformedFile (path : String)
  | unreadable (path : String) (reason : AccessError)
  deriving DecidableEq, Repr

def SettingsError.message : SettingsError → String
  | malformed => "TOML parse error"
  | malformedFile path => path ++ ": TOML parse error"
  | unreadable path reason => "cannot read " ++ path ++ ": " ++ reason.message

/-- Why there is no result. -/
inductive Error where
  | parse (cause : Sql.ParseError)
  | violation (cause : Violation)
  | settings (cause : SettingsError)
  | access (cause : AccessError)
  deriving DecidableEq, Repr

/-- What a user is told of a fault in a source, at a position in bytes. -/
def faultMessage (position : Nat) (message : String) : String :=
  "Parse error at position " ++ toString position ++ ": " ++ message

def Error.message : Error → String
  | parse cause => faultMessage cause.position cause.message
  | violation cause => "Protocol violation: " ++ cause.message
  | settings cause => "Configuration error: " ++ cause.message
  | access cause => "IO error: " ++ cause.message

end DdlModels
