import DdlModels.Error
import DdlModels.Package.Model
import DdlModels.Settings.Document

/-!
# Settings

Settings are read from a document that assigns at most the key `package`. The document is the one that is
asked for, or else the first that is found at the usual places.
-/

namespace DdlModels

/-- What a conversion can be told beside its source. -/
structure Settings where
  packageName : String := defaultPackageName
  deriving DecidableEq, Repr

namespace Settings

/-- The settings that assignments make. Unknown keys are refused, and repeated ones. -/
def ofAssignments? : List Assignment → Option Settings
  | [] => some {}
  | [⟨"package", packageName⟩] => some { packageName }
  | _ => none

def ofDocument? (source : String) : Option Settings := do
  ofAssignments? (← readDocument source)

def ofText (source : String) : Except SettingsError Settings :=
  match ofDocument? source with
  | some settings => .ok settings
  | none => .error .malformed

def override (settings : Settings) (packageName : Option String) : Settings :=
  { packageName := packageName.getD settings.packageName }

variable {m : Type → Type} [Monad m] [FileAccess m]

def ofFile (path : String) : m (Except SettingsError Settings) := do
  match ← FileAccess.readText path with
  | .error reason => return .error (.unreadable path reason)
  | .ok source =>
    match ofDocument? source with
    | some settings => return .ok settings
    | none => return .error (.malformedFile path)

/-- Where settings are looked for, in order, given the directory of a user's settings. -/
def usualPlaces (userDirectory : Option String) : List String :=
  "sql2gorm.toml" :: (userDirectory.map (· ++ "/sql2gorm/config.toml")).toList

/-- The settings in the first file of a list that is there, or else the usual ones. -/
def ofFirstFile : List String → m (Except SettingsError Settings)
  | [] => return .ok {}
  | path :: paths => do
    if ← FileAccess.isFile path then ofFile path else ofFirstFile paths

/-- The settings in the file that is asked for, or else at the usual places. -/
def load (userDirectory explicit : Option String) : m (Except SettingsError Settings) :=
  match explicit with
  | some path => ofFile path
  | none => ofFirstFile (usualPlaces userDirectory)

end Settings

end DdlModels
