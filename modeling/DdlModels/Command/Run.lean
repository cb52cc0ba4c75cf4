import DdlModels.Command.Options
import DdlModels.Conversion
import DdlModels.Package.Output

/-!
# Running the command

A run answers with an exit code and the texts for the two output streams. It writes at most one file, as
its last act, and only if all else has gone well.
-/

namespace DdlModels.Command

/-- What a run leaves for its caller: a usage error has code 2 and any other error code 1. -/
structure Outcome where
  code : Nat := 0
  output : String := ""
  errors : String := ""
  notices : List Notice := []
  deriving DecidableEq, Repr

/-- The outcome with the notices that are wanted: warnings always, the others on demand. -/
def Outcome.filtered (outcome : Outcome) (verbose : Bool) : Outcome :=
  { outcome with notices := outcome.notices.filter fun notice => verbose || notice.level = .warn }

/-- Where a run takes its defaults from. -/
structure Environment where
  /-- The package name, unless an option gives one. -/
  package : Option String := none
  /-- The directory of a user's settings. -/
  userDirectory : Option String := none
  deriving DecidableEq, Repr

/-- Why a run fails. -/
inductive Failure where
  | error (cause : Error)
  | unreadable (path : String) (reason : AccessError)
  | unwritable (path : String) (reason : AccessError)
  deriving DecidableEq, Repr

def Failure.message : Failure → String
  | error cause => cause.message
  | unreadable path reason => "cannot read " ++ path ++ ": " ++ reason.message
  | unwritable path reason => "cannot write " ++ path ++ ": " ++ reason.message

def Failure.advice : Failure → String
  | unreadable .. | unwritable .. => "Check the --file path. Try: sql2gorm --help\n"
  | error _ => ""

def Failure.outcome (failure : Failure) (notices : List Notice) : Outcome where
  code := 1
  errors := "Error: " ++ failure.message ++ "\n" ++ failure.advice
  notices

def hint : String :=
  "sql2gorm — MySQL DDL to GORM models\n\n" ++
    "Usage: sql2gorm --file <PATH> [OPTIONS]\n\n" ++
    "Try: sql2gorm --help\n"

def helpText : String :=
  "Generate GORM model structs from MySQL CREATE TABLE statements\n\n" ++
    "Usage: sql2gorm [OPTIONS] [COMMAND]\n\n" ++
    "Commands:\n" ++
    "  tree  Print the parse tree of a SQL file\n" ++
    "  help  Print this message or the help of the given subcommand(s)\n\n" ++
    "Options:\n" ++
    "  -f, --file <FILE>        Path to the SQL file\n" ++
    "  -p, --package <PACKAGE>  Go package name (overrides the config file)\n" ++
    "  -c, --config <CONFIG>    Config file\n" ++
    "  -o, --output <OUTPUT>    Write the result to this file instead of stdout\n" ++
    "      --format <FORMAT>    Output format [default: go] [possible values: go, json]\n" ++
    "  -v, --verbose            Verbose output\n" ++
    "  -h, --help               Print help\n" ++
    "  -V, --version            Print version\n"

def Interruption.outcome : Interruption → Outcome
  | misuse => { code := 2, errors := "error: invalid arguments\n\n" ++ hint }
  | help => { output := helpText }
  | version => { output := "sql2gorm 0.3.0\n" }

def Format.render : Format → Package → String
  | go, package => package.goSource
  | json, package => package.jsonText

variable {m : Type → Type} [Monad m] [FileAccess m]

def printTree (path : String) : m Outcome := do
  match ← FileAccess.readText path with
  | .error reason => return Failure.outcome (.unreadable path reason) []
  | .ok source =>
    let script := Sql.readScript source
    match script.tree source.toList with
    | .error cause => return Failure.outcome (.error (.parse cause)) script.notices
    | .ok tree => return { output := tree.dump, notices := script.notices }

/-- Writes a text to a file, or prints it where no file is given. -/
def deliver (output : Option String) (tables : Nat) (text : String) (notices : List Notice) :
    m Outcome := do
  match output with
  | none => return { output := text, notices }
  | some path =>
    match ← FileAccess.writeText path text with
    | .error reason => return Failure.outcome (.unwritable path reason) notices
    | .ok () =>
      return { errors := s!"✓ Wrote {tables} model(s) to {path}\n", notices }

def convertTo (options : Options) (settings : Settings) (path : String) : m Outcome := do
  match ← FileAccess.readText path with
  | .error reason => return Failure.outcome (.unreadable path reason) []
  | .ok source =>
    let conversion := buildPackage settings source
    match conversion.result with
    | .error cause => return Failure.outcome (.error cause) conversion.notices
    | .ok package =>
      deliver options.output package.tables.length ((options.format.getD .go).render package)
        conversion.notices

def generate (environment : Environment) (options : Options) (path : String) : m Outcome := do
  match ← Settings.load environment.userDirectory options.config with
  | .error cause => return Failure.outcome (.error (.settings cause)) []
  | .ok settings =>
    convertTo options (settings.override (options.package <|> environment.package)) path

/-- Does what a command line asks for. -/
def run (environment : Environment) (arguments : List String) : m Outcome :=
  match Request.ofArguments arguments with
  | .error interruption => return interruption.outcome
  | .ok (.tree path options) => return (← printTree path).filtered options.verbose
  | .ok (.generate path options) =>
    return (← generate environment options path).filtered options.verbose
  | .ok .hint => return { output := hint }

end DdlModels.Command
