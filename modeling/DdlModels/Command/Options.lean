/-!
# Options

The command line is read from left to right. An option keeps its value waiting until the next option or
the end, and only then is the value looked at; a subcommand reads all that follows it before that.
-/

namespace DdlModels.Command

/-- The form of the output. -/
inductive Format where
  | go
  | json
  deriving DecidableEq, Repr

def Format.ofName? : String → Option Format
  | "go" => some .go
  | "json" => some .json
  | _ => none

/-- The options that were given. -/
structure Options where
  file : Option String := none
  package : Option String := none
  config : Option String := none
  output : Option String := none
  format : Option Format := none
  verbose : Bool := false
  deriving DecidableEq, Repr

/-- What ends the reading of a command line before its end. -/
inductive Interruption where
  | misuse
  | help
  | version
  deriving DecidableEq, Repr

/-- What a command line asks for. -/
inductive Request where
  /-- To print the tree of a file. -/
  | tree (file : String) (options : Options)
  /-- To convert a file. -/
  | generate (file : String) (options : Options)
  /-- To tell how to ask for something. -/
  | hint
  deriving DecidableEq, Repr

/-- An argument by its form. -/
inductive Argument where
  /-- Two dashes alone, after which no options are read. -/
  | separator
  | long (name : String) (value : Option String)
  /-- One dash and the letters of options, perhaps with a value behind them. -/
  | short (letters : List Char)
  | word (text : String)

def Argument.ofString (text : String) : Argument :=
  match text.toList with
  | ['-', '-'] => separator
  | '-' :: '-' :: body =>
    match body.span (· ≠ '=') with
    | (name, _ :: value) => long (String.ofList name) (some (String.ofList value))
    | (name, []) => long (String.ofList name) none
  | '-' :: c :: letters => short (c :: letters)
  | _ => word text

/-- An option that takes a value. -/
inductive Setting where
  | file
  | package
  | config
  | output
  | format
  deriving DecidableEq, Repr

/-- An option. -/
inductive Switch where
  | setting (setting : Setting)
  | verbose
  | help
  | version
  deriving DecidableEq, Repr

def Switch.ofName? : String → Option Switch
  | "file" => some (setting .file)
  | "package" => some (setting .package)
  | "config" => some (setting .config)
  | "output" => some (setting .output)
  | "format" => some (setting .format)
  | "verbose" => some verbose
  | "help" => some help
  | "version" => some version
  | _ => none

def Switch.ofLetter? : Char → Option Switch
  | 'f' => some (setting .file)
  | 'p' => some (setting .package)
  | 'c' => some (setting .config)
  | 'o' => some (setting .output)
  | 'v' => some verbose
  | 'h' => some help
  | 'V' => some version
  | _ => none

/-- A value that is given once and is valid. -/
def once {α : Type} : Option α → Option α → Except Interruption (Option α)
  | none, some value => .ok (some value)
  | _, _ => .error .misuse

/-- A path is any text but the empty one. -/
def path? (value : String) : Option String := if value.isEmpty then none else some value

namespace Options

def set (options : Options) (value : String) : Setting → Except Interruption Options
  | .file => return { options with file := ← once options.file (path? value) }
  | .package => return { options with package := ← once options.package (some value) }
  | .config => return { options with config := ← once options.config (path? value) }
  | .output => return { options with output := ← once options.output (path? value) }
  | .format => return { options with format := ← once options.format (Format.ofName? value) }

def setVerbose (options : Options) : Except Interruption Options :=
  if options.verbose then .error .misuse else .ok { options with verbose := true }

end Options

/-- An option with its value, once that has come. -/
structure Pending where
  setting : Setting
  value : Option String := none

/-- What has been read of a command line. -/
structure Reading where
  options : Options := {}
  pending : Option Pending := none

namespace Reading

/-- The options, with the one whose value was kept waiting. -/
def settle (reading : Reading) : Except Interruption Options :=
  match reading.pending with
  | none => .ok reading.options
  | some ⟨setting, some value⟩ => reading.options.set value setting
  | some ⟨_, none⟩ => .error .misuse

def open? (reading : Reading) : Option Setting :=
  match reading.pending with
  | some ⟨setting, none⟩ => some setting
  | _ => none

/-- Reads an option, perhaps with a value in the same argument. -/
def switch (reading : Reading) (switch : Switch) (value : Option String) :
    Except Interruption Reading := do
  let options ← reading.settle
  match switch, value with
  | .setting setting, some value => return { options := ← options.set value setting }
  | .setting setting, none => return { options, pending := some { setting } }
  | .verbose, none => return { options := ← options.setVerbose }
  | .help, none => throw .help
  | .version, none => throw .version
  | _, some _ => throw .misuse

/-- The value that follows the letter of an option in the same argument, if any does. -/
def attached? : List Char → Option String
  | [] => none
  | '=' :: value | value => some (String.ofList value)

/-- Reads the letters of an argument. What follows an option with a value is that value. -/
def letters (reading : Reading) : List Char → Except Interruption Reading
  | [] => return reading
  | c :: rest =>
    match Switch.ofLetter? c with
    | none => throw .misuse
    | some (.setting setting) => reading.switch (.setting setting) (attached? rest)
    | some switch => do (← reading.switch switch none).letters rest

end Reading

/-- The file of the subcommand that prints a tree, after the two dashes. -/
def readOperands : Option String → List String → Except Interruption String
  | some file, [] | none, [file] => if file.isEmpty then .error .misuse else .ok file
  | _, _ => .error .misuse

/-- The file of the subcommand that prints a tree, given what was read of it. -/
def readTree (file : Option String) : List String → Except Interruption String
  | [] => readOperands file []
  | argument :: arguments =>
    match Argument.ofString argument, file with
    | .separator, _ => readOperands file arguments
    | .word text, none => readTree (some text) arguments
    | .long "help" none, some "" | .short ('h' :: _), some "" => .error .misuse
    | .long "help" none, _ | .short ('h' :: _), _ => .error .help
    | _, _ => .error .misuse

/-- The subcommand that shows how a subcommand is used. -/
def readHelp : List String → Interruption
  | [] | ["tree"] | ["help"] => .help
  | _ => .misuse

def Options.request (options : Options) : Request :=
  match options.file with
  | some file => .generate file options
  | none => .hint

/-- Reads arguments, given what was read before them. -/
def readArguments (reading : Reading) : List String → Except Interruption Request
  | [] => return (← reading.settle).request
  | argument :: arguments =>
    match Argument.ofString argument, reading.open? with
    | .separator, _ =>
      if arguments.isEmpty then return (← reading.settle).request else throw .misuse
    | .long name value, _ =>
      match Switch.ofName? name with
      | none => throw .misuse
      | some switch => do readArguments (← reading.switch switch value) arguments
    | .short letters, _ => do readArguments (← reading.letters letters) arguments
    | .word value, some setting =>
      readArguments { reading with pending := some ⟨setting, some value⟩ } arguments
    | .word "tree", none => do
      let file ← readTree none arguments
      return .tree file (← reading.settle)
    | .word "help", none => throw (readHelp arguments)
    | .word _, none => throw .misuse

/-- What a command line asks for. -/
def Request.ofArguments (arguments : List String) : Except Interruption Request :=
  readArguments {} arguments

end DdlModels.Command
