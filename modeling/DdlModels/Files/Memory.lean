import DdlModels.Files.Access

/-!
# Files in memory

Files are kept by the names on their way from the root. Directories are those that files are in, and the
one that relative paths start from.
-/

namespace DdlModels

/-- What a file holds. -/
inductive Content where
  | text (text : String)
  /-- Bytes that are no text. -/
  | binary
  deriving DecidableEq, Repr

/-- A file with the names on its way from the root. -/
structure File where
  place : List String
  content : Content
  deriving DecidableEq, Repr

/-- Files, and the directory that relative paths start from. -/
structure Files where
  start : List String := []
  files : List File := []
  deriving DecidableEq, Repr

/-- What a place holds. -/
inductive Entry where
  | file (content : Content)
  | directory
  deriving DecidableEq, Repr

namespace Files

def entry? (fs : Files) (place : List String) : Option Entry :=
  match fs.files.find? (·.place = place) with
  | some file => some (.file file.content)
  | none =>
    if place.isPrefixOf fs.start || fs.files.any (place.isPrefixOf ·.place) then some .directory
    else none

def nameLimit : Nat := 255

def pathLimit : Nat := 4095

/-- The place that a name leads to from a directory. -/
def step (fs : Files) (place : List String) (name : String) : Except AccessError (List String) :=
  match fs.entry? place with
  | none => .error .missing
  | some (.file _) => .error .throughFile
  | some .directory =>
    if nameLimit < name.utf8ByteSize then .error .tooLong
    else if name = "" || name = "." then .ok place
    else if name = ".." then .ok place.dropLast
    else .ok (place ++ [name])

def resolve (fs : Files) (place : List String) (names : List String) :
    Except AccessError (List String) :=
  names.foldlM fs.step place

/-- The names of a path, if it can be one. A slash in front or at the end makes an empty name. -/
def namesOf (path : String) : Except AccessError (List String) :=
  if path.contains '\x00' then .error .endsEarly
  else if path = "" then .error .missing
  else if pathLimit < path.utf8ByteSize then .error .tooLong
  else .ok (path.splitOn "/")

/-- Where the names of a path are looked up from. -/
def startOf (fs : Files) (path : String) : List String :=
  if path.startsWith "/" then [] else fs.start

def locate (fs : Files) (path : String) : Except AccessError (List String) := do
  fs.resolve (fs.startOf path) (← namesOf path)

def readText (fs : Files) (path : String) : Except AccessError String := do
  match fs.entry? (← fs.locate path) with
  | none => .error .missing
  | some .directory => .error .directory
  | some (.file .binary) => .error .notText
  | some (.file (.text text)) => .ok text

def isFile (fs : Files) (path : String) : Bool :=
  match fs.locate path with
  | .ok place => fs.files.any (·.place = place)
  | .error _ => false

def put (fs : Files) (place : List String) (content : Content) : Files :=
  { fs with files := ⟨place, content⟩ :: fs.files.filter (·.place ≠ place) }

/-- The place of a file that is about to be written. Only its directory has to be there, and a path
with a slash at its end is never one of a file. -/
def target (fs : Files) (path : String) : Except AccessError (List String) := do
  let names ← namesOf path
  let written := (names.reverse.dropWhile (· = "")).reverse
  if written.length < names.length then
    let _ ← fs.resolve (fs.startOf path) (written.dropLast ++ ["."])
    throw .directory
  let place ← fs.resolve (fs.startOf path) written
  if fs.entry? place = some .directory then throw .directory
  return place

/-- Gives a file a new text, and creates the file if need be. -/
def writeText (fs : Files) (path text : String) : Except AccessError Files := do
  return fs.put (← fs.target path) (.text text)

def ofList (start : List String) (files : List (String × Content)) : Files :=
  { start
    files := files.map fun (path, content) =>
      ⟨start ++ (path.splitOn "/").filter fun name => name ≠ "" && name ≠ ".", content⟩ }

end Files

instance : FileAccess (StateM Files) where
  readText path := return (← get).readText path
  isFile path := return (← get).isFile path
  writeText path text := do
    match (← get).writeText path text with
    | .error error => return .error error
    | .ok files =>
      set files
      return .ok ()

end DdlModels
