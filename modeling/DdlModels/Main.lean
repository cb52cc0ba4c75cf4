import DdlModels.Command.Run

/-!
# The program

The command runs on the files of the disk. Notices go to the error stream, one on a line.
-/

namespace DdlModels

def AccessError.ofIO : IO.Error → AccessError
  | .noFileOrDirectory .. => missing
  | .inappropriateType _ 21 _ => directory
  | .inappropriateType .. => throughFile
  | error => other (toString error)

instance : FileAccess IO where
  readText path := do
    match ← (IO.FS.readBinFile path).toBaseIO with
    | .error error => return .error (.ofIO error)
    | .ok bytes =>
      match String.fromUTF8? bytes with
      | some text => return .ok text
      | none => return .error .notText
  isFile path := do
    match ← (do (← IO.FS.realPath path).metadata).toBaseIO with
    | .error _ => return false
    | .ok data => return data.type == .file
  writeText path text := do
    match ← (IO.FS.writeFile path text).toBaseIO with
    | .error error => return .error (.ofIO error)
    | .ok () => return .ok ()

def Notice.line (notice : Notice) : String :=
  notice.level.name ++ " " ++ notice.message ++
    String.join (notice.fields.map fun (name, value) => " " ++ name ++ "=" ++ value)

def userDirectory : IO (Option String) := do
  match ← IO.getEnv "XDG_CONFIG_HOME" with
  | some path => return some path
  | none => return (← IO.getEnv "HOME").map (· ++ "/.config")

end DdlModels

def main (arguments : List String) : IO UInt32 := do
  let package ← IO.getEnv "SQL2GORM_PACKAGE"
  let userDirectory ← DdlModels.userDirectory
  let outcome ← DdlModels.Command.run { package, userDirectory } arguments
  for notice in outcome.notices do IO.eprintln notice.line
  IO.eprint outcome.errors
  IO.print outcome.output
  return outcome.code.toUInt32
