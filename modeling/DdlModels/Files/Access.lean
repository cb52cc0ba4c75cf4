/-!
# Access to files

Programs that read and write text files are written for any monad that gives access to files, so that
they run on a disk as well as on files in memory.
-/

namespace DdlModels

/-- Why a file cannot be read or written. -/
inductive AccessError where
  | missing
  /-- The path leads to a directory. -/
  | directory
  /-- The path goes on behind a file. -/
  | throughFile
  /-- The path, or a name in it, has more bytes than a path or a name can have. -/
  | tooLong
  /-- The path has the character in it that ends a path. -/
  | endsEarly
  /-- The bytes of the file are no text. -/
  | notText
  | other (reason : String)
  deriving DecidableEq, Repr

def AccessError.message : AccessError → String
  | missing => "No such file or directory (os error 2)"
  | directory => "Is a directory (os error 21)"
  | throughFile => "Not a directory (os error 20)"
  | tooLong => "File name too long (os error 36)"
  | endsEarly => "file name contained an unexpected NUL byte"
  | notText => "stream did not contain valid UTF-8"
  | other reason => reason

/-- Access to text files by their paths. -/
class FileAccess (m : Type → Type) where
  /-- The text of a file. -/
  readText (path : String) : m (Except AccessError String)
  /-- Whether a path leads to a file. -/
  isFile (path : String) : m Bool
  /-- Gives a file a new text, and creates the file if need be. -/
  writeText (path text : String) : m (Except AccessError Unit)

end DdlModels
