/-!
# Settings documents

A settings document is a list of lines. Each of them is empty, holds a comment after `#`, or assigns a
string to a key. Strings stand in single quotes, where every character is itself, or in double quotes,
where a backslash begins an escape; between tripled quotes they may span lines.
-/

namespace DdlModels.Settings

/-- The text with its line breaks as line feeds. A carriage return belongs to a line break. -/
def unifyBreaks : List Char → Option (List Char)
  | [] => some []
  | '\x0d' :: '\n' :: rest => (unifyBreaks rest).map ('\n' :: ·)
  | c :: rest => if c = '\x0d' then none else (unifyBreaks rest).map (c :: ·)

/-- Whether a character may stand in a document: control characters other than tabs and line breaks
may not. -/
def isAllowed (c : Char) : Bool := c = '\t' || c = '\n' || (0x20 ≤ c.toNat && c ≠ '\x7f')

def isSpace (c : Char) : Bool := c = ' ' || c = '\t'

def skipSpaces (text : List Char) : List Char := text.dropWhile isSpace

/-- The text after a rest of line that holds nothing but spaces and a comment. -/
def skipLineEnd (text : List Char) : Option (List Char) :=
  match skipSpaces text with
  | [] => some []
  | '\n' :: rest => some rest
  | '#' :: rest => some ((rest.dropWhile (· ≠ '\n')).drop 1)
  | _ => none

/-- What is special in a string, by its quotes. -/
structure Style where
  quote : Char
  /-- Whether a backslash begins an escape. -/
  escapes : Bool
  /-- Whether the string stands between tripled quotes. -/
  tripled : Bool

def hexValue? (c : Char) : Option Nat :=
  if '0' ≤ c && c ≤ '9' then some (c.toNat - '0'.toNat)
  else if 'a' ≤ c && c ≤ 'f' then some (c.toNat - 'a'.toNat + 10)
  else if 'A' ≤ c && c ≤ 'F' then some (c.toNat - 'A'.toNat + 10)
  else none

/-- The character with a code. Surrogates and numbers past the last code have none. -/
def ofCode? (code : Nat) : Option Char :=
  if code.isValidChar then some (Char.ofNat code) else none

/-- A character given by its code in exactly that many hexadecimal digits. -/
def readCode (digits : Nat) (text : List Char) : Option (Char × List Char) := do
  let values ← (text.take digits).mapM hexValue?
  if values.length < digits then none
  let c ← ofCode? (values.foldl (16 * · + ·) 0)
  return (c, text.drop digits)

/-- The character that an escape stands for, read after the backslash. -/
def readEscape : List Char → Option (Char × List Char)
  | 'b' :: rest => some ('\x08', rest)
  | 't' :: rest => some ('\t', rest)
  | 'n' :: rest => some ('\n', rest)
  | 'f' :: rest => some ('\x0c', rest)
  | 'r' :: rest => some ('\x0d', rest)
  | '\x22' :: rest => some ('\x22', rest)
  | '\\' :: rest => some ('\\', rest)
  | 'u' :: rest => readCode 4 rest
  | 'U' :: rest => readCode 8 rest
  | _ => none

/-- A piece of a string, and what follows it. -/
inductive Piece where
  | inside (content rest : List Char)
  | last (content rest : List Char)

/-- Reads what a backslash begins. One at the end of a line joins the next text to that line. -/
def readBackslash (style : Style) (rest : List Char) : Option Piece :=
  match style.tripled, skipSpaces rest with
  | true, '\n' :: next => some (.inside [] (next.dropWhile fun c => isSpace c || c = '\n'))
  | _, _ => (readEscape rest).map fun (c, rest) => .inside [c] rest

/-- Reads a run of quotes. Where quotes are tripled, up to two of them are content, which also holds
of quotes right before the closing ones. -/
def readQuotes (style : Style) (text : List Char) : Option Piece :=
  let count := (text.takeWhile (· = style.quote)).length
  if style.tripled then
    if count < 3 then some (.inside (text.take count) (text.drop count))
    else if count < 6 then some (.last (text.take (count - 3)) (text.drop count))
    else none
  else some (.last [] (text.drop 1))

def readPiece (style : Style) : List Char → Option Piece
  | [] => none
  | c :: rest =>
    if c = style.quote then readQuotes style (c :: rest)
    else if c = '\\' && style.escapes then readBackslash style rest
    else if c = '\n' && !style.tripled then none
    else some (.inside [c] rest)

/-- Reads the pieces of a string, at most that many. -/
def readPieces (style : Style) : Nat → List Char → Option (List Char × List Char)
  | 0, _ => none
  | count + 1, text =>
    match readPiece style text with
    | some (.inside content rest) =>
      (readPieces style count rest).map fun (more, rest) => (content ++ more, rest)
    | some (.last content rest) => some (content, rest)
    | none => none

/-- Reads a string after its opening quotes. Every piece takes a character. -/
def readContent (style : Style) (text : List Char) : Option (List Char × List Char) :=
  readPieces style text.length text

def skipFirstBreak : List Char → List Char
  | '\n' :: rest => rest
  | text => text

def readPlainString : List Char → Option (List Char × List Char)
  | '\x22' :: rest => readContent ⟨'\x22', true, false⟩ rest
  | '\x27' :: rest => readContent ⟨'\x27', false, false⟩ rest
  | _ => none

def readString : List Char → Option (List Char × List Char)
  | '\x22' :: '\x22' :: '\x22' :: rest => readContent ⟨'\x22', true, true⟩ (skipFirstBreak rest)
  | '\x27' :: '\x27' :: '\x27' :: rest => readContent ⟨'\x27', false, true⟩ (skipFirstBreak rest)
  | text => readPlainString text

def isKeyChar (c : Char) : Bool := c.isAlphanum || c = '_' || c = '-'

def readKey (text : List Char) : Option (List Char × List Char) :=
  match text.span isKeyChar with
  | ([], _) => readPlainString text
  | parts => some parts

/-- An assignment of a string to a key. -/
structure Assignment where
  key : String
  value : String
  deriving DecidableEq, Repr

/-- Reads an assignment with the rest of its last line. -/
def readAssignment (text : List Char) : Option (Assignment × List Char) := do
  let (key, rest) ← readKey text
  let '=' :: rest := skipSpaces rest | none
  let (value, rest) ← readString (skipSpaces rest)
  let rest ← skipLineEnd rest
  return (⟨String.ofList key, String.ofList value⟩, rest)

def readLines : Nat → List Char → Option (List Assignment)
  | _, [] => some []
  | 0, _ :: _ => none
  | count + 1, text =>
    match skipLineEnd text with
    | some rest => readLines count rest
    | none => do
      let (assignment, rest) ← readAssignment (skipSpaces text)
      return assignment :: (← readLines count rest)

/-- The text without the mark that a file may begin with. -/
def dropMark : List Char → List Char
  | '\ufeff' :: rest => rest
  | text => text

/-- The assignments of a document, in order. Every line takes a character. -/
def readDocument (source : String) : Option (List Assignment) := do
  let text ← unifyBreaks (dropMark source.toList)
  if text.all isAllowed then readLines text.length text else none

end DdlModels.Settings
