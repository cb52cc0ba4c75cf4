/-!
# JSON text

Values are written over several lines, two spaces for each level, and keep the order of their keys.
-/

namespace DdlModels.Text

/-- A JSON value without numbers, which nothing here needs. -/
inductive Json where
  | null
  | bool (value : Bool)
  | string (value : String)
  | array (items : List Json)
  | object (entries : List (String × Json))

namespace Json

def hexDigit (n : Nat) : Char :=
  if n < 10 then Char.ofNat (0x30 + n) else Char.ofNat (0x57 + n)

/-- A character inside a string: quotes, backslashes and control characters are escaped. -/
def escapeChar (c : Char) : List Char :=
  match c with
  | '\x22' => ['\\', '\x22']
  | '\\' => ['\\', '\\']
  | '\x08' => ['\\', 'b']
  | '\x0c' => ['\\', 'f']
  | '\n' => ['\\', 'n']
  | '\x0d' => ['\\', 'r']
  | '\t' => ['\\', 't']
  | _ =>
    if c.toNat < 0x20 then ['\\', 'u', '0', '0', hexDigit (c.toNat / 16), hexDigit (c.toNat % 16)]
    else [c]

def quote (text : String) : String :=
  "\x22" ++ String.ofList (text.toList.flatMap escapeChar) ++ "\x22"

def newLine : Nat → String
  | 0 => "\n"
  | depth + 1 => newLine depth ++ "  "

mutual
/-- The text of a value whose first line is already indented by `depth` levels. -/
def textAt (depth : Nat) : Json → String
  | null => "null"
  | bool true => "true"
  | bool false => "false"
  | string value => quote value
  | array [] => "[]"
  | array (item :: items) =>
    "[" ++ newLine (depth + 1) ++ textAt (depth + 1) item ++ itemsAt (depth + 1) items ++
      newLine depth ++ "]"
  | object [] => "\x7b\x7d"
  | object ((key, value) :: entries) =>
    "\x7b" ++ newLine (depth + 1) ++ quote key ++ ": " ++ textAt (depth + 1) value ++
      entriesAt (depth + 1) entries ++ newLine depth ++ "\x7d"
def itemsAt (depth : Nat) : List Json → String
  | [] => ""
  | item :: items => "," ++ newLine depth ++ textAt depth item ++ itemsAt depth items
def entriesAt (depth : Nat) : List (String × Json) → String
  | [] => ""
  | (key, value) :: entries =>
    "," ++ newLine depth ++ quote key ++ ": " ++ textAt depth value ++ entriesAt depth entries
end

def pretty (value : Json) : String := value.textAt 0

def ofOption (value : Option String) : Json :=
  match value with
  | some text => string text
  | none => null

end Json

end DdlModels.Text
