import DdlModels.Text.CharClass

/-!
# Quoted text

A delimiter inside a quoted text is written twice. Removing the quotes undoes this, for whichever of
the three delimiters encloses the text; any other text only loses the white space around it.
-/

namespace DdlModels.Text

/-- The delimiters of names and literals, in the order in which they are tried. -/
def delimiters : List Char := ['\x60', '\x22', '\x27']

def double (quote : Char) (text : List Char) : List Char :=
  text.flatMap fun c => if c = quote then [quote, quote] else [c]

/-- Replaces each pair of adjacent quotes by one, from left to right. -/
def undouble (quote : Char) : List Char → List Char
  | [] => []
  | [c] => [c]
  | c :: d :: rest =>
    if c = quote ∧ d = quote then quote :: undouble quote rest
    else c :: undouble quote (d :: rest)

/-- The text between an opening and a closing `quote`, if both are there. -/
def enclosed? (quote : Char) : List Char → Option (List Char)
  | [] => none
  | c :: rest =>
    if c = quote ∧ rest.getLast? = some quote then some rest.dropLast else none

def enquote (quote : Char) (text : List Char) : List Char :=
  quote :: double quote text ++ [quote]

/-- The text without the white space around it and without one pair of enclosing quotes. -/
def unquoteChars (raw : List Char) : List Char :=
  let text := trim raw
  match delimiters.findSome? fun quote => (enclosed? quote text).map (undouble quote) with
  | some inner => inner
  | none => text

def unquote (raw : String) : String := String.ofList (unquoteChars raw.toList)

def trimmed (raw : String) : String := String.ofList (trim raw.toList)

theorem undouble_cons_of_ne {quote c : Char} (h : c ≠ quote) (text : List Char) :
    undouble quote (c :: text) = c :: undouble quote text := by
  cases text <;> simp [undouble, h]

theorem undouble_double (quote : Char) (text : List Char) :
    undouble quote (double quote text) = text := by
  induction text with
  | nil => rfl
  | cons c text ih =>
    by_cases h : c = quote
    · simpa [double, h, undouble] using ih
    · simpa [double, h, undouble_cons_of_ne] using ih

end DdlModels.Text
