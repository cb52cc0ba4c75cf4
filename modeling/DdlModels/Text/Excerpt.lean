import DdlModels.Text.CharClass

/-!
# Excerpts and byte offsets

Messages quote the beginning of a text, and name places in it by byte offset.
-/

namespace DdlModels.Text

/-- The longest excerpt, in characters. -/
def excerptLength : Nat := 32

/-- The first line, without its line feed and without a carriage return directly before that. -/
def firstLine : List Char → List Char
  | [] => []
  | '\n' :: _ => []
  | '\r' :: '\n' :: _ => []
  | c :: rest => c :: firstLine rest

/-- The first line after leading white space, shortened for messages. -/
def excerpt (text : List Char) : String :=
  String.ofList ((firstLine (trimStart text)).take excerptLength)

def byteSize : List Char → Nat
  | [] => 0
  | c :: rest => c.utf8Size + byteSize rest

theorem byteSize_append (a b : List Char) : byteSize (a ++ b) = byteSize a + byteSize b := by
  induction a with
  | nil => simp [byteSize]
  | cons c a ih => simp [byteSize, ih, Nat.add_assoc]

/-- Splits a text after the characters that fill its first `count` bytes, if it has so many. -/
def splitBytes? : Nat → List Char → Option (List Char × List Char)
  | 0, text => some ([], text)
  | _ + 1, [] => none
  | count + 1, c :: rest =>
    match splitBytes? (count + 1 - c.utf8Size) rest with
    | some (taken, left) => some (c :: taken, left)
    | none => none

theorem splitBytes?_append {count : Nat} {text taken rest : List Char}
    (h : splitBytes? count text = some (taken, rest)) : text = taken ++ rest := by
  induction text generalizing count taken with
  | nil =>
    cases count with
    | zero => simp_all [splitBytes?]
    | succ count => simp [splitBytes?] at h
  | cons c text ih =>
    cases count with
    | zero => simp_all [splitBytes?]
    | succ count =>
      rw [splitBytes?] at h
      split at h
      case h_1 inner left found =>
        obtain ⟨rfl, rfl⟩ := Prod.mk.inj (Option.some.inj h)
        rw [List.cons_append, ← ih found]
      case h_2 => contradiction

theorem ne_nil_of_splitBytes? {count : Nat} {text taken rest : List Char}
    (h : splitBytes? count text = some (taken, rest)) (positive : 0 < count) : taken ≠ [] := by
  fun_cases splitBytes? count text <;> simp_all [splitBytes?]
  rintro rfl
  simp at h

end DdlModels.Text
