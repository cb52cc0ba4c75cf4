import DdlModels.Proofs.Closing
import DdlModels.Proofs.ColumnEnds
import DdlModels.Proofs.Quoting

/-!
# Identifiers

An identifier is a bare word or stands in quotes, where a quote of its own is written twice. It is read
whole wherever no word and no quote goes on after it, and removing the quotes gives the name that is meant.
-/

namespace DdlModels.Sql

open Text Grammar

/-- An identifier as it is written. -/
inductive Identifier where
  /-- Between backquotes or double quotes, piece by piece. -/
  | quoted (quote : Char) (pieces : List (List Char)) (quotes : quote ∈ ['\x60', '\x22'])
      (inside : ∀ piece ∈ pieces, IsInside quote piece)
  /-- A bare word. -/
  | word (text : List Char) (nonempty : text ≠ []) (chars : ∀ c ∈ text, isWordChar c)

/-- A piece of a text in quotes, with a doubled quote as a single one. -/
def collapsed (quote : Char) (piece : List Char) : List Char :=
  if piece = [quote, quote] then [quote] else piece

namespace Identifier

def written : Identifier → List Char
  | quoted quote pieces .. => quote :: (pieces.flatten ++ [quote])
  | word text .. => text

def name : Identifier → List Char
  | quoted quote pieces .. => pieces.flatMap (collapsed quote)
  | word text .. => text

end Identifier

variable {quote : Char} {pieces : List (List Char)} {text rest : List Char}

theorem undouble_cons_pair {c : Char} (h : c ≠ quote) (text : List Char) :
    undouble quote (quote :: c :: text) = quote :: c :: undouble quote text := by
  rw [undouble, if_neg (fun both => h both.2), undouble_cons_of_ne h]

/-- Quotes are undoubled piece by piece, also after a quote that a backslash hides. -/
theorem undouble_flatten (inside : ∀ piece ∈ pieces, IsInside quote piece) (plain : quote ≠ '\\') :
    undouble quote pieces.flatten = pieces.flatMap (collapsed quote) ∧
      undouble quote (quote :: pieces.flatten) = quote :: pieces.flatMap (collapsed quote) := by
  induction pieces with
  | nil => exact ⟨rfl, rfl⟩
  | cons piece pieces ih =>
    obtain ⟨alone, after⟩ := ih fun other hother => inside other (List.mem_cons_of_mem piece hother)
    have backslash : '\\' ≠ quote := plain.symm
    rw [List.flatten_cons, List.flatMap_cons]
    cases inside piece List.mem_cons_self with
    | @plain c other bare =>
      have same : collapsed quote [c] = [c] := by simp [collapsed]
      rw [same, List.singleton_append, undouble_cons_of_ne other, undouble_cons_pair other, alone]
      exact ⟨rfl, rfl⟩
    | hidden c hides =>
      have same : collapsed quote ['\\', c] = ['\\', c] := by simp [collapsed, backslash]
      have inner : undouble quote (c :: pieces.flatten) = c :: pieces.flatMap (collapsed quote) := by
        by_cases hc : c = quote
        · rw [hc, after]
        · rw [undouble_cons_of_ne hc, alone]
      rw [same, List.cons_append, List.cons_append, List.nil_append, undouble_cons_of_ne backslash,
        undouble_cons_pair backslash, inner]
      exact ⟨rfl, rfl⟩
    | doubled =>
      have same : collapsed quote [quote, quote] = [quote] := by simp [collapsed]
      have pair (text : List Char) : undouble quote (quote :: quote :: text) = quote :: undouble quote text := by
        simp [undouble]
      rw [same, List.cons_append, List.cons_append, List.nil_append, pair, pair, alone, after]
      exact ⟨rfl, rfl⟩

theorem unquoteChars_quoted (h : quote ∈ delimiters) (inner : List Char) :
    unquoteChars (quote :: (inner ++ [quote])) = undouble quote inner := by
  have blank := isBlank_of_delimiter h
  have trimmed : trim (quote :: (inner ++ [quote])) = quote :: (inner ++ [quote]) := by
    refine trim_eq_self ?_ ?_
    · rintro c ⟨⟩
      exact blank
    · intro c hc
      rw [← List.cons_append, List.getLast?_concat] at hc
      obtain rfl := Option.some.inj hc
      exact blank
  have stripped (other : Char) : (enclosed? other (quote :: (inner ++ [quote]))).map (undouble other) =
      if other = quote then some (undouble quote inner) else none := by
    by_cases same : other = quote
    · subst same
      simp [enclosed?]
    · simp [enclosed?, same, Ne.symm same]
  simp only [unquoteChars, trimmed, stripped]
  simp only [delimiters, List.mem_cons, List.not_mem_nil, or_false] at h
  rcases h with rfl | rfl | rfl <;> rfl

theorem isWordChar_of_isBlank {c : Char} (h : isBlank c) : isWordChar c = false :=
  forall_blank (P := fun c => isWordChar c = false) (by decide +kernel) h

theorem unquoteChars_word (chars : ∀ c ∈ text, isWordChar c) : unquoteChars text = text := by
  have visible : ∀ c ∈ text, isBlank c = false := by
    intro c hc
    by_contra blank
    have other := isWordChar_of_isBlank (by simpa using blank)
    rw [chars c hc] at other
    contradiction
  have bare : ∀ quote ∈ delimiters, enclosed? quote text = none := by
    intro quote hquote
    have mark : isWordChar quote = false := by
      have all : ∀ quote ∈ delimiters, isWordChar quote = false := forall_among (by decide)
      exact all quote hquote
    cases text with
    | nil => rfl
    | cons c text =>
      have other : c ≠ quote := by
        rintro rfl
        rw [chars c List.mem_cons_self] at mark
        contradiction
      simp [enclosed?, other]
  have none : (delimiters.findSome? fun quote => (enclosed? quote text).map (undouble quote)) = none := by
    rw [List.findSome?_eq_none_iff]
    intro quote hquote
    rw [bare quote hquote]
    rfl
  rw [unquoteChars, trim_eq_self_of_all visible, none]

namespace Identifier

variable (identifier : Identifier)

theorem unquoteChars_written : unquoteChars identifier.written = identifier.name := by
  cases identifier with
  | quoted quote pieces quotes inside =>
    have both : ∀ quote ∈ ['\x60', '\x22'], quote ∈ delimiters ∧ quote ≠ '\\' := forall_among (by decide)
    rw [written, unquoteChars_quoted (both quote quotes).1, (undouble_flatten inside (both quote quotes).2).1]
    rfl
  | word text nonempty chars => exact unquoteChars_word chars

theorem mem_collapsed {c : Char} (quote : Char) (piece : List Char) : c ∈ collapsed quote piece ↔ c ∈ piece := by
  rw [collapsed]
  split
  case isTrue pair => simp [pair]
  case isFalse => rfl

theorem mem_name_iff {c : Char} (h : c ∉ ['\x60', '\x22']) : c ∈ identifier.name ↔ c ∈ identifier.written := by
  cases identifier with
  | quoted quote pieces quotes inside =>
    have other : c ≠ quote := by
      rintro rfl
      exact h quotes
    simp [name, written, mem_collapsed, other]
  | word => rfl

/-- Neither a word nor a text in quotes goes on here. -/
def Stops (rest : List Char) : Prop := ∀ c ∈ rest.head?, isWordChar c = false ∧ c ∉ ['\x60', '\x22']

theorem word_reads (chars : ∀ c ∈ text, isWordChar c) (nonempty : text ≠ []) (stops : Stops rest) :
    Grammar.word.Reads (text ++ rest) [] rest :=
  ⟨text, readRun_until nonempty chars fun c hc => (stops c hc).1⟩

theorem quoted_inside_reads (quotes : quote ∈ ['\x60', '\x22']) (inside : ∀ piece ∈ pieces, IsInside quote piece)
    (stops : Stops rest) : (Grammar.quoted quote).Reads (quote :: (pieces.flatten ++ quote :: rest)) [] rest := by
  have plain : ∀ quote ∈ ['\x60', '\x22'], quote ≠ '\\' := forall_among (by decide)
  have apart : rest.head? ≠ some quote := fun same => (stops quote same).2 quotes
  exact quoted_reads (ClosesBefore.readToClose (plain quote quotes) ⟨apart, pieces, inside, rfl⟩)

theorem reads (stops : Stops rest) : Grammar.identifier.Reads (identifier.written ++ rest) [] rest := by
  cases identifier with
  | quoted quote pieces quotes inside =>
    have whole : (quoted quote pieces quotes inside).written ++ rest =
        quote :: (pieces.flatten ++ quote :: rest) := by simp [written]
    have read := quoted_inside_reads quotes inside stops
    rw [whole]
    simp only [List.mem_cons, List.not_mem_nil, or_false] at quotes
    rcases quotes with rfl | rfl
    · exact read.orElse
    · exact (quoted_misses_of_ne (by decide) _).orElse read.orElse
  | word text nonempty chars =>
    obtain ⟨c, more, rfl⟩ := List.exists_cons_of_ne_nil nonempty
    have bare {quote : Char} (mark : isWordChar quote = false) :
        (Grammar.quoted quote).Misses (c :: more ++ rest) := by
      refine quoted_misses_of_ne ?_ _
      rintro rfl
      rw [chars c List.mem_cons_self] at mark
      contradiction
    exact (bare (by decide)).orElse ((bare (by decide)).orElse (word_reads chars nonempty stops))

theorem written_head (rest : List Char) :
    ∃ c more, identifier.written ++ rest = c :: more ∧ (isWordChar c ∨ c ∈ ['\x60', '\x22']) := by
  cases identifier with
  | quoted quote pieces quotes inside => exact ⟨quote, _, rfl, .inr quotes⟩
  | word text nonempty chars =>
    obtain ⟨c, more, rfl⟩ := List.exists_cons_of_ne_nil nonempty
    exact ⟨c, more ++ rest, rfl, .inl (chars c List.mem_cons_self)⟩

theorem head_ne {c d : Char} (start : isWordChar c ∨ c ∈ ['\x60', '\x22'])
    (other : isWordChar d = false ∧ d ∉ ['\x60', '\x22']) : c ≠ d := by
  rintro rfl
  rcases start with word | quote
  · rw [other.1] at word
    cases word
  · exact other.2 quote

theorem symbol_misses {d : Char} (other : isWordChar d = false ∧ d ∉ ['\x60', '\x22']) (rest : List Char) :
    (symbol d).Misses (identifier.written ++ rest) := by
  obtain ⟨c, more, whole, start⟩ := identifier.written_head rest
  rw [whole]
  exact Sql.symbol_misses (head_ne start other) more

theorem blank_misses (rest : List Char) : blank.Misses (identifier.written ++ rest) := by
  have all : ∀ mark ∈ blankStarts, isWordChar mark = false ∧ mark ∉ ['\x60', '\x22'] := forall_among (by decide)
  obtain ⟨c, more, whole, start⟩ := identifier.written_head rest
  rw [whole]
  exact Sql.blank_misses (fun mark => head_ne start (all c mark) rfl) more

end Identifier

end DdlModels.Sql
