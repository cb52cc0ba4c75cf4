import DdlModels.Proofs.Quoting

/-!
# Quotes in drafts

A name or a comment that is given in quotes loses them, and the white space around them, and nothing else. One that
is not given in quotes is only trimmed.
-/

namespace DdlModels

namespace Text

variable {front back text : List Char} {quote : Char}

theorem trimEnd_append (hback : ∀ c ∈ back, isBlank c) (text : List Char) : trimEnd (text ++ back) = trimEnd text := by
  have blank : ∀ c ∈ back.reverse, isBlank c := fun c hc => hback c (List.mem_reverse.mp hc)
  rw [trimEnd, trimEnd, List.reverse_append, List.dropWhile_append_of_pos blank]

theorem trim_surrounded (hfront : ∀ c ∈ front, isBlank c) (hback : ∀ c ∈ back, isBlank c) (text : List Char) :
    trim (front ++ (text ++ back)) = trim text := by
  rw [trim, trim, trimStart, trimStart, List.dropWhile_append_of_pos hfront, List.dropWhile_append]
  split
  case isFalse => exact trimEnd_append hback _
  case isTrue empty =>
    have none : back.dropWhile isBlank = [] := List.dropWhile_eq_nil_iff.mpr hback
    rw [none, List.isEmpty_iff.mp empty]

theorem unquoteChars_congr {raw other : List Char} (h : trim raw = trim other) :
    unquoteChars raw = unquoteChars other := by
  rw [unquoteChars, unquoteChars, h]

/-- A text in quotes is a text again, whatever white space is around the quotes. -/
theorem unquote_surrounded (hfront : ∀ c ∈ front, isBlank c) (hback : ∀ c ∈ back, isBlank c) (h : quote ∈ delimiters)
    (text : String) : unquote (String.ofList (front ++ (enquote quote text.toList ++ back))) = text := by
  have inner := unquoteChars_congr (trim_surrounded hfront hback (enquote quote text.toList))
  rw [unquote, String.toList_ofList, inner, unquoteChars_enquote h, String.ofList_toList]

theorem enclosed?_isSome_iff :
    (enclosed? quote text).isSome ↔ 2 ≤ text.length ∧ text.head? = some quote ∧ text.getLast? = some quote := by
  cases text with
  | nil => simp [enclosed?]
  | cons c rest =>
    cases rest with
    | nil => simp [enclosed?]
    | cons d rest => simp [enclosed?]

theorem unquote_of_not_enclosed {raw : String} (bare : ∀ quote ∈ delimiters, enclosed? quote (trim raw.toList) = none) :
    unquote raw = trimmed raw := by
  have none : (delimiters.findSome? fun quote => (enclosed? quote (trim raw.toList)).map (undouble quote)) = none := by
    refine List.findSome?_eq_none_iff.mpr fun quote hquote => ?_
    rw [bare quote hquote]
    rfl
  simp only [unquote, unquoteChars, none]
  rfl

end Text

open Text

/-- In this draft `raw` stands for `text`: a column that is entered by it has the name, and a comment that is set by it
is the text, or none if that is empty. -/
def Draft.ReadsAs (draft : Draft) (raw text : String) : Prop :=
  (draft.openTable.isSome → draft.openColumn = none →
    draft.perform (.enterColumn raw) = { draft := { draft with openColumn := some { name := text } } }) ∧
  ∀ column, draft.openColumn = some column →
    draft.perform (.setComment raw) =
      { draft := { draft with
          openColumn := some { column with comment := if text = "" then none else some text } } }

theorem Draft.readsAs_of_unquote {raw text : String} (h : unquote raw = text) (draft : Draft) :
    draft.ReadsAs raw text := by
  subst h
  constructor
  · intro inTable outside
    obtain ⟨table, found⟩ := Option.isSome_iff_exists.mp inTable
    simp only [perform, enterColumn, outside, found]
  · intro column inside
    simp only [perform, setAttribute, inside, nonempty?, String.isEmpty_iff]

/-- Names and comments lose the quotes around them, and only these: a text in which a delimiter is doubled, between two
of them, stands for the text, and anything without a pair of delimiters around it stands for itself. -/
theorem Draft.quoted_reads_as_text (draft : Draft) :
    (∀ quote ∈ delimiters, ∀ (text : String) (front back : List Char),
      (∀ c ∈ front, isBlank c) → (∀ c ∈ back, isBlank c) →
      draft.ReadsAs (String.ofList (front ++ (enquote quote text.toList ++ back))) text) ∧
    ∀ raw : String,
      ((trimmed raw).length < 2 ∨
        ∀ quote ∈ delimiters, ¬ ((trimmed raw).toList.head? = some quote ∧ (trimmed raw).toList.getLast? = some quote)) →
      draft.ReadsAs raw (trimmed raw) := by
  constructor
  · intro quote hquote text front back hfront hback
    exact draft.readsAs_of_unquote (unquote_surrounded hfront hback hquote text)
  · intro raw bare
    refine draft.readsAs_of_unquote (unquote_of_not_enclosed fun quote hquote => ?_)
    rw [← Option.not_isSome_iff_eq_none, enclosed?_isSome_iff]
    rintro ⟨long, first, last⟩
    rw [trimmed, String.length_ofList, String.toList_ofList] at bare
    rcases bare with short | bare
    · omega
    · exact bare quote hquote ⟨first, last⟩

/-- Quotes at the ends of a name are doubled between the quotes around it, and other quotes are left alone; a name with
a single quote mark keeps it. -/
theorem quotes_inside_names_are_kept :
    ({ openTable := some { name := "t" } } : Draft).perform (.enterColumn " \x60\x60\x60it's \x22\x5c.\x22\x60\x60\x60\n") =
      { draft := { openTable := some { name := "t" }, openColumn := some { name := "\x60it's \x22\x5c.\x22\x60" } } } ∧
    ({ openTable := some { name := "t" }, openColumn := some { name := "a", comment := some "x" } } : Draft).perform
      (.setComment " ''") =
        { draft := { openTable := some { name := "t" }, openColumn := some { name := "a" } } } ∧
    ({ openTable := some { name := "t" } } : Draft).perform (.enterColumn "\x60a\x22 ") =
      { draft := { openTable := some { name := "t" }, openColumn := some { name := "\x60a\x22" } } } := by
  obtain ⟨quoted, bare⟩ := Draft.quoted_reads_as_text { openTable := some { name := "t" } }
  obtain ⟨quotedComment, -⟩ := Draft.quoted_reads_as_text
    { openTable := some { name := "t" }, openColumn := some { name := "a", comment := some "x" } }
  refine ⟨?_, ?_, ?_⟩
  · exact (quoted '\x60' (by decide) "\x60it's \x22\x5c.\x22\x60" [' '] ['\n']
      (forall_among (by decide)) (forall_among (by decide))).1 rfl rfl
  · exact (quotedComment '\x27' (by decide) "" [' '] []
      (forall_among (by decide)) (forall_among (by decide))).2 _ rfl
  · exact (bare "\x60a\x22 " (.inr (forall_among (by decide)))).1 rfl rfl

end DdlModels
