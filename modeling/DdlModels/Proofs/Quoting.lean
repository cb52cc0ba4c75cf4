import DdlModels.Draft.Basic
import DdlModels.Proofs.Longer
import DdlModels.Proofs.Words

/-!
# Quoting and its removal

A text that is put in quotes is read back whole, and removing the quotes gives the text. Trimming leaves
a text alone that neither begins nor ends with white space, and types are classified by the keyword that
they spell.
-/

namespace DdlModels.Text

theorem trim_eq_self {text : List Char} (head : ∀ c ∈ text.head?, isBlank c = false)
    (last : ∀ c ∈ text.getLast?, isBlank c = false) : trim text = text := by
  have start : trimStart text = text := by
    cases text with
    | nil => rfl
    | cons c text => simp [trimStart, head c rfl]
  have stop : trimEnd text = text := by
    have reversed : text.reverse.dropWhile isBlank = text.reverse := by
      cases h : text.reverse with
      | nil => rfl
      | cons c more =>
        have hc : c ∈ text.getLast? := by
          rw [← List.head?_reverse, h]
          rfl
        simp [last c hc]
    rw [trimEnd, reversed, List.reverse_reverse]
  rw [trim, start, stop]

theorem trim_eq_self_of_all {text : List Char} (h : ∀ c ∈ text, isBlank c = false) :
    trim text = text :=
  trim_eq_self (fun c hc => h c (List.mem_of_mem_head? hc)) fun c hc =>
    h c (List.mem_of_mem_getLast? hc)

variable {quote : Char}

theorem enquote_head? (quote : Char) (text : List Char) : (enquote quote text).head? = some quote := rfl

theorem enquote_getLast? (quote : Char) (text : List Char) :
    (enquote quote text).getLast? = some quote := by
  rw [enquote, List.getLast?_concat]

theorem isBlank_of_delimiter (h : quote ∈ delimiters) : isBlank quote = false := by
  have all : ∀ quote ∈ delimiters, isBlank quote = false := forall_among (by decide)
  exact all quote h

theorem enclosed?_enquote (quote : Char) (text : List Char) :
    enclosed? quote (enquote quote text) = some (double quote text) := by
  simp [enquote, enclosed?]

theorem enclosed?_enquote_ne {other : Char} (h : quote ≠ other) (text : List Char) :
    enclosed? other (enquote quote text) = none := by
  simp [enquote, enclosed?, h]

theorem unquoteChars_enquote (h : quote ∈ delimiters) (text : List Char) :
    unquoteChars (enquote quote text) = text := by
  have blank := isBlank_of_delimiter h
  have trimmed : trim (enquote quote text) = enquote quote text := by
    refine trim_eq_self ?_ ?_
    · intro c hc
      rw [enquote_head?] at hc
      obtain rfl := Option.some.inj hc
      exact blank
    · intro c hc
      rw [enquote_getLast?] at hc
      obtain rfl := Option.some.inj hc
      exact blank
  have inner (other : Char) : (enclosed? other (enquote quote text)).map (undouble other) =
      if other = quote then some text else none := by
    by_cases same : other = quote
    · subst same
      rw [enclosed?_enquote, if_pos rfl, Option.map_some, undouble_double]
    · rw [enclosed?_enquote_ne (Ne.symm same), if_neg same]
      rfl
  simp only [unquoteChars, trimmed, inner]
  simp only [delimiters, List.mem_cons, List.not_mem_nil, or_false] at h
  rcases h with rfl | rfl | rfl <;> rfl

theorem unquote_enquote (h : quote ∈ delimiters) (text : String) :
    unquote (String.ofList (enquote quote text.toList)) = text := by
  rw [unquote, String.toList_ofList, unquoteChars_enquote h, String.ofList_toList]

theorem mem_double {c : Char} {text : List Char} (h : c ∈ double quote text) : c ∈ text ∨ c = quote := by
  obtain ⟨d, hd, hc⟩ := List.mem_flatMap.mp h
  split at hc
  case isTrue => exact .inr (by simpa using hc)
  case isFalse => exact .inl (by rwa [List.mem_singleton.mp hc])

theorem lowercase_of_spells {name : String} {word : List Char} (chars : name.toList.all isKeywordChar)
    (h : Spells name word) : lowercase word = lowercase name.toList := by
  have step : ∀ (before other word : List Char), (∀ c ∈ word, isKeywordChar c.toUpper) →
      lowerAfter before word = lowerAfter other (word.map Char.toUpper) := by
    intro before other word
    induction word generalizing before other with
    | nil => intro _; rfl
    | cons c word ih =>
      intro h
      have hc := h c List.mem_cons_self
      have upper : c.toUpper.toNat < 128 := keywordChar_ascii hc
      have lower : c.toNat < 128 := toUpper_toNat_lt upper
      have foreign (d : Char) (hd : d.toNat < 128) : d ≠ 'Σ' ∧ d ≠ 'İ' := by
        constructor
        · rintro rfl
          exact absurd hd (by decide)
        · rintro rfl
          exact absurd hd (by decide)
      have same : lowerChar c = lowerChar c.toUpper := (lowerChar_eq_iff_toUpper_eq hc hc).mpr rfl
      rw [List.map_cons, lowerAfter, lowerAfter,
        ih (c :: before) (c.toUpper :: other) fun d hd => h d (List.mem_cons_of_mem c hd)]
      simp only [lowerBetween, (foreign c lower).1, (foreign c lower).2, (foreign _ upper).1,
        (foreign _ upper).2, if_false, same]
  rw [lowercase, step [] [] word (h.keywordChars chars), show word.map Char.toUpper = name.toList from h]
  rfl

theorem isBlank_of_spelled {c : Char} (h : isKeywordChar c.toUpper) : isBlank c = false := by
  have all : isKeywordChar c.toUpper → isBlank c = false :=
    forall_ascii (P := fun c => isKeywordChar c.toUpper → isBlank c = false) (by decide)
      (toUpper_toNat_lt (keywordChar_ascii h))
  exact all h

end DdlModels.Text

namespace DdlModels

open Text

theorem tableName_enquote {name : String} (undotted : '.' ∉ name.toList) :
    tableName (String.ofList (enquote '\x60' name.toList)) = name := by
  have plain : ∀ c ∈ (enquote '\x60' name.toList).reverse, (c != '.') = true := by
    intro c hc
    simp only [List.mem_reverse, enquote, List.mem_cons, List.mem_append, List.not_mem_nil, or_false] at hc
    simp only [bne_iff_ne]
    rintro rfl
    rcases hc with (hc | hc) | hc
    · contradiction
    · rcases mem_double hc with hc | hc
      · exact undotted hc
      · contradiction
    · contradiction
  have whole : (enquote '\x60' name.toList).reverse.takeWhile (· != '.') =
      (enquote '\x60' name.toList).reverse :=
    List.takeWhile_eq_self_iff.mpr plain
  rw [tableName, String.toList_ofList, whole, List.reverse_reverse, unquoteChars_enquote (by decide),
    String.ofList_toList]

theorem RuleChain.classify_of_spells (chain : RuleChain) {name : String} {word : List Char}
    (chars : name.toList.all isKeywordChar) (h : Spells name word) :
    chain.classify (String.ofList word) = chain.classify name := by
  have visible : ∀ c ∈ word, isBlank c = false :=
    fun c hc => isBlank_of_spelled (h.keywordChars chars c hc)
  have named : ∀ c ∈ name.toList, isBlank c = false := by
    intro c hc
    have upper : isKeywordChar c := List.all_eq_true.mp chars c hc
    have all : isKeywordChar c → isBlank c = false :=
      forall_ascii (P := fun c => isKeywordChar c → isBlank c = false) (by decide)
        (keywordChar_ascii upper)
    exact all upper
  rw [classify, classify, String.toList_ofList, trim_eq_self_of_all visible, trim_eq_self_of_all named,
    lowercase_of_spells chars h]

namespace Sql

/-- A text in quotes is read up to its closing quote. -/
theorem readToClose_double {quote : Char} (plain : quote ≠ '\\') {text : List Char}
    (unescaped : quote = '\x60' ∨ '\\' ∉ text) {rest : List Char} (apart : rest.head? ≠ some quote) :
    readToClose quote (double quote text ++ quote :: rest) =
      .ok [] (double quote text ++ [quote]) rest := by
  have escape {c : Char} (hc : quote = '\x60' ∨ c ≠ '\\') : (escapes quote && c == '\\') = false := by
    rcases hc with rfl | hc
    · rfl
    · simp [hc]
  induction text with
  | nil =>
    cases rest with
    | nil => simp [double, readToClose]
    | cons d rest =>
      have other : d ≠ quote := by
        rintro rfl
        exact apart rfl
      simp [double, readToClose, plain, other]
  | cons c text ih =>
    have tail := ih (unescaped.imp_right fun h => fun mem => h (List.mem_cons_of_mem c mem))
    by_cases same : c = quote
    · subst same
      have step : double c (c :: text) = c :: c :: double c text := by simp [double]
      rw [step, List.cons_append, List.cons_append, readToClose, if_pos (by simp), tail]
      rfl
    · have step : double quote (c :: text) = c :: double quote text := by simp [double, same]
      have hc := escape (c := c) (unescaped.imp_right fun h => by
        rintro rfl
        exact h List.mem_cons_self)
      obtain ⟨d, more, hmore⟩ := List.exists_cons_of_ne_nil
        (show double quote text ++ quote :: rest ≠ [] by simp)
      have differs : (c == quote) = false := by simpa using same
      rw [hmore] at tail
      rw [step, List.cons_append, hmore, readToClose, hc, differs]
      simp only [Bool.false_and, Bool.or_self, Bool.false_eq_true, if_false, tail]
      rfl

theorem readQuoted_enquote {quote : Char} (plain : quote ≠ '\\') {text : List Char}
    (unescaped : quote = '\x60' ∨ '\\' ∉ text) {rest : List Char} (apart : rest.head? ≠ some quote) :
    (Grammar.quoted quote).Reads (enquote quote text ++ rest) [] rest := by
  have closed := readToClose_double plain unescaped apart
  have shape : enquote quote text ++ rest = quote :: (double quote text ++ quote :: rest) := by
    simp [enquote]
  rw [shape]
  exact Grammar.quoted_reads (by rw [closed]; rfl)

end Sql

end DdlModels
