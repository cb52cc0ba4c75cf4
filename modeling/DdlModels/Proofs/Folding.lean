import DdlModels.Proofs.Words
import DdlModels.Text.LetterCase
import DdlModels.Text.Quoted

/-!
# Texts up to letter case

Folding makes the ASCII letters of a text small. No class of characters that reading looks at tells a letter from
its folded form, so that a text can be trimmed, cut and freed of its quotes before it is folded as well as after.
-/

namespace DdlModels.Text

def fold (text : List Char) : List Char := text.map Char.toLower

def folded (text : String) : String := String.ofList (fold text.toList)

theorem toLower_of_not_isUpper {c : Char} (h : ¬c.isUpper) : c.toLower = c := by
  refine dif_neg ?_
  intro between
  exact h (isUpper_iff.mpr between)

/-- What does not tell the 26 capitals from their folded forms tells no character from its folded form. -/
theorem toLower_blind {α : Type} {f : Char → α}
    (h : ∀ n < 26, f (Char.ofNat (65 + n)).toLower = f (Char.ofNat (65 + n))) (c : Char) : f c.toLower = f c := by
  by_cases upper : c.isUpper
  · have bounds := isUpper_iff.mp upper
    have capital := h (c.toNat - 65) (by omega)
    rwa [Nat.add_sub_cancel' bounds.1, Char.ofNat_toNat] at capital
  · rw [toLower_of_not_isUpper upper]

theorem isWordChar_toLower (c : Char) : isWordChar c.toLower = isWordChar c := toLower_blind (by decide) c

theorem isBlank_toLower (c : Char) : isBlank c.toLower = isBlank c := toLower_blind (by decide) c

theorem lowerChar_toLower (c : Char) : lowerChar c.toLower = lowerChar c := toLower_blind (by decide) c

theorem toUpper_toLower (c : Char) : c.toLower.toUpper = c.toUpper := toLower_blind (by decide) c

theorem utf8Size_toLower (c : Char) : c.toLower.utf8Size = c.utf8Size := toLower_blind (by decide) c

theorem toLower_toLower (c : Char) : c.toLower.toLower = c.toLower := toLower_blind (by decide) c

theorem letters_of_isUpper {c : Char} (upper : c.isUpper) : c.toLower.isAlpha ∧ c.isAlpha := by
  have both : c.isUpper → c.toLower.isAlpha ∧ c.isAlpha :=
    forall_ascii (P := fun c => c.isUpper → c.toLower.isAlpha ∧ c.isAlpha) (by decide) (ascii_of_isUpper upper)
  exact both upper

theorem toLower_beq {mark : Char} (h : mark.isAlpha = false) (c : Char) : (c.toLower == mark) = (c == mark) := by
  by_cases upper : c.isUpper
  · have apart {d : Char} (letter : d.isAlpha) : (d == mark) = false := by
      rw [beq_eq_false_iff_ne]
      rintro rfl
      simp [h] at letter
    have letters := letters_of_isUpper upper
    rw [apart letters.1, apart letters.2]
  · rw [toLower_of_not_isUpper upper]

theorem toLower_eq_iff {mark : Char} (h : mark.isAlpha = false) (c : Char) : c.toLower = mark ↔ c = mark := by
  rw [← beq_iff_eq, toLower_beq h, beq_iff_eq]

variable {member : Char → Bool} {text : List Char}

theorem fold_cons (c : Char) (text : List Char) : fold (c :: text) = c.toLower :: fold text := rfl

theorem fold_append (first second : List Char) : fold (first ++ second) = fold first ++ fold second :=
  List.map_append

theorem length_fold (text : List Char) : (fold text).length = text.length := List.length_map _

theorem fold_eq_nil : fold text = [] ↔ text = [] := List.map_eq_nil_iff

theorem folded_folded (text : String) : folded (folded text) = folded text := by
  have twice : fold (fold text.toList) = fold text.toList := by
    rw [fold, fold, List.map_map]
    exact List.map_congr_left fun c _ => toLower_toLower c
  rw [folded, folded, String.toList_ofList, twice]

theorem map_toUpper_fold (text : List Char) : (fold text).map Char.toUpper = text.map Char.toUpper := by
  rw [fold, List.map_map]
  exact List.map_congr_left fun c _ => toUpper_toLower c

theorem takeWhile_fold (blind : ∀ c : Char, member c.toLower = member c) (text : List Char) :
    (fold text).takeWhile member = fold (text.takeWhile member) := by
  rw [fold, List.takeWhile_map]
  exact congrArg (fun member => fold (text.takeWhile member)) (funext blind)

theorem dropWhile_fold (blind : ∀ c : Char, member c.toLower = member c) (text : List Char) :
    (fold text).dropWhile member = fold (text.dropWhile member) := by
  rw [fold, List.dropWhile_map]
  exact congrArg (fun member => fold (text.dropWhile member)) (funext blind)

theorem trimStart_fold (text : List Char) : trimStart (fold text) = fold (trimStart text) :=
  dropWhile_fold isBlank_toLower text

theorem reverse_fold (text : List Char) : (fold text).reverse = fold text.reverse := List.map_reverse.symm

theorem trim_fold (text : List Char) : trim (fold text) = fold (trim text) := by
  rw [trim, trimStart_fold, trimEnd, reverse_fold, dropWhile_fold isBlank_toLower, reverse_fold]
  rfl

theorem byteSize_fold (text : List Char) : byteSize (fold text) = byteSize text := by
  induction text with
  | nil => rfl
  | cons c text ih => rw [fold_cons, byteSize, byteSize, utf8Size_toLower, ih]

theorem splitBytes?_fold (count : Nat) (text : List Char) :
    splitBytes? count (fold text) = (splitBytes? count text).map (Prod.map fold fold) := by
  induction text generalizing count with
  | nil => cases count <;> rfl
  | cons c text ih =>
    cases count with
    | zero => rfl
    | succ count =>
      rw [fold_cons, splitBytes?, splitBytes?, utf8Size_toLower, ih]
      cases splitBytes? (count + 1 - c.utf8Size) text <;> rfl

theorem fold_eq_cons {mark : Char} (h : mark.isAlpha = false) {more : List Char} (found : fold text = mark :: more) :
    ∃ rest, text = mark :: rest := by
  obtain ⟨c, rest, rfl, same, -⟩ := List.map_eq_cons_iff.mp found
  exact ⟨rest, by rw [(toLower_eq_iff h c).mp same]⟩

theorem firstLine_fold (text : List Char) : firstLine (fold text) = fold (firstLine text) := by
  fun_induction firstLine text with
  | case1 | case2 | case3 => rfl
  | case4 c rest feed carriage ih =>
    have feed' : c.toLower ≠ '\n' := fun same => feed ((toLower_eq_iff (by decide) c).mp same)
    have carriage' (more : List Char) (same : c.toLower = '\r') (next : fold rest = '\n' :: more) : False := by
      obtain ⟨rest, rfl⟩ := fold_eq_cons (by decide) next
      exact carriage rest ((toLower_eq_iff (by decide) c).mp same) rfl
    rw [fold_cons, firstLine, ih, fold_cons]
    · exact feed'
    · exact carriage'

theorem excerpt_fold (text : List Char) : excerpt (fold text) = folded (excerpt text) := by
  rw [excerpt, trimStart_fold, firstLine_fold, excerpt, folded, String.toList_ofList]
  exact congrArg String.ofList List.map_take.symm

theorem undouble_fold {quote : Char} (mark : quote.isAlpha = false) (text : List Char) :
    undouble quote (fold text) = fold (undouble quote text) := by
  fun_induction undouble quote text with
  | case1 | case2 => rfl
  | case3 c d rest both ih =>
    have kept (c : Char) := toLower_eq_iff mark c
    rw [fold_cons, fold_cons, undouble, if_pos ⟨(kept c).mpr both.1, (kept d).mpr both.2⟩, ih, fold_cons,
      (kept quote).mpr rfl]
  | case4 c d rest apart ih =>
    have kept (c : Char) := toLower_eq_iff mark c
    rw [fold_cons, fold_cons, undouble, if_neg (by rwa [kept, kept]), ← fold_cons, ih, fold_cons]

theorem enclosed?_fold {quote : Char} (mark : quote.isAlpha = false) (text : List Char) :
    enclosed? quote (fold text) = (enclosed? quote text).map fold := by
  cases text with
  | nil => rfl
  | cons c rest =>
    have last : (fold rest).getLast? = some quote ↔ rest.getLast? = some quote := by
      rw [fold, List.getLast?_map]
      cases rest.getLast? <;> simp [toLower_eq_iff mark]
    have inner : (fold rest).dropLast = fold rest.dropLast := List.map_dropLast.symm
    simp only [fold_cons, enclosed?, toLower_eq_iff mark, last, inner]
    split <;> rfl

theorem unquoteChars_fold (raw : List Char) : unquoteChars (fold raw) = fold (unquoteChars raw) := by
  have inner {quote : Char} (mark : quote.isAlpha = false) (text : List Char) :
      (enclosed? quote (fold text)).map (undouble quote) =
        ((enclosed? quote text).map (undouble quote)).map fold := by
    rw [enclosed?_fold mark]
    cases enclosed? quote text with
    | none => rfl
    | some inner => exact congrArg some (undouble_fold mark inner)
  have found : (delimiters.findSome? fun quote => (enclosed? quote (fold (trim raw))).map (undouble quote)) =
      (delimiters.findSome? fun quote => (enclosed? quote (trim raw)).map (undouble quote)).map fold := by
    have back := inner (by decide : '\x60'.isAlpha = false) (trim raw)
    have double := inner (by decide : '\x22'.isAlpha = false) (trim raw)
    have single := inner (by decide : '\x27'.isAlpha = false) (trim raw)
    rw [List.map_findSome?]
    simp only [delimiters, List.findSome?_cons, List.findSome?_nil, Function.comp, back, double, single]
  simp only [unquoteChars, trim_fold, found]
  cases delimiters.findSome? fun quote => (enclosed? quote (trim raw)).map (undouble quote) <;> rfl

theorem unquote_folded (raw : String) : unquote (folded raw) = folded (unquote raw) := by
  rw [unquote, folded, String.toList_ofList, unquoteChars_fold, unquote, folded, String.toList_ofList]

theorem trimmed_folded (raw : String) : trimmed (folded raw) = folded (trimmed raw) := by
  rw [trimmed, folded, String.toList_ofList, trim_fold, trimmed, folded, String.toList_ofList]

theorem folded_append (first second : String) : folded (first ++ second) = folded first ++ folded second := by
  rw [folded, String.toList_append, fold_append, String.ofList_append]
  rfl

private theorem caseIgnorables_hold_no_letter :
    caseIgnorables.all fun range => range.2 < 65 || 90 < range.1 && range.2 < 97 || 122 < range.1 := by
  decide +kernel

theorem not_ignored_of_isAlpha {c : Char} (h : c.isAlpha) : caseIgnorables.contains c = false := by
  have letter : (c.isUpper || c.isLower) = true := h
  rw [Bool.or_eq_true, isUpper_iff, isLower_iff] at letter
  rw [CodeRanges.contains, List.any_eq_false]
  intro range hrange
  have apart := List.all_eq_true.mp caseIgnorables_hold_no_letter range hrange
  simp only [Bool.or_eq_true, Bool.and_eq_true, decide_eq_true_eq] at apart ⊢
  omega

theorem ignored_toLower (c : Char) : caseIgnorables.contains c.toLower = caseIgnorables.contains c := by
  by_cases upper : c.isUpper
  · have letters := letters_of_isUpper upper
    rw [not_ignored_of_isAlpha letters.1, not_ignored_of_isAlpha letters.2]
  · rw [toLower_of_not_isUpper upper]

theorem cased_toLower (c : Char) : casedLetters.contains c.toLower = casedLetters.contains c :=
  toLower_blind (by decide) c

theorem besideCased_fold (side : List Char) : besideCased (fold side) = besideCased side := by
  rw [besideCased, besideCased, dropWhile_fold ignored_toLower]
  cases side.dropWhile caseIgnorables.contains with
  | nil => rfl
  | cons c rest => exact cased_toLower c

theorem lowerAfter_fold (before text : List Char) : lowerAfter (fold before) (fold text) = lowerAfter before text := by
  induction text generalizing before with
  | nil => rfl
  | cons c text ih =>
    have between : lowerBetween (fold before) c.toLower (fold text) = lowerBetween before c text := by
      simp only [lowerBetween, toLower_eq_iff (by decide : 'Σ'.isAlpha = false),
        toLower_eq_iff (by decide : 'İ'.isAlpha = false), besideCased_fold, lowerChar_toLower]
    rw [fold_cons, lowerAfter, lowerAfter, between, ← fold_cons, ih]

theorem lowercase_fold (text : List Char) : lowercase (fold text) = lowercase text := lowerAfter_fold [] text

end DdlModels.Text
