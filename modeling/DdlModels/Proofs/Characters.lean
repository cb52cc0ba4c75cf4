import DdlModels.Text.CharClass
import DdlModels.Text.LetterCase
import Mathlib.Data.List.TakeWhile

/-!
# Characters

How the classes of characters that reading and trimming look at lie to each other.
-/

namespace DdlModels.Text

private theorem blank_code {c : Char} (h : isBlank c) :
    c.toNat ∈ [9, 10, 11, 12, 13, 32, 0x85, 0xA0, 0x1680, 0x2000, 0x2001, 0x2002, 0x2003, 0x2004,
      0x2005, 0x2006, 0x2007, 0x2008, 0x2009, 0x200A, 0x2028, 0x2029, 0x202F, 0x205F, 0x3000] := by
  simp only [isBlank, CodeRanges.contains, blanks, List.any_cons, List.any_nil, Bool.or_eq_true,
    Bool.and_eq_true, decide_eq_true_eq, Bool.false_eq_true, or_false] at h
  simp only [List.mem_cons, List.not_mem_nil, or_false]
  omega

theorem forall_blank {P : Char → Prop}
    (h : ∀ n ∈ [9, 10, 11, 12, 13, 32, 0x85, 0xA0, 0x1680, 0x2000, 0x2001, 0x2002, 0x2003, 0x2004,
      0x2005, 0x2006, 0x2007, 0x2008, 0x2009, 0x200A, 0x2028, 0x2029, 0x202F, 0x205F, 0x3000],
      P (Char.ofNat n)) {c : Char} (hc : isBlank c) : P c := by
  have known := h c.toNat (blank_code hc)
  rwa [Char.ofNat_toNat] at known

theorem lowerChar_of_isBlank {c : Char} (h : isBlank c) : lowerChar c = c :=
  forall_blank (P := fun c => lowerChar c = c) (by decide) h

theorem isAlpha_of_isBlank {c : Char} (h : isBlank c) : c.isAlpha = false :=
  forall_blank (P := fun c => c.isAlpha = false) (by decide) h

theorem not_mark_of_isBlank {c : Char} (h : isBlank c) : c ∉ ['\x27', '\x22', '\x60', '-', '#', '/'] :=
  forall_blank (P := fun c => c ∉ ['\x27', '\x22', '\x60', '-', '#', '/']) (by decide) h

theorem forall_among {P : Char → Prop} [DecidablePred P] {chars : List Char}
    (h : chars.all fun c => decide (P c)) : ∀ c ∈ chars, P c := by
  intro c hc
  exact of_decide_eq_true (List.all_eq_true.mp h c hc)

theorem span_until {α : Type} {member : α → Bool} {before rest : List α} (all : ∀ c ∈ before, member c)
    (stop : ∀ c ∈ rest.head?, member c = false) :
    (before ++ rest).takeWhile member = before ∧ (before ++ rest).dropWhile member = rest := by
  have here : rest.takeWhile member = [] ∧ rest.dropWhile member = rest := by
    cases rest with
    | nil => exact ⟨rfl, rfl⟩
    | cons c rest => simp [stop c rfl]
  rw [List.takeWhile_append_of_pos all, List.dropWhile_append_of_pos all, here.1, here.2, List.append_nil]
  exact ⟨rfl, rfl⟩

theorem forall_ascii {P : Char → Prop} (h : ∀ n < 128, P (Char.ofNat n)) {c : Char}
    (hc : c.toNat < 128) : P c := by
  have known := h c.toNat hc
  rwa [Char.ofNat_toNat] at known

theorem isUpper_iff {c : Char} : c.isUpper ↔ 65 ≤ c.toNat ∧ c.toNat ≤ 90 := by
  change decide (c.val ≥ 'A'.val ∧ c.val ≤ 'Z'.val) = true ↔ _
  simp only [decide_eq_true_eq, ge_iff_le, UInt32.le_iff_toNat_le]
  rfl

theorem isLower_iff {c : Char} : c.isLower ↔ 97 ≤ c.toNat ∧ c.toNat ≤ 122 := by
  change (decide (c.val ≥ 'a'.val) && decide (c.val ≤ 'z'.val)) = true ↔ _
  simp only [Bool.and_eq_true, decide_eq_true_eq, ge_iff_le, UInt32.le_iff_toNat_le]
  rfl

theorem ascii_of_isUpper {c : Char} (h : c.isUpper) : c.toNat < 128 := by
  have bounds := isUpper_iff.mp h
  omega

theorem ascii_of_isLower {c : Char} (h : c.isLower) : c.toNat < 128 := by
  have bounds := isLower_iff.mp h
  omega

theorem ascii_of_isAlpha {c : Char} (h : c.isAlpha) : c.toNat < 128 := by
  have letter : (c.isUpper || c.isLower) = true := h
  rcases Bool.or_eq_true_iff.mp letter with upper | lower
  · exact ascii_of_isUpper upper
  · exact ascii_of_isLower lower

theorem ascii_of_isDigit {c : Char} (h : c.isDigit) : c.toNat < 128 := by
  simp only [Char.isDigit, Bool.and_eq_true, decide_eq_true_eq, ge_iff_le, UInt32.le_iff_toNat_le] at h
  have bound : c.toNat ≤ 57 := h.2
  omega

theorem mem_digits_of_isDigit {c : Char} (h : c.isDigit) : c ∈ "0123456789".toList :=
  forall_ascii (P := fun c => c.isDigit → c ∈ "0123456789".toList) (by decide) (ascii_of_isDigit h) h

theorem isWordChar_of_isDigit {c : Char} (h : c.isDigit) : isWordChar c :=
  isWordChar_of_isAlphanum (ascii_of_isDigit h) (by simp [Char.isAlphanum, h])

theorem isAlpha_lowerChar {c : Char} (h : c.isAlpha) : (lowerChar c).isAlpha := by
  have all : c.isAlpha → (lowerChar c).isAlpha :=
    forall_ascii (P := fun c => c.isAlpha → (lowerChar c).isAlpha) (by decide) (ascii_of_isAlpha h)
  exact all h

theorem trim_ne_nil {text : List Char} {c : Char} (hc : c ∈ text) (visible : isBlank c = false) :
    trim text ≠ [] := by
  have start : c ∈ trimStart text := by
    have whole : c ∈ text.takeWhile isBlank ++ text.dropWhile isBlank := by
      rwa [List.takeWhile_append_dropWhile]
    rcases List.mem_append.mp whole with h | h
    · have blank := List.all_eq_true.mp List.all_takeWhile c h
      simp [visible] at blank
    · exact h
  intro empty
  have none : (trimStart text).reverse.dropWhile isBlank = [] := by
    simpa [trim, trimEnd] using empty
  have blank := List.dropWhile_eq_nil_iff.mp none c (List.mem_reverse.mpr start)
  simp [visible] at blank

end DdlModels.Text
