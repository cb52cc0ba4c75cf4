import DdlModels.Proofs.Quoting
import DdlModels.TypeRule
import Mathlib.Data.List.Find

/-!
# Words in lower-case texts

A rule looks for its word anywhere in a type's name. Where a character that is not in the word parts the
name, the word stands in one of the parts, and so neither white space around the name nor the form of a
small sigma, which depends on what stands around it, makes a difference.
-/

namespace DdlModels

open Text

theorem TypeRule.occursIn_iff (word text : List Char) : occursIn word text ↔ word <:+: text := by
  induction text with
  | nil => simp [occursIn]
  | cons c text ih => simp [occursIn, ih, List.infix_cons_iff]

namespace Text

variable {word : List Char} {sep : Char}

/-- A word does not stretch over a character that is not one of its own. -/
theorem infix_append_cons_iff (absent : sep ∉ word) (before after : List Char) :
    word <:+: before ++ sep :: after ↔ word <:+: before ∨ word <:+: after := by
  constructor
  · rintro ⟨front, back, split⟩
    rw [List.append_assoc] at split
    rcases List.append_eq_append_iff.mp split with ⟨more, rfl, rest⟩ | ⟨more, rfl, rest⟩
    · rcases List.append_eq_append_iff.mp rest with ⟨last, rfl, -⟩ | ⟨last, rfl, tail⟩
      · exact .inl ⟨front, last, by rw [List.append_assoc]⟩
      · cases last with
        | nil => exact .inl ⟨front, [], by simp⟩
        | cons c last =>
          obtain rfl := (List.cons.inj tail).1
          exact absurd (by simp) absent
    · cases more with
      | nil =>
        cases word with
        | nil => exact .inl List.nil_infix
        | cons c word =>
          obtain rfl := (List.cons.inj rest).1
          exact absurd List.mem_cons_self absent
      | cons c more =>
        have tail : after = more ++ (word ++ back) := (List.cons.inj rest).2
        exact .inr ⟨more, back, by rw [List.append_assoc, tail]⟩
  · rintro (inside | inside)
    · exact inside.trans (List.prefix_append before _).isInfix
    · exact inside.trans ((List.suffix_cons sep after).trans (List.suffix_append before _)).isInfix

/-- A word is in one of three texts if the middle one begins and ends with characters that are not its own. -/
theorem infix_parts_iff (nonempty : word ≠ []) {first last : Char} (hfirst : first ∉ word) (hlast : last ∉ word)
    {middle more inner : List Char} (begins : middle = first :: more) (ends : middle = inner ++ [last])
    (before after : List Char) :
    word <:+: before ++ (middle ++ after) ↔ word <:+: before ∨ word <:+: middle ∨ word <:+: after := by
  have none : ¬ word <:+: ([] : List Char) := by simpa using nonempty
  have left : word <:+: before ++ (middle ++ after) ↔ word <:+: before ∨ word <:+: middle ++ after := by
    have cut := infix_append_cons_iff hfirst before (more ++ after)
    have alone := infix_append_cons_iff hfirst [] (more ++ after)
    rw [begins, List.cons_append, cut, ← List.nil_append (first :: (more ++ after)), alone]
    simp [none]
  have right : word <:+: middle ++ after ↔ word <:+: middle ∨ word <:+: after := by
    have cut := infix_append_cons_iff hlast inner after
    have alone := infix_append_cons_iff hlast inner []
    rw [ends, List.append_assoc, List.singleton_append, cut, alone]
    simp [none]
  rw [left, right]

theorem not_infix_of_absent {text : List Char} (nonempty : word ≠ []) (absent : ∀ c ∈ text, c ∉ word) :
    ¬ word <:+: text := by
  intro inside
  obtain ⟨c, rest, rfl⟩ := List.exists_cons_of_ne_nil nonempty
  exact absent c (inside.subset List.mem_cons_self) List.mem_cons_self

theorem infix_between {front back : List Char} (nonempty : word ≠ []) (hfront : ∀ c ∈ front, c ∉ word)
    (hback : ∀ c ∈ back, c ∉ word) (text : List Char) :
    word <:+: front ++ (text ++ back) ↔ word <:+: text := by
  have drop : word <:+: front ++ (text ++ back) ↔ word <:+: text ++ back := by
    induction front with
    | nil => rfl
    | cons c front ih =>
      have rest := ih fun d hd => hfront d (List.mem_cons_of_mem c hd)
      have first := infix_append_cons_iff (hfront c List.mem_cons_self) [] (front ++ (text ++ back))
      rw [List.nil_append] at first
      rw [List.cons_append, first, rest]
      simp [nonempty]
  rw [drop]
  cases back with
  | nil => rw [List.append_nil]
  | cons c back =>
    have tail := not_infix_of_absent nonempty fun d hd => hback d (List.mem_cons_of_mem c hd)
    rw [infix_append_cons_iff (hback c List.mem_cons_self)]
    simp [tail]

/-- The lower-case form of a character by itself. -/
def lowered (c : Char) : List Char := if c = 'İ' then ['i', '\u0307'] else [lowerChar c]

/-- One of the two small sigmas for both. -/
private def oneSigma (c : Char) : Char := if c = 'ς' then 'σ' else c

private theorem lowerAfter_oneSigma (before text : List Char) :
    (lowerAfter before text).map oneSigma = (text.flatMap lowered).map oneSigma := by
  induction text generalizing before with
  | nil => rfl
  | cons c text ih =>
    rw [lowerAfter, List.flatMap_cons, List.map_append, List.map_append, ih]
    congr 1
    by_cases sigma : c = 'Σ'
    · subst sigma
      have small : (lowered 'Σ').map oneSigma = ['σ'] := by decide
      rw [small, lowerBetween, if_pos rfl]
      split <;> rfl
    · rw [lowerBetween, lowered, if_neg sigma]

private theorem map_oneSigma_eq {text : List Char} (other : 'ς' ∉ text) : text.map oneSigma = text := by
  have same : text.map oneSigma = text.map id := by
    refine List.map_congr_left ?_
    intro c hc
    refine if_neg ?_
    rintro rfl
    exact other hc
  rw [same, List.map_id]

private theorem infix_map_oneSigma (ascii : ∀ c ∈ word, c.toNat < 128) (text : List Char) :
    word <:+: text.map oneSigma ↔ word <:+: text := by
  have foreign {c : Char} (h : 128 ≤ c.toNat) : c ∉ word := fun inside => absurd (ascii c inside) (by omega)
  constructor
  · rintro ⟨front, back, split⟩
    rw [List.append_assoc] at split
    obtain ⟨front', rest, rfl, -, hrest⟩ := List.map_eq_append_iff.mp split.symm
    obtain ⟨piece, back', rfl, hpiece, -⟩ := List.map_eq_append_iff.mp hrest
    have other : 'ς' ∉ piece := by
      intro inside
      have sigma : oneSigma 'ς' ∈ piece.map oneSigma := List.mem_map_of_mem inside
      rw [hpiece] at sigma
      exact foreign (by decide) sigma
    rw [map_oneSigma_eq other] at hpiece
    exact ⟨front', back', by rw [hpiece, List.append_assoc]⟩
  · intro inside
    rw [← map_oneSigma_eq (foreign (by decide) : 'ς' ∉ word)]
    exact inside.map oneSigma

/-- A word in ASCII is found in the lower-case form of a text as if each character had its form by itself. -/
theorem infix_lowercase_iff (ascii : ∀ c ∈ word, c.toNat < 128) (text : List Char) :
    word <:+: lowercase text ↔ word <:+: text.flatMap lowered := by
  rw [← infix_map_oneSigma ascii, lowercase, lowerAfter_oneSigma, infix_map_oneSigma ascii]

theorem lowered_of_isBlank {c : Char} (h : isBlank c) : lowered c = [c] :=
  forall_blank (P := fun c => lowered c = [c]) (by decide) h

theorem flatMap_lowered_of_isBlank {text : List Char} (h : ∀ c ∈ text, isBlank c) :
    text.flatMap lowered = text := by
  induction text with
  | nil => rfl
  | cons c text ih =>
    rw [List.flatMap_cons, lowered_of_isBlank (h c List.mem_cons_self),
      ih fun d hd => h d (List.mem_cons_of_mem c hd)]
    rfl

theorem trim_split (text : List Char) : ∃ front back, text = front ++ (trim text ++ back) ∧
    (∀ c ∈ front, isBlank c) ∧ ∀ c ∈ back, isBlank c := by
  refine ⟨text.takeWhile isBlank, ((trimStart text).reverse.takeWhile isBlank).reverse, ?_, ?_, ?_⟩
  · have last : trim text ++ ((trimStart text).reverse.takeWhile isBlank).reverse = trimStart text := by
      rw [trim, trimEnd, ← List.reverse_append, List.takeWhile_append_dropWhile, List.reverse_reverse]
    rw [last]
    exact List.takeWhile_append_dropWhile.symm
  · exact fun c hc => List.mem_takeWhile_imp hc
  · exact fun c hc => List.mem_takeWhile_imp (List.mem_reverse.mp hc)

theorem infix_lowercase_trim (nonempty : word ≠ []) (ascii : ∀ c ∈ word, c.toNat < 128)
    (visible : ∀ c ∈ word, isBlank c = false) (text : List Char) :
    word <:+: lowercase (trim text) ↔ word <:+: text.flatMap lowered := by
  obtain ⟨front, back, split, hfront, hback⟩ := trim_split text
  have absent {blank : List Char} (h : ∀ c ∈ blank, isBlank c) : ∀ c ∈ blank, c ∉ word := by
    intro c hc inside
    have other := visible c inside
    rw [h c hc] at other
    contradiction
  have whole : text.flatMap lowered = front ++ ((trim text).flatMap lowered ++ back) := by
    conv => lhs; rw [split]
    rw [List.flatMap_append, List.flatMap_append, flatMap_lowered_of_isBlank hfront,
      flatMap_lowered_of_isBlank hback]
  rw [infix_lowercase_iff ascii, whole, infix_between nonempty (absent hfront) (absent hback)]

end Text

theorem RuleChain.classify_congr (chain : RuleChain) {name other : List Char}
    (h : ∀ rule ∈ chain.rules, rule.contains.toList <:+: lowercase (trim name) ↔
      rule.contains.toList <:+: lowercase (trim other)) :
    chain.classify (String.ofList name) = chain.classify (String.ofList other) := by
  have same : chain.rules.find? (·.covers (lowercase (trim name))) =
      chain.rules.find? (·.covers (lowercase (trim other))) := by
    refine List.find?_congr ?_
    intro rule hrule
    rw [Bool.eq_iff_iff, TypeRule.covers, TypeRule.covers, TypeRule.occursIn_iff, TypeRule.occursIn_iff]
    exact h rule hrule
  rw [classify, classify, String.toList_ofList, String.toList_ofList, same]

theorem RuleChain.classify_without_rules {chain : RuleChain} (h : chain.rules = []) (name : String) :
    chain.classify name = chain.fallback := by
  rw [classify, h]
  rfl

end DdlModels
