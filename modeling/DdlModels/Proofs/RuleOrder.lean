import DdlModels.Proofs.Folding
import DdlModels.Proofs.WordSearch

/-!
# The order of rules

A chain is read from its first rule on, up to the first whose word occurs in a type's name; the fallback is for
names in which no word occurs, its own included. A rule whose word does not occur might as well not be there, and
nothing that stands after a rule whose word occurs is looked at.
-/

namespace DdlModels

/-- The rule's word occurs in a type's name, written small and without the white space around it. -/
def TypeRule.OccursIn (rule : TypeRule) (name : String) : Prop :=
  rule.contains.toList <:+: Text.lowercase (Text.trim name.toList)

namespace TypeRule

theorem covers_iff {rule : TypeRule} {name : String} :
    rule.covers (Text.lowercase (Text.trim name.toList)) ↔ rule.OccursIn name := by
  rw [covers, occursIn_iff, OccursIn]

instance (rule : TypeRule) (name : String) : Decidable (rule.OccursIn name) := decidable_of_iff _ covers_iff

theorem occursIn_of_empty {rule : TypeRule} (empty : rule.contains = "") (name : String) : rule.OccursIn name := by
  rw [OccursIn, empty]
  exact List.nil_infix

end TypeRule

namespace RuleChain

variable {name : String}

theorem classify_cons (rule : TypeRule) (rules : List TypeRule) (fallback : TypeRule) (name : String) :
    classify ⟨rule :: rules, fallback⟩ name = if rule.OccursIn name then rule else classify ⟨rules, fallback⟩ name := by
  by_cases occurs : rule.OccursIn name
  · have covers := TypeRule.covers_iff.mpr occurs
    simp [classify, covers, occurs]
  · have misses := eq_false_of_ne_true (mt TypeRule.covers_iff.mp occurs)
    simp [classify, misses, occurs]

/-- Rules decide before those that come after them. -/
theorem classify_append_congr (before : List TypeRule) {rules others : List TypeRule} {fallback other : TypeRule}
    (h : classify ⟨rules, fallback⟩ name = classify ⟨others, other⟩ name) :
    classify ⟨before ++ rules, fallback⟩ name = classify ⟨before ++ others, other⟩ name := by
  induction before with
  | nil => exact h
  | cons rule before ih => rw [List.cons_append, List.cons_append, classify_cons, classify_cons, ih]

theorem classify_append_of_none {before : List TypeRule} (none : ∀ rule ∈ before, ¬ rule.OccursIn name)
    (rules : List TypeRule) (fallback : TypeRule) :
    classify ⟨before ++ rules, fallback⟩ name = classify ⟨rules, fallback⟩ name := by
  induction before with
  | nil => rfl
  | cons rule before ih =>
    rw [List.cons_append, classify_cons, if_neg (none rule List.mem_cons_self),
      ih fun other hother => none other (List.mem_cons_of_mem rule hother)]

theorem exists_first_or_none (rules : List TypeRule) (name : String) :
    (∃ before rule after, rules = before ++ rule :: after ∧ (∀ other ∈ before, ¬ other.OccursIn name) ∧
      rule.OccursIn name) ∨ ∀ rule ∈ rules, ¬ rule.OccursIn name := by
  induction rules with
  | nil => exact .inr (by simp)
  | cons rule rules ih =>
    by_cases occurs : rule.OccursIn name
    · exact .inl ⟨[], rule, rules, rfl, by simp, occurs⟩
    rcases ih with ⟨before, first, after, rfl, none, found⟩ | none
    · exact .inl ⟨rule :: before, first, after, rfl, List.forall_mem_cons.mpr ⟨occurs, none⟩, found⟩
    · exact .inr (List.forall_mem_cons.mpr ⟨occurs, none⟩)

/-- Neither letter case nor white space around a name makes a difference. -/
theorem classify_congr_of_folded (chain : RuleChain) {name other : String}
    (h : Text.folded (Text.trimmed name) = Text.folded (Text.trimmed other)) :
    chain.classify name = chain.classify other := by
  have same : Text.fold (Text.trim name.toList) = Text.fold (Text.trim other.toList) := by
    simpa [Text.folded, Text.trimmed] using congrArg String.toList h
  have lower : Text.lowercase (Text.trim name.toList) = Text.lowercase (Text.trim other.toList) := by
    rw [← Text.lowercase_fold, same, Text.lowercase_fold]
  rw [classify, classify, lower]

/-- The first rule whose word occurs in a name gives its type, and the fallback if no word does. It is the same for
all names that differ only in letter case and in the white space around them, with or without rules before it whose
words do not occur, and whatever stands after it; after a rule with the empty word it does not matter what stands. -/
theorem classify_first_match (chain : RuleChain) (name : String) :
    ((∃ before rule after, chain.toList = before ++ rule :: (after ++ [chain.fallback]) ∧
        (∀ other ∈ before, ¬ other.OccursIn name) ∧ rule.OccursIn name ∧ chain.classify name = rule) ∨
      (∀ rule ∈ chain.toList.dropLast, ¬ rule.OccursIn name) ∧ chain.classify name = chain.fallback) ∧
    (∀ other, Text.folded (Text.trimmed name) = Text.folded (Text.trimmed other) →
      chain.classify name = chain.classify other) ∧
    (∀ before after extra, chain.rules = before ++ after → ¬ extra.OccursIn name →
      classify ⟨before ++ extra :: after, chain.fallback⟩ name = chain.classify name) ∧
    (∀ before rule after, chain.rules = before ++ rule :: after → rule.OccursIn name →
      ∀ others fallback, classify ⟨before ++ rule :: others, fallback⟩ name = chain.classify name) ∧
    ∀ before rule after, chain.rules = before ++ rule :: after → rule.contains = "" →
      ∀ others fallback any, classify ⟨before ++ rule :: others, fallback⟩ any = chain.classify any := by
  obtain ⟨rules, fallback⟩ := chain
  have hides {any : String} (before : List TypeRule) {rule : TypeRule} (occurs : rule.OccursIn any)
      (after others : List TypeRule) (other : TypeRule) :
      classify ⟨before ++ rule :: others, other⟩ any = classify ⟨before ++ rule :: after, fallback⟩ any := by
    refine classify_append_congr before ?_
    rw [classify_cons, classify_cons, if_pos occurs, if_pos occurs]
  refine ⟨?_, fun other => classify_congr_of_folded _, ?_, ?_, ?_⟩
  · rcases exists_first_or_none rules name with ⟨before, rule, after, rfl, none, occurs⟩ | none
    · refine .inl ⟨before, rule, after, by simp [toList], none, occurs, ?_⟩
      rw [classify_append_of_none none, classify_cons, if_pos occurs]
    · refine .inr ⟨by simpa [toList] using none, ?_⟩
      have alone := classify_append_of_none none [] fallback
      rwa [List.append_nil] at alone
  · rintro before after extra rfl absent
    refine classify_append_congr before ?_
    rw [classify_cons, if_neg absent]
  · rintro before rule after rfl occurs others other
    exact hides before occurs after others other
  · rintro before rule after rfl empty others other any
    exact hides before (TypeRule.occursIn_of_empty empty any) after others other

/-- In `POINT` the word `int` occurs, in any letter case; a rule for `point` after it changes nothing, nor does one for
`text` before it. -/
theorem point_is_matched_by_int :
    dimension.classify "POINT" = dimension.classify "\n pOiNt " ∧
    classify ⟨{ contains := "text", goType := GoType.string } :: dimension.rules, dimension.fallback⟩ "POINT" =
      dimension.classify "POINT" ∧
    classify ⟨[{ contains := "int", goType := GoType.int64 }, { contains := "point", goType := GoType.bool }],
      .any GoType.string⟩ "POINT" = dimension.classify "POINT" ∧
    (dimension.classify "POINT").goType = GoType.int64 ∧
    classify ⟨[.any GoType.bool, { contains := "point", goType := GoType.int64 }], .any GoType.string⟩ "POINT" =
      classify ⟨[.any GoType.bool], .any GoType.time⟩ "POINT" := by
  obtain ⟨-, alike, skips, hides, -⟩ := classify_first_match dimension "POINT"
  obtain ⟨-, -, -, -, ends⟩ := classify_first_match ⟨[.any GoType.bool], .any GoType.time⟩ "POINT"
  refine ⟨alike "\n pOiNt " (by decide), ?_, ?_, by decide, ?_⟩
  · exact skips [] dimension.rules _ rfl (by decide)
  · exact hides [] _ _ rfl (by decide) _ _
  · exact ends [] _ [] rfl rfl _ _ _

end RuleChain

end DdlModels
