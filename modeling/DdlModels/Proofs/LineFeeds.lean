import Mathlib.Algebra.Ring.Nat

/-!
# Line feeds

A text that is written line by line is taken apart into the same lines again, if no line has a line feed of its own.
-/

namespace DdlModels

def lineFeeds (text : String) : Nat := text.toList.count '\n'

@[simp]
theorem lineFeeds_append (first second : String) :
    lineFeeds (first ++ second) = lineFeeds first + lineFeeds second := by
  simp [lineFeeds]

@[simp]
theorem lineFeeds_empty : lineFeeds "" = 0 := rfl

theorem lineFeeds_eq_zero {text : String} : lineFeeds text = 0 ↔ '\n' ∉ text.toList := List.count_eq_zero

theorem lineFeeds_intercalate {separator : String} (h : lineFeeds separator = 0) (parts : List String) :
    lineFeeds (String.intercalate separator parts) = (parts.map lineFeeds).sum := by
  induction parts with
  | nil => rfl
  | cons part parts ih =>
    cases parts with
    | nil => simp
    | cons next parts =>
      rw [String.intercalate_cons_cons, lineFeeds_append, lineFeeds_append, h, ih]
      rfl

theorem lineFeeds_join_lines (lines : List String) :
    lineFeeds (String.join (lines.map (· ++ "\n"))) = lines.length + (lines.map lineFeeds).sum := by
  induction lines with
  | nil => rfl
  | cons line lines ih =>
    have feed : lineFeeds "\n" = 1 := by decide
    rw [List.map_cons, String.join_cons, lineFeeds_append, lineFeeds_append, ih, feed, List.length_cons,
      List.map_cons, List.sum_cons]
    omega

theorem intercalate_append_separator (separator first : String) (others : List String) :
    String.intercalate separator (first :: others) ++ separator =
      String.join ((first :: others).map (· ++ separator)) := by
  induction others generalizing first with
  | nil => simp
  | cons next others ih =>
    rw [String.intercalate_cons_cons, String.append_assoc, ih]
    simp

theorem splitOn_join_lines {lines : List String} (h : ∀ line ∈ lines, '\n' ∉ line.toList) :
    (String.join (lines.map (· ++ "\n"))).toList.splitOn '\n' = lines.map String.toList ++ [[]] := by
  induction lines with
  | nil => rfl
  | cons line lines ih =>
    have whole : (String.join ((line :: lines).map (· ++ "\n"))).toList =
        line.toList ++ '\n' :: (String.join (lines.map (· ++ "\n"))).toList := by simp
    rw [whole, List.splitOn_append_cons_self_of_not_mem (h line List.mem_cons_self),
      ih fun other hother => h other (List.mem_cons_of_mem line hother)]
    rfl

theorem eq_of_join_lines {lines others : List String} (h : ∀ line ∈ lines, '\n' ∉ line.toList)
    (hothers : ∀ line ∈ others, '\n' ∉ line.toList)
    (same : String.join (lines.map (· ++ "\n")) = String.join (others.map (· ++ "\n"))) : lines = others := by
  have split := splitOn_join_lines h
  rw [same, splitOn_join_lines hothers] at split
  exact ((List.map_inj_right fun _ _ => String.toList_inj.mp).mp (List.append_cancel_right split)).symm

end DdlModels
