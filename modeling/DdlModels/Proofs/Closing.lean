import DdlModels.Proofs.Scanning

/-!
# Where quotes close

The inside of a text in quotes is made of plain characters, of characters that a backslash hides, and of
doubled quotes. It closes at a quote after such pieces that no other quote follows; where there is no such
quote, it never closes.
-/

namespace DdlModels.Sql

/-- A piece of the inside of a text in quotes. -/
inductive IsInside (quote : Char) : List Char → Prop
  | plain {c : Char} (other : c ≠ quote) (bare : escapes quote → c ≠ '\\') : IsInside quote [c]
  | hidden (c : Char) (hides : escapes quote) : IsInside quote ['\\', c]
  | doubled : IsInside quote [quote, quote]

/-- What is inside of quotes ends at a quote, and `rest` comes after that. -/
def ClosesBefore (quote : Char) (text rest : List Char) : Prop :=
  rest.head? ≠ some quote ∧
    ∃ pieces : List (List Char), (∀ piece ∈ pieces, IsInside quote piece) ∧
      text = pieces.flatten ++ quote :: rest

variable {quote : Char} {text rest : List Char}

theorem ClosesBefore.cons {piece : List Char} (inside : IsInside quote piece) (h : ClosesBefore quote text rest) :
    ClosesBefore quote (piece ++ text) rest := by
  obtain ⟨single, pieces, hpieces, rfl⟩ := h
  refine ⟨single, piece :: pieces, ?_, by rw [List.flatten_cons, List.append_assoc]⟩
  intro other hother
  rcases List.mem_cons.mp hother with rfl | hother
  · exact inside
  · exact hpieces other hother

theorem Reply.rest?_after (reply : Reply) (taken : List Char) : (reply.after [] taken).rest? = reply.rest? := by
  cases reply <;> rfl

theorem closesBefore_of_readToClose (h : (readToClose quote text).rest? = some rest) :
    ClosesBefore quote text rest := by
  fun_induction readToClose quote text with
  | case1 | case3 | case4 => contradiction
  | case2 c same =>
    obtain rfl := Option.some.inj h
    exact ⟨by simp, [], by simp, by rw [beq_iff_eq.mp same]; rfl⟩
  | case5 c d more pair ih =>
    rw [Reply.rest?_after] at h
    have inside : IsInside quote [c, d] := by
      simp only [Bool.or_eq_true, Bool.and_eq_true, beq_iff_eq] at pair
      rcases pair with ⟨hides, rfl⟩ | ⟨rfl, rfl⟩
      · exact .hidden d hides
      · exact .doubled
    exact .cons inside (ih h)
  | case6 c d more pair same =>
    obtain rfl := Option.some.inj h
    obtain rfl := beq_iff_eq.mp same
    refine ⟨?_, [], by simp, rfl⟩
    rintro ⟨⟩
    simp at pair
  | case7 c d more pair other ih =>
    rw [Reply.rest?_after] at h
    have inside : IsInside quote [c] := by
      refine .plain (by simpa using other) ?_
      rintro hides rfl
      simp [hides] at pair
    exact .cons inside (ih h)

theorem readToClose_inside {piece : List Char} (inside : IsInside quote piece) (nonempty : text ≠ []) :
    (readToClose quote (piece ++ text)).rest? = (readToClose quote text).rest? := by
  cases inside with
  | @plain c other bare =>
    obtain ⟨d, text, rfl⟩ := List.exists_cons_of_ne_nil nonempty
    have alone : (escapes quote && c == '\\' || c == quote && d == quote) = false := by
      rcases Bool.eq_false_or_eq_true (escapes quote) with hides | hides
      · simp [bare hides, other]
      · simp [hides, other]
    rw [List.singleton_append, readToClose, alone]
    simp only [Bool.false_eq_true, if_false, beq_eq_false_iff_ne.mpr other]
    exact Reply.rest?_after _ _
  | hidden c hides =>
    rw [List.cons_append, List.singleton_append, readToClose, if_pos (by simp [hides])]
    exact Reply.rest?_after _ _
  | doubled =>
    rw [List.cons_append, List.singleton_append, readToClose, if_pos (by simp)]
    exact Reply.rest?_after _ _

theorem ClosesBefore.readToClose (plain : quote ≠ '\\') (h : ClosesBefore quote text rest) :
    (readToClose quote text).rest? = some rest := by
  obtain ⟨single, pieces, hpieces, rfl⟩ := h
  induction pieces with
  | nil =>
    cases rest with
    | nil => simp [Sql.readToClose, Reply.rest?]
    | cons d rest =>
      have other : d ≠ quote := by
        rintro rfl
        exact single rfl
      simp [Sql.readToClose, Reply.rest?, plain, other]
  | cons piece pieces ih =>
    rw [List.flatten_cons, List.append_assoc, readToClose_inside (hpieces piece List.mem_cons_self) (by simp)]
    exact ih fun other hother => hpieces other (List.mem_cons_of_mem piece hother)

end DdlModels.Sql
