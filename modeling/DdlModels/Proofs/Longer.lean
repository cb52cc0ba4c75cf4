import DdlModels.Proofs.Scanning

/-!
# Texts that go on

What is leapt over in a text is leapt over as well when another text follows. Only a closing quote may turn
into a doubled one, where the other text begins with the same quote.
-/

namespace DdlModels.Sql

theorem isQuote_ne_backslash {c : Char} (h : isQuote c) : c ≠ '\\' := by
  rintro rfl
  contradiction

theorem readToClose_swap {quote : Char} {text taken after : List Char} {nodes : List Node}
    (plain : quote ≠ '\\') (h : readToClose quote text = .ok nodes taken after) (other : List Char) :
    after.head? ≠ some quote ∧
      (other.head? ≠ some quote → readToClose quote (taken ++ other) = .ok nodes taken other) := by
  have closes (apart : other.head? ≠ some quote) : readToClose quote ([quote] ++ other) = .ok [] [quote] other := by
    cases other with
    | nil => simp [readToClose]
    | cons d other =>
      have different : d ≠ quote := by
        rintro rfl
        exact apart rfl
      simp [readToClose, plain, different]
  fun_induction readToClose quote text generalizing taken with
  | case1 | case3 | case4 => contradiction
  | case2 c same =>
    obtain rfl : c = quote := by simpa using same
    obtain ⟨rfl, rfl, rfl⟩ := Reply.ok.inj h
    exact ⟨by simp, closes⟩
  | case5 c d rest' pair ih =>
    obtain ⟨inner, found, rfl⟩ := Reply.after_eq_ok h
    obtain ⟨head, swap⟩ := ih found
    refine ⟨head, ?_⟩
    intro apart
    rw [List.append_assoc, List.cons_append, List.cons_append, List.nil_append, readToClose, if_pos pair,
      swap apart]
    rfl
  | case6 c d rest' pair same =>
    obtain rfl : c = quote := by simpa using same
    obtain ⟨rfl, rfl, rfl⟩ := Reply.ok.inj h
    -- the closing quote: a second one after it would have been read as a doubled quote
    refine ⟨?_, closes⟩
    rintro head
    obtain rfl := Option.some.inj head
    simp at pair
  | case7 c d rest' pair same ih =>
    obtain ⟨inner, found, rfl⟩ := Reply.after_eq_ok h
    obtain ⟨head, swap⟩ := ih found
    refine ⟨head, ?_⟩
    intro apart
    have split := readToClose_splits quote (d :: rest')
    rw [found] at split
    -- the character that is read next is known, for what is taken after it does not end before the closing quote
    obtain ⟨before, rfl⟩ := readToClose_closes found
    obtain ⟨more, hmore⟩ : ∃ more, before ++ [quote] = d :: more := by
      have start : d :: rest' = before ++ [quote] ++ after := split
      cases before with
      | nil => exact ⟨[], by simpa using (List.cons.inj start).1.symm⟩
      | cons e before => exact ⟨before ++ [quote], by rw [(List.cons.inj start).1]; rfl⟩
    have next := swap apart
    rw [hmore] at next ⊢
    rw [List.append_assoc, List.cons_append, List.nil_append, List.cons_append, readToClose, if_neg pair,
      if_neg same, ← List.cons_append, next]
    rfl

theorem literalRest?_swap {literal after other : List Char}
    (h : literalRest? (literal ++ after) = some after)
    (apart : ∀ c ∈ other.head?, c ∈ after.head? ∨ isQuote c = false) :
    literalRest? (literal ++ other) = some other := by
  cases literal with
  | nil =>
    have shorter := Leap.literals.shortens h
    simp at shorter
  | cons c literal =>
    rw [List.cons_append, literalRest?] at h
    split at h
    case isTrue quote =>
      have split := readToClose_splits c (literal ++ after)
      rcases readToClose_ok_or_miss c (literal ++ after) with ⟨taken, left, found⟩ | ⟨left, missed⟩
      · obtain rfl : left = after := by simpa [found, Reply.rest?] using h
        rw [found] at split
        obtain rfl : literal = taken := List.append_cancel_right split
        obtain ⟨head, swap⟩ := readToClose_swap (isQuote_ne_backslash quote) found other
        have different : other.head? ≠ some c := by
          intro same
          rcases apart c same with here | plain
          · exact head here
          · simp [plain] at quote
        rw [List.cons_append, literalRest?, if_pos quote, swap different]
        rfl
      · simp [missed, Reply.rest?] at h
    case isFalse => contradiction

theorem literal_split {text after : List Char} (h : Leap.literals.over? text = some after) :
    ∃ quote inner, isQuote quote ∧ text = (quote :: (inner ++ [quote])) ++ after := by
  obtain ⟨quote, inner, hquote, rfl⟩ := literalRest?_eq_some h
  exact ⟨quote, inner, hquote, by simp⟩

theorem groupEnd?_parts {depth : Nat} {text rest : List Char} (h : groupEnd? .literals depth text = some rest) :
    ∃ inner, text = inner ++ ')' :: rest ∧
      ∀ other, groupEnd? .literals depth (inner ++ ')' :: other) = some other := by
  have stays {c : Char} (quote : isQuote c = false) (text : List Char) : Leap.literals.over? (c :: text) = none :=
    Leap.literals_over_none quote text
  fun_induction groupEnd? .literals depth text with
  | case1 | case3 => contradiction
  | case2 depth c more after jump ih =>
    obtain ⟨inner, rfl, ends⟩ := ih h
    obtain ⟨quote, body, -, split⟩ := literal_split jump
    refine ⟨quote :: (body ++ [quote]) ++ inner, by rw [split, List.append_assoc], ?_⟩
    intro other
    have found : literalRest? (quote :: (body ++ [quote]) ++ (inner ++ ')' :: rest)) = some (inner ++ ')' :: rest) := by
      rw [← split]
      exact jump
    have again : Leap.literals.over? (quote :: (body ++ [quote] ++ (inner ++ ')' :: other))) =
        some (inner ++ ')' :: other) := by
      refine literalRest?_swap found ?_
      intro d hd
      cases inner <;> exact .inl hd
    rw [List.append_assoc, List.cons_append, groupEnd?_leap again]
    exact ends other
  | case4 depth more jump quote ih | case6 more outer jump quote opens ih =>
    obtain ⟨inner, rfl, ends⟩ := ih h
    refine ⟨_ :: inner, rfl, ?_⟩
    intro other
    rw [List.cons_append, groupEnd?_char (stays rfl _)]
    exact ends other
  | case5 more jump quote opens =>
    obtain rfl := Option.some.inj h
    refine ⟨[], rfl, ?_⟩
    intro other
    rw [List.nil_append, groupEnd?_char (stays rfl _)]
    rfl
  | case7 depth c more jump quote opens closes ih =>
    obtain ⟨inner, rfl, ends⟩ := ih h
    refine ⟨c :: inner, rfl, ?_⟩
    intro other
    rw [List.cons_append, groupEnd?_char (stays (by simpa using quote) _), if_neg quote, if_neg opens, if_neg closes]
    exact ends other

theorem Leap.groups_parts {text rest : List Char} (h : Leap.literals.groups.over? text = some rest) :
    ∃ inner, text = '(' :: (inner ++ ')' :: rest) ∧
      ∀ other, Leap.literals.groups.over? ('(' :: (inner ++ ')' :: other)) = some other := by
  simp only [groups] at h
  split at h
  case h_1 =>
    obtain ⟨inner, rfl, ends⟩ := groupEnd?_parts h
    exact ⟨inner, rfl, ends⟩
  case h_2 => contradiction

theorem readToClose_append {quote : Char} {text more taken rest : List Char} {nodes : List Node}
    (plain : quote ≠ '\\') (h : readToClose quote text = .ok nodes taken rest)
    (apart : rest ≠ [] ∨ more.head? ≠ some quote) :
    readToClose quote (text ++ more) = .ok nodes taken (rest ++ more) := by
  obtain ⟨head, swap⟩ := readToClose_swap plain h (rest ++ more)
  have split := readToClose_splits quote text
  rw [h] at split
  rw [show text = taken ++ rest from split, List.append_assoc]
  refine swap ?_
  cases rest with
  | nil => simpa using apart
  | cons c rest => exact head

theorem literalRest?_append {text rest more : List Char} (h : literalRest? text = some rest)
    (apart : rest ≠ [] ∨ ∀ c ∈ more.head?, isQuote c = false) :
    literalRest? (text ++ more) = some (rest ++ more) := by
  obtain ⟨quote, inner, -, rfl⟩ := literal_split h
  rw [List.append_assoc]
  refine literalRest?_swap h ?_
  intro c hc
  cases rest with
  | nil => exact .inr (apart.resolve_left (by simp) c hc)
  | cons d rest => exact .inl hc

theorem Leap.groups_append {text rest : List Char} (h : Leap.literals.groups.over? text = some rest)
    (more : List Char) : Leap.literals.groups.over? (text ++ more) = some (rest ++ more) := by
  obtain ⟨inner, rfl, ends⟩ := groups_parts h
  rw [List.cons_append, List.append_assoc]
  exact ends (rest ++ more)

/-- What a leap describes is read in only one way. -/
theorem Leap.Describes.over_eq {leap : Leap} {grammar : Grammar} (describes : leap.Describes grammar)
    {text rest : List Char} {nodes : List Node} (h : grammar.Reads text nodes rest) :
    leap.over? text = some rest := by
  obtain ⟨taken, found⟩ := h
  cases jump : leap.over? text with
  | none =>
    obtain ⟨left, missed⟩ := (describes text.length).misses (Nat.le_refl _) jump
    rw [found] at missed
    contradiction
  | some other =>
    obtain ⟨more, again⟩ := (describes text.length).reads (Nat.le_refl _) jump
    rw [found] at again
    rw [(Reply.ok.inj again).2.2]

/-- A scan that ends inside a text ends there when more text follows, and otherwise goes on. -/
theorem scan_append_text {leap : Leap} {stops more : List Char}
    (goes : ∀ text rest, leap.over? text = some rest → leap.over? (text ++ more) = some (rest ++ more))
    (quiet : ∀ c ∉ stops, ∀ text, leap.over? (c :: text) = none) (text : List Char) :
    (scan leap stops text = [] → scan leap stops (text ++ more) = scan leap stops more) ∧
      (∀ c rest, scan leap stops text = c :: rest → leap.over? (c :: rest ++ more) = none →
        scan leap stops (text ++ more) = c :: rest ++ more) := by
  fun_induction scan leap stops text with
  | case1 => simp
  | case2 c text after jump ih =>
    have longer := goes _ _ jump
    rw [List.cons_append] at longer ⊢
    rw [scan_leap longer]
    exact ih
  | case3 c text jump stop =>
    refine ⟨by simp, ?_⟩
    rintro d rest ⟨⟩ still
    rw [List.cons_append] at still ⊢
    rw [scan_char still, if_pos stop]
  | case4 c text jump plain ih =>
    rw [List.cons_append, scan_char (quiet c plain _), if_neg plain]
    exact ih

theorem Leap.literals_append {text rest more : List Char} (h : Leap.literals.over? text = some rest)
    (apart : ∀ c ∈ more.head?, isQuote c = false) :
    Leap.literals.over? (text ++ more) = some (rest ++ more) :=
  literalRest?_append h (.inr apart)

theorem Leap.withGroups_append {text rest more : List Char}
    (h : Leap.literals.withGroups.over? text = some rest) (apart : ∀ c ∈ more.head?, isQuote c = false) :
    Leap.literals.withGroups.over? (text ++ more) = some (rest ++ more) := by
  rcases Option.or_eq_some_iff.mp h with group | ⟨no_group, literal⟩
  · exact Option.or_eq_some_iff.mpr (.inl (groups_append group more))
  · refine Option.or_eq_some_iff.mpr (.inr ⟨?_, literals_append literal apart⟩)
    cases text with
    | nil => contradiction
    | cons c text =>
      apply groups_over_ne
      rintro rfl
      rw [show Leap.literals.over? ('(' :: text) = none from literals_over_none rfl text] at literal
      contradiction

end DdlModels.Sql
