import DdlModels.Proofs.Closing
import DdlModels.Proofs.Longer

/-!
# One pass over the characters

Groups, keys and statements are read piece by piece, with groups inside of groups. They end where an automaton
finds their ends that reads one character after the other and keeps no more than a depth of parentheses and
whether it is in quotes.
-/

namespace DdlModels.Sql

/-- Where the automaton is between two characters, as to quotes. -/
inductive QuoteMode where
  | outside
  | inside (quote : Char)
  /-- After a backslash, which hides the next character. -/
  | escaped (quote : Char)
  /-- After a quote that closes, unless the same quote follows. -/
  | closing (quote : Char)

namespace QuoteMode

/-- The next character is read outside of quotes, or the text ends there. -/
def frees : QuoteMode → Option Char → Prop
  | outside, _ => True
  | closing quote, next => next ≠ some quote
  | inside _, _ | escaped _, _ => False

def next : QuoteMode → Char → QuoteMode
  | outside, c => if isQuote c then inside c else outside
  | inside quote, c =>
    if c = quote then closing quote else if escapes quote && c == '\\' then escaped quote else inside quote
  | escaped quote, _ => inside quote
  | closing quote, c => if c = quote then inside quote else if isQuote c then inside c else outside

instance : (mode : QuoteMode) → (next : Option Char) → Decidable (mode.frees next)
  | outside, _ => .isTrue trivial
  | closing quote, next => inferInstanceAs (Decidable (next ≠ some quote))
  | inside _, _ | escaped _, _ => .isFalse id

end QuoteMode

/-- The state of the automaton. -/
structure OnePass where
  depth : Nat := 0
  mode : QuoteMode := .outside

namespace OnePass

/-- Reads one character. Parentheses count outside of quotes. -/
def step (state : OnePass) (c : Char) : OnePass where
  mode := state.mode.next c
  depth :=
    if state.mode.frees (some c) then
      if c = '(' then state.depth + 1 else if c = ')' then state.depth - 1 else state.depth
    else state.depth

def after (state : OnePass) (text : List Char) : OnePass := text.foldl step state

/-- Something holds wherever a character of the text is read, given what is read next. -/
def During (holds : OnePass → Option Char → Prop) : OnePass → List Char → Prop
  | _, [] => True
  | state, c :: text => holds state (some c) ∧ During holds (state.step c) text

/-- Something holds wherever a character of the text is read and at its end. -/
def Throughout (holds : OnePass → Option Char → Prop) : OnePass → List Char → Prop
  | state, [] => holds state none
  | state, c :: text => holds state (some c) ∧ Throughout holds (state.step c) text

variable {state : OnePass} {holds other : OnePass → Option Char → Prop} {text more taken rest : List Char}
  {c quote : Char}

theorem after_cons : state.after (c :: text) = (state.step c).after text := rfl

theorem after_append : state.after (text ++ more) = (state.after text).after more := List.foldl_append

theorem during_append :
    During holds state (text ++ more) ↔ During holds state text ∧ During holds (state.after text) more := by
  induction text generalizing state with
  | nil => simp [During, after]
  | cons c text ih => simp only [List.cons_append, During, ih, and_assoc]; rfl

theorem throughout_append :
    Throughout holds state (text ++ more) ↔ During holds state text ∧ Throughout holds (state.after text) more := by
  induction text generalizing state with
  | nil => simp [During, after]
  | cons c text ih => simp only [List.cons_append, Throughout, During, ih, and_assoc]; rfl

theorem During.at {before : List Char} (h : During holds state (before ++ c :: rest)) :
    holds (state.after before) (some c) :=
  (during_append.mp h).2.1

theorem Throughout.at {before : List Char} (h : Throughout holds state (before ++ rest)) :
    holds (state.after before) rest.head? := by
  have left := (throughout_append.mp h).2
  cases rest with
  | nil => exact left
  | cons c rest => exact left.1

theorem During.mono (h : During holds state text) (implies : ∀ state next, holds state next → other state next) :
    During other state text := by
  induction text generalizing state with
  | nil => trivial
  | cons c text ih => exact ⟨implies _ _ h.1, ih h.2⟩

theorem Throughout.mono (h : Throughout holds state text)
    (implies : ∀ state next, holds state next → other state next) :
    Throughout other state text := by
  induction text generalizing state with
  | nil => exact implies _ _ h
  | cons c text ih => exact ⟨implies _ _ h.1, ih h.2⟩

theorem step_of_free (free : state.mode.frees (some c)) : state.step c =
    { depth := if c = '(' then state.depth + 1 else if c = ')' then state.depth - 1 else state.depth
      mode := if isQuote c then .inside c else .outside } := by
  obtain ⟨depth, mode⟩ := state
  rw [step, if_pos free]
  cases mode with
  | outside => rfl
  | closing quote =>
    have other : c ≠ quote := by
      rintro rfl
      exact free rfl
    simp only [QuoteMode.next, if_neg other]
  | inside | escaped => contradiction

theorem step_quote (free : state.mode.frees (some c)) (quote : isQuote c) :
    state.step c = ⟨state.depth, .inside c⟩ := by
  have other : c ≠ '(' ∧ c ≠ ')' := by
    constructor <;> rintro rfl <;> contradiction
  rw [step_of_free free, if_neg other.1, if_neg other.2, if_pos quote]

theorem step_opening (free : state.mode.frees (some '(')) : state.step '(' = ⟨state.depth + 1, .outside⟩ :=
  step_of_free free

theorem step_closing (free : state.mode.frees (some ')')) : state.step ')' = ⟨state.depth - 1, .outside⟩ :=
  step_of_free free

theorem step_plain (free : state.mode.frees (some c)) (quote : ¬ isQuote c) (opening : c ≠ '(') (closing : c ≠ ')') :
    state.step c = ⟨state.depth, .outside⟩ := by
  rw [step_of_free free, if_neg opening, if_neg closing, if_neg quote]

/-- In quotes the depth stays, and no character is read outside. -/
def Quoted (depth : Nat) (state : OnePass) (next : Option Char) : Prop := state.depth = depth ∧ ¬ state.mode.frees next

theorem quoted_inside (depth : Nat) (quote : Char) (next : Option Char) : Quoted depth ⟨depth, .inside quote⟩ next :=
  ⟨rfl, id⟩

theorem quoted_escaped (depth : Nat) (quote : Char) (next : Option Char) : Quoted depth ⟨depth, .escaped quote⟩ next :=
  ⟨rfl, id⟩

theorem quoted_doubled (depth : Nat) (quote : Char) : Quoted depth ⟨depth, .closing quote⟩ (some quote) :=
  ⟨rfl, fun free => free rfl⟩

theorem step_doubled (depth : Nat) (quote : Char) : step ⟨depth, .closing quote⟩ quote = ⟨depth, .inside quote⟩ := by
  simp [step, QuoteMode.frees, QuoteMode.next]

theorem step_close (depth : Nat) (quote : Char) : step ⟨depth, .inside quote⟩ quote = ⟨depth, .closing quote⟩ := by
  simp [step, QuoteMode.frees, QuoteMode.next]

theorem step_escape {quote : Char} (mark : isQuote quote) (hides : escapes quote) (depth : Nat) :
    step ⟨depth, .inside quote⟩ '\\' = ⟨depth, .escaped quote⟩ := by
  have other : '\\' ≠ quote := by
    rintro rfl
    contradiction
  simp [step, QuoteMode.frees, QuoteMode.next, other, hides]

theorem step_body {quote : Char} (other : c ≠ quote) (bare : (escapes quote && c == '\\') = false) (depth : Nat) :
    step ⟨depth, .inside quote⟩ c = ⟨depth, .inside quote⟩ := by
  simp [step, QuoteMode.frees, QuoteMode.next, other, bare]

theorem inside_pair (mark : isQuote quote) (depth : Nat) {c d : Char}
    (pair : (escapes quote && c == '\\' || c == quote && d == quote) = true) :
    ((OnePass.mk depth (.inside quote)).step c).step d = ⟨depth, .inside quote⟩ ∧
      During (Quoted depth) ⟨depth, .inside quote⟩ [c, d] := by
  simp only [Bool.or_eq_true, Bool.and_eq_true, beq_iff_eq] at pair
  rcases pair with ⟨hides, rfl⟩ | ⟨rfl, rfl⟩
  · rw [step_escape mark hides]
    refine ⟨rfl, quoted_inside depth quote _, ?_, trivial⟩
    rw [step_escape mark hides]
    exact quoted_escaped depth quote _
  · rw [step_close, step_doubled]
    refine ⟨rfl, quoted_inside depth d _, ?_, trivial⟩
    rw [step_close]
    exact quoted_doubled depth d

theorem inside_closed (mark : isQuote quote) (depth : Nat) (h : (readToClose quote text).rest? = some rest) :
    ∃ body, text = body ++ rest ∧ (OnePass.mk depth (.inside quote)).after body = ⟨depth, .closing quote⟩ ∧
      rest.head? ≠ some quote ∧ During (Quoted depth) ⟨depth, .inside quote⟩ body := by
  have start := quoted_inside depth quote
  fun_induction readToClose quote text with
  | case1 | case3 | case4 => contradiction
  | case2 c same =>
    obtain rfl := Option.some.inj h
    obtain rfl := beq_iff_eq.mp same
    exact ⟨[c], rfl, step_close depth c, by simp, start _, trivial⟩
  | case5 c d more pair ih =>
    rw [Reply.rest?_after] at h
    obtain ⟨body, rfl, ends, single, quoted⟩ := ih h
    obtain ⟨back, both⟩ := inside_pair mark depth pair
    refine ⟨c :: d :: body, rfl, ?_, single, both.1, both.2.1, ?_⟩
    · change (((OnePass.mk depth (.inside quote)).step c).step d).after body = _
      rw [back, ends]
    · rw [back]
      exact quoted
  | case6 c d more pair same =>
    -- a single quote, which the next character does not double
    obtain rfl := Option.some.inj h
    obtain rfl := beq_iff_eq.mp same
    refine ⟨[c], rfl, step_close depth c, ?_, start _, trivial⟩
    rintro ⟨⟩
    simp at pair
  | case7 c d more pair other ih =>
    rw [Reply.rest?_after] at h
    obtain ⟨body, split, ends, single, quoted⟩ := ih h
    simp only [Bool.not_eq_true, Bool.or_eq_false_iff] at pair
    have stays := step_body (c := c) (by simpa using other) pair.1 depth
    refine ⟨c :: body, by rw [split]; rfl, ?_, single, start _, ?_⟩
    · change ((OnePass.mk depth (.inside quote)).step c).after body = _
      rw [stays, ends]
    · rw [stays]
      exact quoted

theorem inside_unclosed (mark : isQuote quote) (depth : Nat) (h : (readToClose quote text).rest? = none) :
    Throughout (Quoted depth) ⟨depth, .inside quote⟩ text := by
  have start := quoted_inside depth quote
  fun_induction readToClose quote text with
  | case1 => exact start _
  | case2 | case6 => contradiction
  | case3 c other escape =>
    obtain ⟨hides, same⟩ := Bool.and_eq_true_iff.mp escape
    obtain rfl := beq_iff_eq.mp same
    refine ⟨start _, ?_⟩
    rw [step_escape mark hides]
    exact quoted_escaped depth quote _
  | case4 c other bare =>
    refine ⟨start _, ?_⟩
    rw [step_body (by simpa using other) (by simpa using bare)]
    exact start _
  | case5 c d more pair ih =>
    rw [Reply.rest?_after] at h
    obtain ⟨back, both⟩ := inside_pair mark depth pair
    refine ⟨both.1, both.2.1, ?_⟩
    rw [back]
    exact ih h
  | case7 c d more pair other ih =>
    rw [Reply.rest?_after] at h
    simp only [Bool.not_eq_true, Bool.or_eq_false_iff] at pair
    refine ⟨start _, ?_⟩
    rw [step_body (by simpa using other) pair.1]
    exact ih h

/-- Where a literal is leapt over, the automaton is in quotes until it has read all of it. -/
theorem literal_over (free : state.mode.frees text.head?) (jump : Leap.literals.over? text = some rest) :
    ∃ c body, isQuote c ∧ text = c :: (body ++ rest) ∧ state.after (c :: body) = ⟨state.depth, .closing c⟩ ∧
      rest.head? ≠ some c ∧ During (Quoted state.depth) (state.step c) body := by
  cases text with
  | nil => contradiction
  | cons c text =>
    change literalRest? (c :: text) = some rest at jump
    rw [literalRest?] at jump
    split at jump
    case isTrue mark =>
      obtain ⟨body, rfl, ends, single, quoted⟩ := inside_closed mark state.depth jump
      have enters := step_quote free mark
      rw [← enters] at ends quoted
      exact ⟨c, body, mark, rfl, ends, single, quoted⟩
    case isFalse => contradiction

theorem literal_none (free : state.mode.frees (some c)) (mark : isQuote c)
    (stays : Leap.literals.over? (c :: text) = none) :
    Throughout (Quoted state.depth) (state.step c) text := by
  change literalRest? (c :: text) = none at stays
  rw [literalRest?, if_pos mark] at stays
  rw [step_quote free mark]
  exact inside_unclosed mark state.depth stays

/-- The next character is read inside of a group. -/
def Deep (state : OnePass) (_next : Option Char) : Prop := 0 < state.depth

/-- The next character is read outside of groups and quotes. -/
def Top (state : OnePass) (next : Option Char) : Prop := state.depth = 0 ∧ state.mode.frees next

theorem top_start (next : Option Char) : Top {} next := ⟨rfl, trivial⟩

theorem not_top_of_deep {next : Option Char} (h : Deep state next) : ¬ Top state next := fun top => Nat.ne_of_gt h top.1

theorem deep_of_quoted {state inner : OnePass} {next : Option Char} (deep : 0 < state.depth)
    (h : Quoted state.depth inner next) : Deep inner next := by
  rw [Deep, h.1]
  exact deep

theorem group_closed {depth : Nat} (free : state.mode.frees text.head?) (deep : state.depth = depth + 1)
    (h : groupEnd? .literals depth text = some rest) :
    ∃ body, text = body ++ rest ∧ state.after body = {} ∧ During Deep state body := by
  have inside : 0 < state.depth := by omega
  -- on the search for the end, which counts the groups inside of this one: the automaton counts this one as well
  fun_induction groupEnd? Leap.literals depth text generalizing state with
  | case1 | case3 => contradiction
  | case2 depth c text after jump ih =>
    obtain ⟨d, literal, mark, split, ends, single, quoted⟩ := literal_over free jump
    obtain ⟨rfl, rfl⟩ := List.cons.inj split
    obtain ⟨body, rfl, back, during⟩ := @ih ⟨state.depth, .closing c⟩ single deep h inside
    rw [← ends] at back during
    refine ⟨c :: literal ++ body, by simp, ?_, during_append.mpr ⟨⟨inside, ?_⟩, during⟩⟩
    · rw [after_append, back]
    · exact quoted.mono fun _ _ => deep_of_quoted inside
  | case4 depth text jump quote ih =>
    obtain ⟨body, rfl, back, during⟩ :=
      @ih ⟨state.depth + 1, .outside⟩ trivial (by simp [deep]) h (Nat.succ_pos _)
    rw [← step_opening free] at back during
    exact ⟨'(' :: body, rfl, back, inside, during⟩
  | case5 text jump quote opens =>
    obtain rfl := Option.some.inj h
    refine ⟨[')'], rfl, ?_, inside, trivial⟩
    rw [after_cons, step_closing free, deep]
    rfl
  | case6 text outer jump quote opens ih =>
    obtain ⟨body, rfl, back, during⟩ :=
      @ih ⟨state.depth - 1, .outside⟩ trivial (by simp [deep]) h (by simp [deep])
    rw [← step_closing free] at back during
    exact ⟨')' :: body, rfl, back, inside, during⟩
  | case7 depth c text jump quote opens closes ih =>
    obtain ⟨body, rfl, back, during⟩ := @ih ⟨state.depth, .outside⟩ trivial deep h inside
    rw [← step_plain free quote opens closes] at back during
    exact ⟨c :: body, rfl, back, inside, during⟩

theorem group_unclosed {depth : Nat} (free : state.mode.frees text.head?) (deep : state.depth = depth + 1)
    (h : groupEnd? .literals depth text = none) : Throughout Deep state text := by
  have inside : 0 < state.depth := by omega
  fun_induction groupEnd? Leap.literals depth text generalizing state with
  | case1 => exact inside
  | case2 depth c text after jump ih =>
    obtain ⟨d, literal, mark, split, ends, single, quoted⟩ := literal_over free jump
    obtain ⟨rfl, rfl⟩ := List.cons.inj split
    have left := @ih ⟨state.depth, .closing c⟩ single deep h inside
    rw [← ends] at left
    have passed : During Deep state (c :: literal) := ⟨inside, quoted.mono fun _ _ => deep_of_quoted inside⟩
    exact throughout_append.mpr ⟨passed, left⟩
  | case3 depth c text jump quote =>
    exact ⟨inside, (literal_none free quote jump).mono fun _ _ => deep_of_quoted inside⟩
  | case4 depth text jump quote ih =>
    have left := @ih ⟨state.depth + 1, .outside⟩ trivial (by simp [deep]) h (Nat.succ_pos _)
    rw [← step_opening free] at left
    exact ⟨inside, left⟩
  | case5 => contradiction
  | case6 text outer jump quote opens ih =>
    have left := @ih ⟨state.depth - 1, .outside⟩ trivial (by simp [deep]) h (by simp [deep])
    rw [← step_closing free] at left
    exact ⟨inside, left⟩
  | case7 depth c text jump quote opens closes ih =>
    have left := @ih ⟨state.depth, .outside⟩ trivial deep h inside
    rw [← step_plain free quote opens closes] at left
    exact ⟨inside, left⟩

/-- A group as the automaton sees it: it begins with a parenthesis, and the automaton is back at its start at its end
and never before. -/
structure IsGroup (taken : List Char) : Prop where
  opens : taken.head? = some '('
  returns : after {} taken = {}
  first : ∀ before c rest, taken = before ++ c :: rest → before ≠ [] → 0 < (after {} before).depth

/-- Where a group is leapt over, the automaton is in it until it has read all of it. -/
theorem groups_over (top : Top state text.head?) (jump : Leap.literals.groups.over? text = some rest) :
    ∃ body, text = '(' :: (body ++ rest) ∧ state.after ('(' :: body) = {} ∧ During Deep (state.step '(') body := by
  simp only [Leap.groups] at jump
  split at jump
  case h_1 inner =>
    have enters := step_opening top.2
    rw [top.1] at enters
    obtain ⟨body, rfl, back, during⟩ := @group_closed ⟨1, .outside⟩ _ _ _ trivial rfl jump
    rw [← enters] at back during
    exact ⟨body, rfl, back, during⟩
  case h_2 => contradiction

theorem groups_none (top : Top state (some '(')) (stays : Leap.literals.groups.over? ('(' :: text) = none) :
    Throughout Deep (state.step '(') text := by
  rw [step_opening top.2, top.1]
  exact group_unclosed trivial rfl stays

theorem IsGroup.of_during {body : List Char} (back : after {} ('(' :: body) = {})
    (deep : During Deep (step {} '(') body) :
    IsGroup ('(' :: body) where
  opens := rfl
  returns := back
  first := by
    intro before c rest split nonempty
    obtain ⟨d, before, rfl⟩ := List.exists_cons_of_ne_nil nonempty
    obtain ⟨rfl, rfl⟩ := List.cons.inj split
    exact deep.at

theorem IsGroup.nonempty (h : IsGroup taken) : taken ≠ [] := by
  rintro rfl
  exact nomatch h.opens

/-- Two beginnings of a text of which neither goes on into the other are the same. -/
theorem eq_of_not_longer {other left : List Char} (same : taken ++ rest = other ++ left)
    (h : ∀ c more, other ≠ taken ++ c :: more) (converse : ∀ c more, taken ≠ other ++ c :: more) : taken = other := by
  rcases List.append_eq_append_iff.mp same with ⟨more, longer, -⟩ | ⟨more, longer, -⟩
  · cases more with
    | nil => simpa using longer.symm
    | cons c more => exact absurd longer (h c more)
  · cases more with
    | nil => simpa using longer
    | cons c more => exact absurd longer (converse c more)

theorem IsGroup.not_longer {other : List Char} (h : IsGroup taken) (again : IsGroup other) (c : Char)
    (more : List Char) :
    other ≠ taken ++ c :: more := by
  rintro rfl
  have deep := again.first taken c more rfl h.nonempty
  rw [h.returns] at deep
  exact absurd deep (by decide)

/-- A text is taken up to a rest: up to the first of some separators that is read at a level, or up to a character that
opens something that is never left, or else to its end. -/
structure EndsAt (level : OnePass → Option Char → Prop) (separators openings : List Char)
    (taken rest : List Char) : Prop where
  passes : ∀ before c more, taken = before ++ c :: more → c ∈ separators → ¬ level (after {} before) (some c)
  reached : level (after {} taken) rest.head?
  ends : rest = [] ∨ (∃ c left, rest = c :: left ∧ c ∈ separators) ∨
    ∃ c left, rest = c :: left ∧ c ∈ openings ∧
      ∀ inner more, left = inner ++ more → ¬ level (after {} (taken ++ c :: inner)) more.head?

/-- A leap goes over what leads away from a level and back to it. -/
structure Follows (leap : Leap) (level : OnePass → Option Char → Prop) (separators openings : List Char) : Prop where
  leaps : ∀ {state text rest}, level state text.head? → leap.over? text = some rest →
    ∃ c piece, c ∈ openings ∧ text = c :: (piece ++ rest) ∧ level (after state (c :: piece)) rest.head? ∧
      During (fun state next => ¬ level state next) (step state c) piece
  stays : ∀ {state c text}, level state (some c) → c ∈ openings → leap.over? (c :: text) = none →
    Throughout (fun state next => ¬ level state next) (step state c) text
  plain : ∀ {state c}, level state (some c) → c ∉ openings → c ∉ separators → ∀ next, level (step state c) next

section Scan

variable {leap : Leap} {level : OnePass → Option Char → Prop} {stops separators openings : List Char}

/-- A scan takes what the automaton passes over at its level. -/
theorem Follows.scan (h : Follows leap level separators openings)
    (known : ∀ c, c ∈ stops ↔ c ∈ separators ∨ c ∈ openings)
    (apart : ∀ c ∈ openings, c ∉ separators) (start : level state text.head?) :
    ∃ taken, text = taken ++ scan leap stops text ∧
      During (fun state next => (∃ c ∈ separators, next = some c) → ¬ level state next) state taken ∧
      level (state.after taken) (scan leap stops text).head? := by
  -- on the scan: what it leaps over leads back to the level, and what it passes over does not leave it
  fun_induction Sql.scan leap stops text generalizing state with
  | case1 => exact ⟨[], rfl, trivial, start⟩
  | case2 c text after jump ih =>
    obtain ⟨d, piece, opening, split, back, away⟩ := h.leaps start jump
    obtain ⟨rfl, rfl⟩ := List.cons.inj split
    obtain ⟨taken, rest, passes, reached⟩ := ih back
    refine ⟨c :: piece ++ taken, ?_, ?_, ?_⟩
    · rw [List.append_assoc, ← rest]
      rfl
    · rw [during_append]
      refine ⟨⟨?_, away.mono fun _ _ away _ => away⟩, passes⟩
      rintro ⟨d, separator, ⟨⟩⟩
      exact absurd separator (apart c opening)
    · rw [after_append]
      exact reached
  | case3 c text jump stop => exact ⟨[], rfl, trivial, start⟩
  | case4 c text jump plain ih =>
    rw [known, not_or] at plain
    obtain ⟨taken, rest, passes, reached⟩ := ih (h.plain start plain.2 plain.1 _)
    refine ⟨c :: taken, by rw [List.cons_append, ← rest], ⟨?_, passes⟩, reached⟩
    rintro ⟨d, separator, ⟨⟩⟩
    exact absurd separator plain.1

theorem Follows.endsAt (h : Follows leap level separators openings)
    (known : ∀ c, c ∈ stops ↔ c ∈ separators ∨ c ∈ openings)
    (apart : ∀ c ∈ openings, c ∉ separators) (start : ∀ next, level {} next) (text : List Char) :
    ∃ taken, text = taken ++ Sql.scan leap stops text ∧
      EndsAt level separators openings taken (Sql.scan leap stops text) := by
  obtain ⟨taken, split, passes, reached⟩ := h.scan known apart (start text.head?)
  refine ⟨taken, split, ?_, reached, ?_⟩
  · rintro before c more rfl separator
    exact passes.at ⟨c, separator, rfl⟩
  cases found : Sql.scan leap stops text with
  | nil => exact .inl rfl
  | cons c left =>
    obtain ⟨stop, jump⟩ := mem_stops_of_scan found
    rcases (known c).mp stop with separator | opening
    · exact .inr (.inl ⟨c, left, rfl, separator⟩)
    · rw [found] at reached
      refine .inr (.inr ⟨c, left, rfl, opening, ?_⟩)
      rintro inner more rfl
      rw [after_append]
      exact (h.stays reached opening jump).at

theorem EndsAt.not_longer {other left : List Char} (h : EndsAt level separators openings taken rest)
    (again : EndsAt level separators openings other left) (same : taken ++ rest = other ++ left) (d : Char)
    (more : List Char) :
    other ≠ taken ++ d :: more := by
  rintro rfl
  rw [List.append_assoc, List.append_cancel_left_eq, List.cons_append] at same
  -- where the shorter text ends, the longer one would pass a separator, or would come back from what is never left
  rcases h.ends with rfl | ⟨c, after, rfl, separator⟩ | ⟨c, after, rfl, opening, never⟩
  · contradiction
  · obtain ⟨rfl, -⟩ := List.cons.inj same
    exact again.passes taken c more rfl separator h.reached
  · obtain ⟨rfl, rfl⟩ := List.cons.inj same
    exact never more left rfl again.reached

/-- What a grammar reads is known from where the automaton ends. -/
theorem Follows.read_iff {grammar : Grammar} (h : Follows leap level separators openings)
    (known : ∀ c, c ∈ stops ↔ c ∈ separators ∨ c ∈ openings)
    (apart : ∀ c ∈ openings, c ∉ separators) (start : ∀ next, level {} next)
    (reads : grammar.Reads text [] (Sql.scan leap stops text)) :
    grammar.read text = .ok [] taken rest ↔ text = taken ++ rest ∧ EndsAt level separators openings taken rest := by
  obtain ⟨found, split, ends⟩ := h.endsAt known apart start text
  generalize Sql.scan leap stops text = left at split ends reads
  subst split
  rw [reads.read_eq, Reply.ok.injEq]
  constructor
  · rintro ⟨-, rfl, rfl⟩
    exact ⟨rfl, ends⟩
  · rintro ⟨same, again⟩
    obtain rfl := eq_of_not_longer same (ends.not_longer again same) (again.not_longer ends same.symm)
    exact ⟨rfl, rfl, List.append_cancel_left same⟩

end Scan

/-- The next character is read outside of quotes. -/
def Free (state : OnePass) (next : Option Char) : Prop := state.mode.frees next

def quotes : List Char := ['\x27', '\x22', '\x60']

theorem isQuote_iff_mem : isQuote c ↔ c ∈ quotes := by
  simp [isQuote, quotes, or_assoc]

theorem literals_follow_free : Follows .literals Free [';'] quotes where
  leaps := by
    intro state text rest free jump
    obtain ⟨c, body, mark, split, ends, single, quoted⟩ := literal_over free jump
    refine ⟨c, body, isQuote_iff_mem.mp mark, split, ?_, quoted.mono fun _ _ h => h.2⟩
    rw [Free, ends]
    exact single
  stays := by
    intro state c text free mark stays
    exact (literal_none free (isQuote_iff_mem.mpr mark) stays).mono fun _ _ h => h.2
  plain := by
    intro state c free mark _ next
    rw [Free, step_of_free free, if_neg (isQuote_iff_mem.not.mpr mark)]
    trivial

theorem withGroups_follow_top : Follows Leap.literals.withGroups Top [',', ')'] ('(' :: quotes) where
  leaps := by
    intro state text rest top jump
    rcases Option.or_eq_some_iff.mp jump with jump | ⟨-, jump⟩
    · obtain ⟨body, split, back, inner⟩ := groups_over top jump
      refine ⟨'(', body, List.mem_cons_self, split, ?_, inner.mono fun _ _ => not_top_of_deep⟩
      rw [back]
      exact top_start _
    · obtain ⟨c, body, mark, split, ends, single, quoted⟩ := literal_over top.2 jump
      refine ⟨c, body, List.mem_cons_of_mem _ (isQuote_iff_mem.mp mark), split, ?_,
        quoted.mono fun _ _ h top => h.2 top.2⟩
      rw [Top, ends]
      exact ⟨top.1, single⟩
  stays := by
    intro state c text top mark stays
    obtain ⟨group, literal⟩ := Option.or_eq_none_iff.mp stays
    rcases List.mem_cons.mp mark with rfl | mark
    · exact (groups_none top group).mono fun _ _ => not_top_of_deep
    · exact (literal_none top.2 (isQuote_iff_mem.mpr mark) literal).mono fun _ _ h top => h.2 top.2
  plain := by
    intro state c top mark separator next
    simp only [List.mem_cons, not_or] at mark separator
    rw [Top, step_plain top.2 (isQuote_iff_mem.not.mpr (by simpa [quotes] using mark.2)) mark.1 separator.2.1]
    exact ⟨top.1, trivial⟩

/-- A group is read if and only if the automaton comes back to the top at some place after an opening parenthesis. -/
theorem group_reads_iff : (∃ nodes rest, Grammar.group.Reads text nodes rest) ↔
    text.head? = some '(' ∧ ∃ taken rest, text = taken ++ rest ∧ taken ≠ [] ∧ Top (after {} taken) rest.head? := by
  constructor
  · rintro ⟨nodes, rest, reads⟩
    obtain ⟨body, rfl, back, -⟩ := groups_over (top_start _) (Leap.groups_describes.over_eq reads)
    refine ⟨rfl, '(' :: body, rest, rfl, List.cons_ne_nil _ _, ?_⟩
    rw [back]
    exact top_start _
  · rintro ⟨opens, taken, rest, rfl, nonempty, top⟩
    obtain ⟨c, taken, rfl⟩ := List.exists_cons_of_ne_nil nonempty
    obtain rfl := Option.some.inj opens
    cases jump : Leap.literals.groups.over? ('(' :: taken ++ rest) with
    | some left => exact ⟨[], left, (Leap.groups_describes _).reads (Nat.le_refl _) jump⟩
    | none =>
      have deep : Throughout Deep (step {} '(') (taken ++ rest) := groups_none (top_start _) jump
      exact absurd top (not_top_of_deep deep.at)

theorem group_read_iff : Grammar.group.read text = .ok [] taken rest ↔ text = taken ++ rest ∧ IsGroup taken := by
  have ends {nodes : List Node} {left : List Char} (reads : Grammar.group.Reads text nodes left) :
      ∃ found, text = found ++ left ∧ IsGroup found := by
    obtain ⟨body, rfl, back, deep⟩ := groups_over (top_start _) (Leap.groups_describes.over_eq reads)
    exact ⟨'(' :: body, rfl, .of_during back deep⟩
  constructor
  · intro found
    obtain ⟨other, rfl, group⟩ := ends ⟨taken, found⟩
    have split := Grammar.group.read_splits (other ++ rest)
    rw [found] at split
    obtain rfl := List.append_cancel_right (show other ++ rest = taken ++ rest from split)
    exact ⟨rfl, group⟩
  · rintro ⟨rfl, group⟩
    have opens : (taken ++ rest).head? = some '(' := by
      rw [List.head?_append, group.opens]
      rfl
    have top : Top (after {} taken) rest.head? := by
      rw [group.returns]
      exact top_start _
    -- some group is read, and no group begins another one
    obtain ⟨nodes, left, reads⟩ := group_reads_iff.mpr ⟨opens, taken, rest, rfl, group.nonempty, top⟩
    obtain ⟨found, split, again⟩ := ends reads
    obtain rfl := eq_of_not_longer split (group.not_longer again) (again.not_longer group)
    obtain rfl := List.append_cancel_left split
    obtain rfl := reads.nodes_eq_nil rfl
    exact reads.read_eq

theorem statementTail_read_iff : Grammar.statementTail.read text = .ok [] taken rest ↔
    text = taken ++ rest ∧ EndsAt Free [';'] quotes taken rest :=
  literals_follow_free.read_iff (fun _ => by simp [statementStops, quotes]) (Text.forall_among (by decide))
    (fun _ => trivial)
    (statementTail_reads text)

theorem definitionTail_read_iff : Grammar.definitionTail.read text = .ok [] taken rest ↔
    text = taken ++ rest ∧ EndsAt Top [',', ')'] ('(' :: quotes) taken rest :=
  withGroups_follow_top.read_iff (fun _ => by simp [definitionStops, quotes]; grind)
    (Text.forall_among (by decide)) top_start
    (definitionTail_reads text)

/-- Groups, statements and keys are read up to where the automaton finds their ends. A group may have no end, and is
missed then. The other two are read in every text. -/
theorem read_up_to_ends (text taken rest : List Char) :
    ((∃ nodes rest, Grammar.group.Reads text nodes rest) ↔
      text.head? = some '(' ∧ ∃ taken rest, text = taken ++ rest ∧ taken ≠ [] ∧ Top (after {} taken) rest.head?) ∧
    (Grammar.group.read text = .ok [] taken rest ↔ text = taken ++ rest ∧ IsGroup taken) ∧
    (∃ rest, Grammar.statementTail.Reads text [] rest) ∧
    (Grammar.statementTail.read text = .ok [] taken rest ↔ text = taken ++ rest ∧ EndsAt Free [';'] quotes taken rest) ∧
    (∃ rest, Grammar.definitionTail.Reads text [] rest) ∧
    (Grammar.definitionTail.read text = .ok [] taken rest ↔
      text = taken ++ rest ∧ EndsAt Top [',', ')'] ('(' :: quotes) taken rest) :=
  ⟨group_reads_iff, group_read_iff, ⟨_, statementTail_reads text⟩, statementTail_read_iff,
    ⟨_, definitionTail_reads text⟩, definitionTail_read_iff⟩

end OnePass

end DdlModels.Sql
