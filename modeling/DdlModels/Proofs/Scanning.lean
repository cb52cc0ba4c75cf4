import DdlModels.Proofs.Stopping
import DdlModels.Sql.TableDefinition

/-!
# Scanning

Where a statement, a key of a table or a group ends is found by scanning its characters one by one. Only
some pieces are leapt over, such as texts in quotes. What the grammar reads there ends where such a scan
ends.
-/

namespace DdlModels.Sql

def Reply.rest? : Reply → Option (List Char)
  | .ok _ _ rest => some rest
  | _ => none

def isQuote (c : Char) : Bool := c == '\x27' || c == '\x22' || c == '\x60'

/-- A rule that leaps over some piece at the beginning of a text. -/
structure Leap where
  over? : List Char → Option (List Char)
  shortens : ∀ {text rest}, over? text = some rest → rest.length < text.length

/-- Leaps over a text in quotes, if it is closed. -/
def literalRest? : List Char → Option (List Char)
  | [] => none
  | c :: rest => if isQuote c then (readToClose c rest).rest? else none

theorem readToClose_closes {quote : Char} {text taken rest : List Char} {nodes : List Node}
    (h : readToClose quote text = .ok nodes taken rest) : ∃ inner, taken = inner ++ [quote] := by
  fun_induction readToClose quote text generalizing taken with
  | case1 | case3 | case4 => contradiction
  | case2 c same =>
    obtain ⟨-, rfl, -⟩ := Reply.ok.inj h
    exact ⟨[], by simpa using same⟩
  | case5 c d rest' _ ih =>
    obtain ⟨more, found, rfl⟩ := Reply.after_eq_ok h
    obtain ⟨inner, rfl⟩ := ih found
    exact ⟨c :: d :: inner, rfl⟩
  | case6 c d rest' _ same =>
    obtain ⟨-, rfl, -⟩ := Reply.ok.inj h
    exact ⟨[], by simpa using same⟩
  | case7 c d rest' _ _ ih =>
    obtain ⟨more, found, rfl⟩ := Reply.after_eq_ok h
    obtain ⟨inner, rfl⟩ := ih found
    exact ⟨c :: inner, rfl⟩

theorem literalRest?_eq_some {text rest : List Char} (h : literalRest? text = some rest) :
    ∃ quote inner, isQuote quote ∧ text = quote :: (inner ++ quote :: rest) := by
  cases text with
  | nil => contradiction
  | cons c text =>
    rw [literalRest?] at h
    split at h
    case isTrue quote =>
      have split := readToClose_splits c text
      cases found : readToClose c text with
      | ok nodes taken left =>
        rw [found] at split h
        obtain rfl : left = rest := Option.some.inj h
        obtain ⟨inner, rfl⟩ := readToClose_closes found
        refine ⟨c, inner, quote, ?_⟩
        rw [show text = inner ++ [c] ++ left from split, List.append_assoc]
        rfl
      | miss | fail => simp [found, Reply.rest?] at h
    case isFalse => contradiction

namespace Leap

def literals : Leap where
  over? := literalRest?
  shortens := by
    intro text rest h
    obtain ⟨quote, inner, -, rfl⟩ := literalRest?_eq_some h
    simp only [List.length_cons, List.length_append]
    omega

def ofLexeme (piece : Lexeme) (advances : piece.advances) : Leap where
  over? text := (piece.read text).rest?
  shortens := by
    intro text rest h
    cases found : piece.read text with
    | ok nodes taken left =>
      rw [found] at h
      obtain rfl := Option.some.inj h
      exact Reply.length_lt found (piece.read_splits text) (Lexeme.read_advances advances text)
    | miss | fail => simp [found, Reply.rest?] at h

def orElse (first second : Leap) : Leap where
  over? text := (first.over? text).or (second.over? text)
  shortens := by
    intro text rest h
    rcases Option.or_eq_some_iff.mp h with h | ⟨-, h⟩
    · exact first.shortens h
    · exact second.shortens h

end Leap

/-- What is left after the parenthesis that closes a group, when so many groups are open inside it. -/
def groupEnd? (leap : Leap) (depth : Nat) (text : List Char) : Option (List Char) :=
  match text with
  | [] => none
  | c :: rest =>
    match _over : leap.over? (c :: rest) with
    | some after => groupEnd? leap depth after
    | none =>
      if isQuote c then none
      else if c = '(' then groupEnd? leap (depth + 1) rest
      else if c = ')' then
        match depth with
        | 0 => some rest
        | outer + 1 => groupEnd? leap outer rest
      else groupEnd? leap depth rest
termination_by text.length
decreasing_by
  · exact leap.shortens _over
  all_goals simp

/-- The text from the first character that stops a scan. -/
def scan (leap : Leap) (stops : List Char) (text : List Char) : List Char :=
  match text with
  | [] => []
  | c :: rest =>
    match _over : leap.over? (c :: rest) with
    | some after => scan leap stops after
    | none => if c ∈ stops then c :: rest else scan leap stops rest
termination_by text.length
decreasing_by
  · exact leap.shortens _over
  · simp

section Steps

variable {leap : Leap} {c : Char} {rest after : List Char} {depth : Nat} {stops : List Char}

theorem groupEnd?_leap (h : leap.over? (c :: rest) = some after) :
    groupEnd? leap depth (c :: rest) = groupEnd? leap depth after := by
  rw [groupEnd?.eq_def]
  simp only
  split
  case h_1 other jump => rw [Option.some.inj (h.symm.trans jump)]
  case h_2 jump => simp [jump] at h

theorem groupEnd?_char (h : leap.over? (c :: rest) = none) :
    groupEnd? leap depth (c :: rest) =
      if isQuote c then none
      else if c = '(' then groupEnd? leap (depth + 1) rest
      else if c = ')' then
        match depth with
        | 0 => some rest
        | outer + 1 => groupEnd? leap outer rest
      else groupEnd? leap depth rest := by
  rw [groupEnd?.eq_def]
  simp only
  split
  case h_1 other jump => simp [h] at jump
  case h_2 jump => rfl

theorem scan_leap (h : leap.over? (c :: rest) = some after) :
    scan leap stops (c :: rest) = scan leap stops after := by
  rw [scan.eq_def]
  simp only
  split
  case h_1 other jump => rw [Option.some.inj (h.symm.trans jump)]
  case h_2 jump => simp [jump] at h

theorem scan_over {text : List Char} (h : leap.over? text = some after) :
    scan leap stops text = scan leap stops after := by
  cases text with
  | nil =>
    have shorter := leap.shortens h
    simp at shorter
  | cons c rest => exact scan_leap h

theorem scan_char (h : leap.over? (c :: rest) = none) :
    scan leap stops (c :: rest) = if c ∈ stops then c :: rest else scan leap stops rest := by
  rw [scan.eq_def]
  simp only
  split
  case h_1 other jump => simp [h] at jump
  case h_2 jump => rfl

theorem scan_nil : scan leap stops [] = [] := by rw [scan.eq_def]

theorem groupEnd?_nil : groupEnd? leap depth [] = none := by rw [groupEnd?.eq_def]

end Steps

theorem mem_stops_of_scan {leap : Leap} {stops text rest : List Char} {c : Char}
    (h : scan leap stops text = c :: rest) : c ∈ stops ∧ leap.over? (c :: rest) = none := by
  fun_induction scan leap stops text with
  | case1 => contradiction
  | case2 d text after jump ih => exact ih h
  | case3 d text jump stop =>
    obtain ⟨rfl, rfl⟩ := List.cons.inj h
    exact ⟨stop, jump⟩
  | case4 d text jump plain ih => exact ih h

theorem groupEnd?_length {leap : Leap} {depth : Nat} {text rest : List Char}
    (h : groupEnd? leap depth text = some rest) : rest.length < text.length := by
  fun_induction groupEnd? leap depth text with
  | case1 | case3 => contradiction
  | case2 depth c more after jump ih =>
    have := leap.shortens jump
    have := ih h
    omega
  | case4 depth more jump quote ih | case6 more outer jump quote opens ih =>
    have := ih h
    rw [List.length_cons]
    omega
  | case5 more jump quote opens =>
    obtain rfl := Option.some.inj h
    simp
  | case7 depth c more jump quote opens closes ih =>
    have := ih h
    rw [List.length_cons]
    omega

theorem groupEnd?_succ (leap : Leap) (depth : Nat) (text : List Char) :
    groupEnd? leap (depth + 1) text = (groupEnd? leap 0 text).bind (groupEnd? leap depth) := by
  suffices h : ∀ inner, groupEnd? leap (inner + depth + 1) text =
      (groupEnd? leap inner text).bind (groupEnd? leap depth) by simpa using h 0
  intro inner
  fun_induction groupEnd? leap inner text with
  | case1 => rw [groupEnd?_nil]; rfl
  | case2 inner c more after jump ih => rw [groupEnd?_leap jump, ih]
  | case3 inner c more jump quote =>
    rw [groupEnd?_char jump, if_pos quote]
    rfl
  | case4 inner more jump quote ih =>
    rw [groupEnd?_char jump, if_neg quote, if_pos rfl, ← ih]
    congr 1
    omega
  | case5 more jump quote opens =>
    rw [groupEnd?_char jump, if_neg quote, if_neg opens, if_pos rfl]
    simp
  | case6 more outer jump quote opens ih =>
    rw [groupEnd?_char jump, if_neg quote, if_neg opens, if_pos rfl, ← ih]
    have same : outer + 1 + depth = outer + depth + 1 := by omega
    rw [same]
  | case7 inner c more jump quote opens closes ih =>
    rw [groupEnd?_char jump, if_neg quote, if_neg opens, if_neg closes, ih]

/-- A leap goes over what a grammar reads and nowhere else, in texts up to some length. -/
structure Leap.DescribesUpTo (length : Nat) (leap : Leap) (grammar : Grammar) : Prop where
  reads : ∀ {text rest}, text.length ≤ length → leap.over? text = some rest → grammar.Reads text [] rest
  misses : ∀ {text}, text.length ≤ length → leap.over? text = none → grammar.Misses text

/-- A leap goes over what a grammar reads and nowhere else. -/
def Leap.Describes (leap : Leap) (grammar : Grammar) : Prop :=
  ∀ length, leap.DescribesUpTo length grammar

theorem readToClose_ok_or_miss (quote : Char) (text : List Char) :
    (∃ taken rest, readToClose quote text = .ok [] taken rest) ∨
      ∃ errors, readToClose quote text = .miss errors := by
  have halts := readToClose_halts quote text
  have leafless := readToClose_nodes quote text
  cases found : readToClose quote text with
  | ok nodes taken rest =>
    rw [found] at leafless
    obtain rfl : nodes = [] := leafless
    exact .inl ⟨taken, rest, rfl⟩
  | miss errors => exact .inr ⟨errors, rfl⟩
  | fail failure =>
    rw [found] at halts
    contradiction

namespace Grammar

theorem quoted_reads {quote : Char} {text rest : List Char}
    (h : (readToClose quote text).rest? = some rest) : (quoted quote).Reads (quote :: text) [] rest := by
  rcases readToClose_ok_or_miss quote text with ⟨taken, left, found⟩ | ⟨left, missed⟩
  · obtain rfl : left = rest := by simpa [found, Reply.rest?] using h
    refine ⟨quote :: taken, ?_⟩
    change readQuoted quote (quote :: text) = _
    simp [readQuoted, found, Reply.after]
  · simp [missed, Reply.rest?] at h

theorem quoted_misses {quote : Char} {text : List Char}
    (h : (readToClose quote text).rest? = none) : (quoted quote).Misses (quote :: text) := by
  rcases readToClose_ok_or_miss quote text with ⟨taken, left, found⟩ | ⟨left, missed⟩
  · simp [found, Reply.rest?] at h
  · refine ⟨left, ?_⟩
    change readQuoted quote (quote :: text) = _
    simp [readQuoted, missed, Reply.after]

theorem quoted_misses_of_ne {quote c : Char} (h : c ≠ quote) (text : List Char) :
    (quoted quote).Misses (c :: text) := by
  refine ⟨[(c :: text, .char quote)], ?_⟩
  change readQuoted quote (c :: text) = _
  simp [readQuoted, h]

theorem quoted_misses_nil (quote : Char) : (quoted quote).Misses [] := ⟨_, rfl⟩

theorem quoted_misses_head {quote : Char} {text : List Char} (absent : quote ∉ text.head?) :
    (quoted quote).Misses text := by
  cases text with
  | nil => exact quoted_misses_nil quote
  | cons c text =>
    apply quoted_misses_of_ne
    rintro rfl
    exact absent rfl

end Grammar

open Grammar

def Grammar.literal : Grammar := stringLiteral <|> backquoted

theorem Leap.literals_describes : Leap.literals.Describes Grammar.literal := by
  intro length
  constructor
  · intro text rest _ h
    cases text with
    | nil => contradiction
    | cons c text =>
      change literalRest? (c :: text) = some rest at h
      rw [literalRest?] at h
      split at h
      case isTrue quote =>
        simp only [isQuote, Bool.or_eq_true, beq_iff_eq] at quote
        rcases quote with (rfl | rfl) | rfl
        · exact (quoted_reads h).orElse.orElse
        · exact (Misses.orElse (quoted_misses_of_ne (by decide) _) (quoted_reads h)).orElse
        · exact Misses.orElse ((quoted_misses_of_ne (by decide) _).choice
            (quoted_misses_of_ne (by decide) _)) (quoted_reads h)
      case isFalse => contradiction
  · intro text _ h
    cases text with
    | nil => exact ((quoted_misses_nil _).choice (quoted_misses_nil _)).choice (quoted_misses_nil _)
    | cons c text =>
      change literalRest? (c :: text) = none at h
      have misses (quote : Char) (hquote : isQuote quote) : (quoted quote).Misses (c :: text) := by
        by_cases same : c = quote
        · subst same
          rw [literalRest?, if_pos hquote] at h
          exact quoted_misses h
        · exact quoted_misses_of_ne same text
      exact ((misses _ rfl).choice (misses _ rfl)).choice (misses _ rfl)

theorem Leap.literals_over_none {c : Char} (h : isQuote c = false) (text : List Char) :
    Leap.literals.over? (c :: text) = none := by
  change literalRest? (c :: text) = none
  rw [literalRest?, h]
  rfl

theorem Leap.DescribesUpTo.choice {length : Nat} {first second : Leap} {one other : Grammar}
    (hfirst : first.DescribesUpTo length one) (hsecond : second.DescribesUpTo length other) :
    (first.orElse second).DescribesUpTo length (one <|> other) := by
  constructor
  · intro text rest bound h
    rcases Option.or_eq_some_iff.mp h with h | ⟨none, h⟩
    · exact (hfirst.reads bound h).orElse
    · exact (hfirst.misses bound none).orElse (hsecond.reads bound h)
  · intro text bound h
    have both := Option.or_eq_none_iff.mp h
    exact (hfirst.misses bound both.1).choice (hsecond.misses bound both.2)

private theorem run_reads {stops : List Char} {c : Char} (h : c ∉ stops) (text : List Char) :
    (run stops).Reads (c :: text) [] (text.dropWhile fun d => !stops.contains d) := by
  refine ⟨c :: text.takeWhile fun d => !stops.contains d, ?_⟩
  change readRun .isNot (fun d => !stops.contains d) (c :: text) = _
  simp [readRun, h]

private theorem run_misses {stops : List Char} {c : Char} (h : c ∈ stops) (text : List Char) :
    (run stops).Misses (c :: text) := by
  refine ⟨[(c :: text, .isNot)], ?_⟩
  change readRun .isNot (fun d => !stops.contains d) (c :: text) = _
  simp [readRun, h]

section Scan

variable {leap : Leap} {stops : List Char}

theorem scan_dropWhile (quiet : ∀ c ∉ stops, ∀ text, leap.over? (c :: text) = none) (text : List Char) :
    scan leap stops (text.dropWhile fun c => !stops.contains c) = scan leap stops text := by
  induction text with
  | nil => rfl
  | cons c text ih =>
    by_cases h : c ∈ stops
    · simp [h]
    · have step : (c :: text).dropWhile (fun c => !stops.contains c) =
          text.dropWhile fun c => !stops.contains c := by simp [h]
      rw [step, ih, scan_char (quiet c h text), if_neg h]

theorem scan_append {before : List Char} (plain : ∀ c ∈ before, c ∉ stops)
    (quiet : ∀ c ∉ stops, ∀ text, leap.over? (c :: text) = none) (text : List Char) :
    scan leap stops (before ++ text) = scan leap stops text := by
  induction before with
  | nil => rfl
  | cons c before ih =>
    have hc := plain c List.mem_cons_self
    rw [List.cons_append, scan_char (quiet c hc _), if_neg hc]
    exact ih fun d hd => plain d (List.mem_cons_of_mem c hd)

/-- A repetition of pieces that are leapt over and of other characters ends where the scan ends. -/
theorem many_reads_scan {part : Grammar} {text : List Char}
    (describes : leap.DescribesUpTo text.length part) (advances : part.advances)
    (quiet : ∀ c ∉ stops, ∀ text, leap.over? (c :: text) = none) :
    (many (part <|> run stops)).Reads text [] (scan leap stops text) := by
  have moves : (part <|> run stops).advances := by
    change (part.advances && true) = true
    rw [advances]
    rfl
  suffices h : ∀ n, ∀ inner : List Char, inner.length = n → n ≤ text.length →
      (many (part <|> run stops)).Reads inner [] (scan leap stops inner) from
    h _ text rfl (Nat.le_refl _)
  intro n
  induction n using Nat.strongRecOn with
  | ind n ih =>
    intro inner hn bound
    cases inner with
    | nil =>
      rw [scan_nil]
      refine Misses.many (Misses.choice (describes.misses (by simp) ?_) ⟨_, rfl⟩)
      cases jump : leap.over? [] with
      | none => rfl
      | some rest => exact absurd (leap.shortens jump) (by simp)
    | cons c inner =>
      have fits : (c :: inner).length ≤ text.length := by omega
      cases jump : leap.over? (c :: inner) with
      | some after =>
        have shorter := leap.shortens jump
        rw [scan_leap jump]
        exact Reads.many (describes.reads fits jump).orElse moves
          (ih _ (by omega) after rfl (by omega))
      | none =>
        rw [scan_char jump]
        by_cases h : c ∈ stops
        · rw [if_pos h]
          exact Misses.many ((describes.misses fits jump).choice (run_misses h inner))
        · rw [if_neg h, ← scan_dropWhile quiet inner]
          have turn := (describes.misses fits jump).orElse (run_reads h inner)
          have shorter := turn.length_lt moves
          exact turn.many moves (ih _ (by omega) _ rfl (by omega))

end Scan

def groupStops : List Char := ['(', ')', '\x27', '\x22', '\x60']

def definitionStops : List Char := [',', '(', ')', '\x27', '\x22', '\x60']

def statementStops : List Char := [';', '\x27', '\x22', '\x60']

def Leap.groups (leap : Leap) : Leap where
  over? text :=
    match text with
    | '(' :: rest => groupEnd? leap 0 rest
    | _ => none
  shortens := by
    intro text rest h
    split at h
    case h_1 inner =>
      have := groupEnd?_length h
      rw [List.length_cons]
      omega
    case h_2 => contradiction

/-- Leaps over groups and over whatever is leapt over inside them. -/
def Leap.withGroups (leap : Leap) : Leap := leap.groups.orElse leap

theorem Leap.groups_over_ne {leap : Leap} {c : Char} (h : c ≠ '(') (text : List Char) :
    leap.groups.over? (c :: text) = none := by
  simp only [groups]
  split
  case h_1 same => exact absurd (List.cons.inj same).1 h
  case h_2 => rfl

theorem not_quote_of_not_mem {c : Char} (h : c ∉ ['\x27', '\x22', '\x60']) : isQuote c = false := by
  simpa [isQuote, and_assoc] using h

theorem Leap.withGroups_over_none {c : Char} (not_open : c ≠ '(') (not_quote : isQuote c = false)
    (text : List Char) : Leap.literals.withGroups.over? (c :: text) = none :=
  Option.or_eq_none_iff.mpr
    ⟨Leap.groups_over_ne not_open text, Leap.literals_over_none not_quote text⟩

private theorem quiet_of_stops {stops : List Char} (opening : '(' ∈ stops)
    (quotes : ∀ c ∈ ['\x27', '\x22', '\x60'], c ∈ stops) :
    ∀ c ∉ stops, ∀ text, Leap.literals.withGroups.over? (c :: text) = none := by
  intro c hc text
  have not_open : c ≠ '(' := by
    rintro rfl
    exact hc opening
  have not_quote : isQuote c = false := not_quote_of_not_mem fun quote => hc (quotes c quote)
  exact Leap.withGroups_over_none not_open not_quote text

theorem definitionStops_quiet :
    ∀ c ∉ definitionStops, ∀ text, Leap.literals.withGroups.over? (c :: text) = none :=
  quiet_of_stops (by decide) (Text.forall_among (by decide))

theorem statementStops_quiet :
    ∀ c ∉ statementStops, ∀ text, Leap.literals.over? (c :: text) = none := by
  intro c hc text
  exact Leap.literals_over_none (not_quote_of_not_mem fun quote => hc (List.mem_cons_of_mem ';' quote)) text

private theorem mem_groupStops_of_isQuote {c : Char} (quote : isQuote c) : c ∈ groupStops := by
  have among : ¬ c ∉ ['\x27', '\x22', '\x60'] := by
    intro absent
    rw [not_quote_of_not_mem absent] at quote
    contradiction
  exact List.mem_cons_of_mem '(' (List.mem_cons_of_mem ')' (not_not.mp among))

theorem groupEnd?_scan (text : List Char) :
    groupEnd? .literals 0 text =
      match scan Leap.literals.withGroups groupStops text with
      | ')' :: rest => some rest
      | _ => none := by
  -- on the length of the text: what is left after a literal or after a group is shorter by more than a character
  induction hn : text.length using Nat.strongRecOn generalizing text with
  | ind n ih =>
    cases text with
    | nil => rw [scan_nil, groupEnd?_nil]
    | cons c text =>
      have deeper (rest : List Char) (shorter : rest.length ≤ text.length) :=
        ih rest.length (by rw [← hn, List.length_cons]; omega) rest rfl
      cases literal : Leap.literals.over? (c :: text) with
      | some after =>
        have shorter := Leap.literals.shortens literal
        have not_group : Leap.literals.groups.over? (c :: text) = none := by
          refine Leap.groups_over_ne ?_ text
          rintro rfl
          simp [Leap.literals_over_none (c := '(') rfl] at literal
        have jump : Leap.literals.withGroups.over? (c :: text) = some after :=
          Option.or_eq_some_iff.mpr (.inr ⟨not_group, literal⟩)
        rw [groupEnd?_leap literal, scan_leap jump]
        exact deeper after (by rw [List.length_cons] at shorter; omega)
      | none =>
        rw [groupEnd?_char literal]
        have over_of_ne (h : c ≠ '(') : Leap.literals.withGroups.over? (c :: text) = none :=
          Option.or_eq_none_iff.mpr ⟨Leap.groups_over_ne h text, literal⟩
        by_cases quote : isQuote c
        · have not_open : c ≠ '(' := by
            rintro rfl
            contradiction
          have not_close : c ≠ ')' := by
            rintro rfl
            contradiction
          rw [if_pos quote, scan_char (over_of_ne not_open), if_pos (mem_groupStops_of_isQuote quote)]
          split
          case h_1 same => exact absurd (List.cons.inj same).1 not_close
          case h_2 => rfl
        · rw [if_neg quote]
          by_cases opens : c = '('
          · subst opens
            rw [if_pos rfl, groupEnd?_succ]
            cases inner : groupEnd? .literals 0 text with
            | some after =>
              have shorter := groupEnd?_length inner
              have jump : Leap.literals.withGroups.over? ('(' :: text) = some after :=
                Option.or_eq_some_iff.mpr (.inl inner)
              rw [scan_leap jump]
              exact deeper after (by omega)
            | none =>
              have jump : Leap.literals.withGroups.over? ('(' :: text) = none :=
                Option.or_eq_none_iff.mpr ⟨inner, literal⟩
              rw [scan_char jump]
              rfl
          · rw [if_neg opens, scan_char (over_of_ne opens)]
            by_cases closes : c = ')'
            · subst closes
              rfl
            · have plain : c ∉ groupStops := by
                simpa [groupStops, isQuote, opens, closes, and_assoc] using quote
              rw [if_neg closes, if_neg plain]
              exact deeper text (Nat.le_refl _)

namespace Grammar

theorem many_congr {part other : Grammar} (h : ∀ text, part.read text = other.read text)
    (text : List Char) : (many part).read text = (many other).read text := by
  rw [read_many, read_many, funext h]

theorem choice_assoc (first second third : Grammar) (text : List Char) :
    ((first <|> second) <|> third).read text = (first <|> second <|> third).read text := by
  simp only [read_choice]
  cases first.read text with
  | miss => cases second.read text <;> cases third.read text <;> rfl
  | _ => rfl

theorem seq_assoc (first second third : Grammar) (text : List Char) :
    ((first ++ second) ++ third).read text = (first ++ (second ++ third)).read text := by
  rw [read_seq, read_seq, read_seq]
  cases first.read text with
  | ok nodes taken rest =>
    simp only [Reply.andThen, read_seq]
    cases second.read rest with
    | ok more inner left =>
      simp only [Reply.after]
      cases third.read left <;> simp
    | miss | fail => rfl
  | miss | fail => rfl

theorem misses_assoc {first second third : Grammar} {text : List Char} :
    (first ++ second ++ third).Misses text ↔ (first ++ (second ++ third)).Misses text := by
  rw [Misses, Misses, seq_assoc]

end Grammar

private theorem pieces_read (stops : List Char) (text : List Char) :
    (many (.group <|> stringLiteral <|> backquoted <|> run stops)).read text =
      (many ((.group <|> literal) <|> run stops)).read text := by
  refine many_congr ?_ text
  intro text
  rw [choice_assoc, read_choice, read_choice .group]
  have same : (stringLiteral <|> backquoted <|> run stops).read text =
      (literal <|> run stops).read text := (choice_assoc _ _ _ text).symm
  rw [same]
  rfl

private theorem pieces_reads {stops : List Char} (opening : '(' ∈ stops)
    (quotes : ∀ c ∈ ['\x27', '\x22', '\x60'], c ∈ stops) {text : List Char}
    (h : Leap.literals.groups.DescribesUpTo text.length .group) :
    (many (.group <|> stringLiteral <|> backquoted <|> run stops)).Reads text []
      (scan Leap.literals.withGroups stops text) := by
  have reads := many_reads_scan (h.choice (Leap.literals_describes text.length)) rfl
    (quiet_of_stops opening quotes)
  obtain ⟨taken, found⟩ := reads
  exact ⟨taken, by rw [pieces_read]; exact found⟩

theorem symbol_reads (c : Char) (text : List Char) : (symbol c).Reads (c :: text) [] text := by
  refine ⟨[c], ?_⟩
  change readSymbol c (c :: text) = _
  simp [readSymbol]

theorem symbol_misses {c d : Char} (h : c ≠ d) (text : List Char) : (symbol d).Misses (c :: text) := by
  refine ⟨[(c :: text, .char d)], ?_⟩
  change readSymbol d (c :: text) = _
  simp [readSymbol, h]

theorem symbol_misses_head {c : Char} {text : List Char} (absent : c ∉ text.head?) : (symbol c).Misses text := by
  cases text with
  | nil => exact ⟨_, rfl⟩
  | cons d text =>
    apply symbol_misses
    rintro rfl
    exact absent rfl

theorem digits_misses {text : List Char} (h : ∀ c ∈ text.head?, c.isDigit = false) : digits.Misses text := by
  refine ⟨[(text, .digit)], ?_⟩
  change readRun .digit Char.isDigit text = _
  cases text with
  | nil => rfl
  | cons c text => simp [readRun, h c rfl]

theorem Grammar.reads_group {text : List Char} {nodes : List Node} {rest : List Char}
    (h : groupBody.Reads text nodes rest) : Grammar.group.Reads text nodes rest := by
  obtain ⟨taken, found⟩ := h
  exact ⟨taken, by rw [read_group, found]⟩

theorem Grammar.misses_group {text : List Char} (h : groupBody.Misses text) :
    Grammar.group.Misses text := by
  obtain ⟨left, missed⟩ := h
  exact ⟨left, by rw [read_group, missed]⟩

theorem Leap.groups_describes : Leap.literals.groups.Describes .group := by
  intro length
  induction length with
  | zero =>
    constructor
    · intro text rest bound h
      have shorter := Leap.literals.groups.shortens h
      omega
    · intro text bound _
      obtain rfl := List.length_eq_zero_iff.mp (Nat.le_zero.mp bound)
      exact misses_group (Misses.seq_first (Misses.seq_first ⟨_, rfl⟩))
  | succ length ih =>
    -- the inside of a group is shorter than the group, so that groups inside it are described already
    have inside (text : List Char) (bound : text.length ≤ length) :
        (many (.group <|> stringLiteral <|> backquoted <|> run groupStops)).Reads text []
          (scan Leap.literals.withGroups groupStops text) := by
      refine pieces_reads (by decide) (Text.forall_among (by decide)) ?_
      exact ⟨fun h => ih.reads (by omega), fun h => ih.misses (by omega)⟩
    constructor
    · intro text rest bound h
      simp only [groups] at h
      split at h
      case h_1 text =>
        rw [groupEnd?_scan] at h
        split at h
        case h_1 left found =>
          obtain rfl := Option.some.inj h
          have reads := inside text (by simpa using bound)
          rw [found] at reads
          exact reads_group (((symbol_reads '(' text).seq reads).seq (symbol_reads ')' left))
        case h_2 => contradiction
      case h_2 => contradiction
    · intro text bound h
      simp only [groups] at h
      split at h
      case h_1 text =>
        rw [groupEnd?_scan] at h
        split at h
        case h_1 => contradiction
        case h_2 open_end =>
          have reads := inside text (by simpa using bound)
          refine misses_group (((symbol_reads '(' text).seq reads).seq_misses ?_)
          cases found : scan Leap.literals.withGroups groupStops text with
          | nil => exact ⟨_, rfl⟩
          | cons c left =>
            refine symbol_misses ?_ left
            rintro rfl
            exact open_end left found
      case h_2 not_open =>
        cases text with
        | nil => exact misses_group (Misses.seq_first (Misses.seq_first ⟨_, rfl⟩))
        | cons c text =>
          refine misses_group (Misses.seq_first (Misses.seq_first (symbol_misses ?_ text)))
          rintro rfl
          exact not_open text rfl

/-- A key of a table ends at a comma or a closing parenthesis outside of groups and quotes. -/
theorem definitionTail_reads (text : List Char) :
    definitionTail.Reads text [] (scan Leap.literals.withGroups definitionStops text) :=
  pieces_reads (by decide) (Text.forall_among (by decide)) (Leap.groups_describes text.length)

/-- A statement ends at a semicolon outside of quotes. -/
theorem statementTail_reads (text : List Char) :
    statementTail.Reads text [] (scan Leap.literals statementStops text) := by
  have reads := many_reads_scan (Leap.literals_describes text.length) rfl statementStops_quiet
  obtain ⟨taken, found⟩ := reads
  refine ⟨taken, ?_⟩
  rw [← found]
  refine many_congr ?_ text
  intro text
  exact (choice_assoc _ _ _ text).symm

end DdlModels.Sql
