import DdlModels.Proofs.Quoting
import DdlModels.Proofs.Written

/-!
# Reading written values

Groups, literals and numbers are read whole where a gap follows them, and trimming leaves them as they
are.
-/

namespace DdlModels.Written

open Sql Text Grammar

namespace Group

theorem over_eq (group : Group) : Leap.literals.groups.over? group.text = some [] :=
  Leap.groups_describes.over_eq ⟨group.text, group.closed⟩

theorem reads (group : Group) (rest : List Char) : Grammar.group.Reads (group.text ++ rest) [] rest := by
  have jump := Leap.groups_append group.over_eq rest
  exact (Leap.groups_describes _).reads (Nat.le_refl _) jump

theorem text_eq (group : Group) : ∃ inner, group.text = '(' :: inner ∧ groupEnd? .literals 0 inner = some [] := by
  have jump := group.over_eq
  simp only [Leap.groups] at jump
  split at jump
  case h_1 inner whole => exact ⟨inner, whole, jump⟩
  case h_2 => contradiction

end Group

private theorem trim_of_ends {a b : Char} {inner : List Char} (ha : isBlank a = false)
    (hb : isBlank b = false) : trim (a :: (inner ++ [b])) = a :: (inner ++ [b]) := by
  refine trim_eq_self ?_ ?_
  · intro c hc
    obtain rfl := Option.some.inj hc
    exact ha
  · intro c hc
    rw [← List.cons_append, List.getLast?_concat] at hc
    obtain rfl := Option.some.inj hc
    exact hb

theorem Group.trim_text (group : Group) : trim group.text = group.text := by
  obtain ⟨inner, whole, closed⟩ := group.text_eq
  obtain ⟨body, rfl, -⟩ := groupEnd?_parts closed
  rw [whole]
  exact trim_of_ends rfl rfl

namespace Literal

theorem text_eq (literal : Literal) :
    ∃ inner, literal.text = '\x27' :: (inner ++ ['\x27']) ∧
      literalRest? literal.text = some [] := by
  have closed := literal.closed
  change readQuoted '\x27' literal.text = _ at closed
  cases text : literal.text with
  | nil => simp [text, readQuoted] at closed
  | cons c inner =>
    rw [text, readQuoted] at closed
    split at closed
    case isTrue same =>
      obtain rfl : c = '\x27' := by simpa using same
      obtain ⟨more, found, -⟩ := Reply.after_eq_ok closed
      have jump : literalRest? ('\x27' :: inner) = some [] := by
        rw [literalRest?, found]
        rfl
      obtain ⟨quote, body, -, whole⟩ := literalRest?_eq_some jump
      obtain ⟨rfl, rfl⟩ := List.cons.inj whole
      exact ⟨body, rfl, jump⟩
    case isFalse => contradiction

theorem reads (literal : Literal) {rest : List Char} (h : StartsGap rest) :
    (quoted '\x27').Reads (literal.text ++ rest) [] rest := by
  obtain ⟨inner, whole, jump⟩ := literal.text_eq
  have apart : ∀ c ∈ rest.head?, isQuote c = false := by
    have all : ∀ c ∈ gapStarts, isQuote c = false := forall_among (by decide)
    intro c hc
    exact all c (h c hc)
  have longer := literalRest?_append jump (.inr apart)
  rw [whole, List.cons_append, literalRest?, if_pos (show isQuote '\x27' from rfl)] at longer
  rw [whole, List.cons_append]
  exact quoted_reads longer

theorem trim_text (literal : Literal) : trim literal.text = literal.text := by
  obtain ⟨inner, whole, -⟩ := literal.text_eq
  rw [whole]
  exact trim_of_ends rfl rfl

end Literal

private theorem digits_reads {text rest : List Char} (h : Digits text)
    (stop : ∀ c ∈ rest.head?, c.isDigit = false) : Grammar.digits.Reads (text ++ rest) [] rest :=
  ⟨text, readRun_until h.1 h.2 stop⟩

private theorem sign_reads {sign rest : List Char} (h : Sign sign)
    (stop : ∀ c ∈ rest.head?, c ≠ '+' ∧ c ≠ '-') : Grammar.sign.Reads (sign ++ rest) [] rest := by
  simp only [Sign, List.mem_cons, List.not_mem_nil, or_false] at h
  rcases h with rfl | rfl | rfl
  · refine Misses.optional (Misses.choice ?_ ?_)
    · exact symbol_misses_head fun hc => (stop _ hc).1 rfl
    · exact symbol_misses_head fun hc => (stop _ hc).2 rfl
  · exact (symbol_reads '+' rest).orElse.optional
  · exact ((symbol_misses (by decide) rest).orElse (symbol_reads '-' rest)).optional

private theorem Digits.head {text : List Char} (h : Digits text) (rest : List Char) :
    ∃ c more, text ++ rest = c :: more ∧ c.isDigit := by
  obtain ⟨c, more, rfl⟩ := List.exists_cons_of_ne_nil h.1
  exact ⟨c, more ++ rest, rfl, h.2 c List.mem_cons_self⟩

private theorem not_sign_of_isDigit {c : Char} (h : c.isDigit) : c ≠ '+' ∧ c ≠ '-' := by
  constructor
  · rintro rfl
    contradiction
  · rintro rfl
    contradiction

private theorem Exponent.reads {exponent rest : List Char} (h : Exponent exponent)
    (gap : StartsGap rest) :
    (Grammar.optional ((symbol 'e' <|> symbol 'E') ++ sign ++ .cut Grammar.digits)).Reads
      (exponent ++ rest) [] rest := by
  have starts : ∀ c ∈ gapStarts, c.isDigit = false ∧ c ≠ 'e' ∧ c ≠ 'E' := forall_among (by decide)
  cases h with
  | none =>
    refine Misses.optional (Misses.seq_first (Misses.seq_first (Misses.choice ?_ ?_)))
    · exact symbol_misses_head fun hc => (starts _ (gap _ hc)).2.1 rfl
    · exact symbol_misses_head fun hc => (starts _ (gap _ hc)).2.2 rfl
  | @power mark signs digits hmark hsign hdigits =>
    have marked : (symbol 'e' <|> symbol 'E').Reads (mark :: (signs ++ (digits ++ rest))) []
        (signs ++ (digits ++ rest)) := by
      simp only [List.mem_cons, List.not_mem_nil, or_false] at hmark
      rcases hmark with rfl | rfl
      · exact (symbol_reads 'e' _).orElse
      · exact (symbol_misses (by decide) _).orElse (symbol_reads 'E' _)
    have signed : sign.Reads (signs ++ (digits ++ rest)) [] (digits ++ rest) := by
      refine sign_reads hsign ?_
      obtain ⟨d, more, whole, hd⟩ := hdigits.head rest
      intro c hc
      rw [whole] at hc
      obtain rfl := Option.some.inj hc
      exact not_sign_of_isDigit hd
    have counted := digits_reads hdigits fun c hc => (starts c (gap c hc)).1
    rw [List.cons_append, List.append_assoc]
    exact ((marked.seq signed).seq counted.cut).optional

private theorem Mantissa.reads {mantissa rest : List Char} (h : Mantissa mantissa)
    (stop : ∀ c ∈ rest.head?, c.isDigit = false ∧ c ≠ '.') :
    (Grammar.digits ++ .optional (symbol '.' ++ .optional Grammar.digits) <|>
      symbol '.' ++ Grammar.digits).Reads (mantissa ++ rest) [] rest := by
  have dot (text : List Char) : ∀ c ∈ ('.' :: text).head?, c.isDigit = false := by
    intro c hc
    obtain rfl := Option.some.inj hc
    rfl
  cases h with
  | whole hdigits =>
    have whole := digits_reads hdigits fun c hc => (stop c hc).1
    have none : (symbol '.').Misses rest := symbol_misses_head fun hc => (stop _ hc).2 rfl
    exact (whole.seq none.seq_first.optional).orElse
  | @point digits places hdigits hplaces =>
    have whole := digits_reads hdigits (dot (places ++ rest))
    have fraction : (Grammar.optional Grammar.digits).Reads (places ++ rest) [] rest := by
      by_cases none : places = []
      · subst none
        exact (digits_misses fun c hc => (stop c hc).1).optional
      · exact (digits_reads ⟨none, hplaces⟩ fun c hc => (stop c hc).1).optional
    rw [List.append_assoc, List.cons_append]
    exact (whole.seq ((symbol_reads '.' _).seq fraction).optional).orElse
  | @fraction places hplaces =>
    have fraction := digits_reads hplaces fun c hc => (stop c hc).1
    rw [List.cons_append]
    exact (digits_misses (dot _)).seq_first.orElse ((symbol_reads '.' _).seq fraction)

namespace Number

private theorem mantissa_head (number : Number) :
    ∃ c more, number.mantissa = c :: more ∧ (c.isDigit ∨ c = '.') := by
  obtain ⟨-, mantissa, -, -, decimal, -⟩ := number
  have start {digits : List Char} (h : Digits digits) : ∃ c more, digits = c :: more ∧ c.isDigit := by
    obtain ⟨c, more, rfl⟩ := List.exists_cons_of_ne_nil h.1
    exact ⟨c, more, rfl, h.2 c List.mem_cons_self⟩
  cases decimal with
  | whole h =>
    obtain ⟨c, more, rfl, hc⟩ := start h
    exact ⟨c, more, rfl, .inl hc⟩
  | point h _ =>
    obtain ⟨c, more, rfl, hc⟩ := start h
    exact ⟨c, _, rfl, .inl hc⟩
  | fraction _ => exact ⟨'.', _, rfl, .inr rfl⟩

private theorem exponent_head (number : Number) {rest : List Char} (gap : StartsGap rest) :
    ∀ c ∈ (number.exponent ++ rest).head?, c.isDigit = false ∧ c ≠ '.' := by
  have starts : ∀ c ∈ gapStarts, c.isDigit = false ∧ c ≠ '.' := forall_among (by decide)
  have marks : ∀ c ∈ ['e', 'E'], c.isDigit = false ∧ c ≠ '.' := forall_among (by decide)
  obtain ⟨-, -, exponent, -, -, scaled⟩ := number
  cases scaled with
  | none => exact fun c hc => starts c (gap c hc)
  | power hmark _ _ =>
    intro c hc
    obtain rfl := Option.some.inj hc
    exact marks _ hmark

theorem reads (number : Number) {rest : List Char} (gap : StartsGap rest) :
    Grammar.number.Reads (number.text ++ rest) [] rest := by
  have signed : Grammar.sign.Reads (number.sign ++ (number.mantissa ++ (number.exponent ++ rest))) []
      (number.mantissa ++ (number.exponent ++ rest)) := by
    refine sign_reads number.signed ?_
    obtain ⟨d, more, whole, hd⟩ := number.mantissa_head
    intro c hc
    rw [whole] at hc
    obtain rfl := Option.some.inj hc
    rcases hd with hd | rfl
    · exact not_sign_of_isDigit hd
    · decide
  have valued := number.decimal.reads (number.exponent_head gap)
  have scaled := number.scaled.reads gap
  have text : number.text ++ rest =
      number.sign ++ (number.mantissa ++ (number.exponent ++ rest)) := by
    simp only [Number.text, List.append_assoc]
  rw [text]
  exact (signed.seq valued).seq scaled

def mayHold (c : Char) : Bool := c.isDigit || ['+', '-', '.', 'e', 'E'].contains c

theorem chars (number : Number) : ∀ c ∈ number.text, mayHold c := by
  have digit {digits : List Char} (h : ∀ c ∈ digits, c.isDigit) : ∀ c ∈ digits, mayHold c := by
    intro c hc
    simp [mayHold, h c hc]
  have sign {signs : List Char} (h : Sign signs) : ∀ c ∈ signs, mayHold c := by
    simp only [Sign, List.mem_cons, List.not_mem_nil, or_false] at h
    rcases h with rfl | rfl | rfl <;> exact forall_among (by decide)
  have mantissa {text : List Char} (h : Mantissa text) : ∀ c ∈ text, mayHold c := by
    cases h with
    | whole h => exact digit h.2
    | point h places =>
      intro c hc
      rcases List.mem_append.mp hc with hc | hc
      · exact digit h.2 c hc
      · rcases List.mem_cons.mp hc with rfl | hc
        · rfl
        · exact digit places c hc
    | fraction h =>
      intro c hc
      rcases List.mem_cons.mp hc with rfl | hc
      · rfl
      · exact digit h.2 c hc
  have exponent {text : List Char} (h : Exponent text) : ∀ c ∈ text, mayHold c := by
    cases h with
    | none => simp
    | power mark signed digits =>
      intro c hc
      rcases List.mem_cons.mp hc with rfl | hc
      · have marks : ∀ c ∈ ['e', 'E'], mayHold c = true := forall_among (by decide)
        exact marks _ mark
      · rcases List.mem_append.mp hc with hc | hc
        · exact sign signed c hc
        · exact digit digits.2 c hc
  intro c hc
  rcases List.mem_append.mp hc with hc | hc
  · exact sign number.signed c hc
  · rcases List.mem_append.mp hc with hc | hc
    · exact mantissa number.decimal c hc
    · exact exponent number.scaled c hc

theorem plain_of_mayHold {c : Char} (h : mayHold c) :
    isBlank c = false ∧ isQuote c = false ∧ c ≠ '(' ∧ c ≠ '#' ∧ c ≠ '/' ∧ isSpace c = false := by
  have ascii : c.toNat < 128 := by
    simp only [mayHold, Bool.or_eq_true, List.contains_eq_mem, decide_eq_true_eq] at h
    rcases h with h | h
    · exact ascii_of_isDigit h
    · have all : ∀ c ∈ ['+', '-', '.', 'e', 'E'], c.toNat < 128 := forall_among (by decide)
      exact all c h
  have all : mayHold c →
      isBlank c = false ∧ isQuote c = false ∧ c ≠ '(' ∧ c ≠ '#' ∧ c ≠ '/' ∧ isSpace c = false :=
    forall_ascii (P := fun c => mayHold c →
      isBlank c = false ∧ isQuote c = false ∧ c ≠ '(' ∧ c ≠ '#' ∧ c ≠ '/' ∧ isSpace c = false)
      (by decide) ascii
  exact all h

theorem text_ne_nil (number : Number) : number.text ≠ [] := by
  obtain ⟨c, more, whole, -⟩ := number.mantissa_head
  simp [Number.text, whole]

theorem trim_text (number : Number) : trim number.text = number.text :=
  trim_eq_self_of_all fun c hc => (plain_of_mayHold (number.chars c hc)).1

private theorem head (number : Number) (rest : List Char) :
    ∃ c more, number.text ++ rest = c :: more ∧ mayHold c ∧ (c = '-' → more.head? ≠ some '-') := by
  have chars := number.chars
  obtain ⟨d, more, whole, hd⟩ := number.mantissa_head
  have minus : d ≠ '-' := by
    rcases hd with hd | rfl
    · exact (not_sign_of_isDigit hd).2
    · decide
  have sign := number.signed
  simp only [Sign, List.mem_cons, List.not_mem_nil, or_false] at sign
  simp only [Number.text, whole] at chars ⊢
  rcases sign with sign | sign | sign
  · rw [sign] at chars ⊢
    exact ⟨d, _, rfl, chars d List.mem_cons_self, fun same => absurd same minus⟩
  · rw [sign] at chars ⊢
    exact ⟨'+', _, rfl, rfl, by simp⟩
  · rw [sign] at chars ⊢
    refine ⟨'-', _, rfl, rfl, ?_⟩
    simpa using minus

theorem visible (number : Number) (rest : List Char) : blank.Misses (number.text ++ rest) := by
  obtain ⟨c, more, whole, hc, apart⟩ := number.head rest
  have plain := plain_of_mayHold hc
  rw [whole]
  have start := refuses_at c more
  have spaces : (Grammar.lexeme .spaces).Misses (c :: more) :=
    misses_of_blocked start (by simp [blocked, refusedAt, plain])
  have block : (Grammar.lexeme .blockComment).Misses (c :: more) :=
    misses_of_blocked start (by simp [blocked, refusedAt, plain])
  refine spaces.choice (Misses.choice ⟨[(c :: more, .tag), (c :: more, .alt)], ?_⟩ block)
  change readLineComment (c :: more) = _
  rw [readLineComment]
  · rintro left ⟨rfl, rfl⟩
    exact apart rfl rfl
  · rintro left ⟨rfl, -⟩
    exact plain.2.2.2.1 rfl

end Number

private theorem optional_word_reads (text : List Char) :
    (Grammar.optional word).Reads text [] (text.dropWhile isWordChar) := by
  by_cases empty : (text.takeWhile isWordChar).isEmpty
  · have same : text.dropWhile isWordChar = text := by
      cases text with
      | nil => rfl
      | cons c text =>
        by_cases hc : isWordChar c
        · simp [hc] at empty
        · simp [hc]
    rw [same]
    refine Misses.optional ⟨[(text, .takeWhile1)], ?_⟩
    change readRun .takeWhile1 isWordChar text = _
    simp [readRun, empty]
  · refine Reads.optional ⟨text.takeWhile isWordChar, ?_⟩
    change readRun .takeWhile1 isWordChar text = _
    simp [readRun, empty]

private theorem stringLiteral_misses {text : List Char} (h : ∀ c ∈ text.head?, isQuote c = false) :
    stringLiteral.Misses text := by
  have misses {quote : Char} (hquote : isQuote quote) : (quoted quote).Misses text := by
    apply quoted_misses_head
    intro here
    rw [h quote here] at hquote
    contradiction
  exact (misses rfl).choice (misses rfl)

private theorem number_not_literal (number : Number) {rest : List Char} (gap : StartsGap rest) :
    (Grammar.optional word ++ stringLiteral).Misses (number.text ++ rest) := by
  refine (optional_word_reads _).seq_misses (stringLiteral_misses ?_)
  have starts : ∀ c ∈ gapStarts, isQuote c = false ∧ isWordChar c = false := forall_among (by decide)
  intro c hc
  rw [List.dropWhile_append] at hc
  split at hc
  case isTrue =>
    have same : rest.dropWhile isWordChar = rest := by
      cases rest with
      | nil => rfl
      | cons d rest => simp [(starts d (gap d rfl)).2]
    rw [same] at hc
    exact (starts c (gap c hc)).1
  case isFalse inside =>
    have mem : c ∈ number.text.dropWhile isWordChar := by
      cases left : number.text.dropWhile isWordChar with
      | nil => simp [left] at inside
      | cons d left' =>
        rw [left] at hc
        obtain rfl := Option.some.inj hc
        exact List.mem_cons_self
    have whole := (List.dropWhile_suffix isWordChar).mem mem
    exact (Number.plain_of_mayHold (number.chars c whole)).2.1

namespace Value

theorem reads (written : Value) {rest : List Char} (gap : StartsGap rest) :
    Grammar.value.Reads (written.text ++ rest) [] rest := by
  cases written with
  | literal written =>
    obtain ⟨inner, whole, -⟩ := written.text_eq
    have read := written.reads gap
    change Grammar.value.Reads (written.text ++ rest) [] rest
    rw [whole] at read ⊢
    have start := refuses_at '\x27' (inner ++ ['\x27'] ++ rest)
    have none : (Grammar.optional word).Reads ('\x27' :: (inner ++ ['\x27'] ++ rest)) []
        ('\x27' :: (inner ++ ['\x27'] ++ rest)) := reads_of_idle start (by decide)
    exact (misses_of_blocked start (by decide)).orElse (none.seq read.orElse).orElse
  | number written =>
    obtain ⟨c, more, whole, hc, -⟩ := written.head rest
    have not_group : Grammar.group.Misses (written.text ++ rest) := by
      rw [whole]
      refine misses_of_blocked (refuses_at c more) ?_
      simpa [blocked, refusedAt] using (Number.plain_of_mayHold hc).2.2.1
    exact not_group.orElse ((number_not_literal written gap).orElse (written.reads gap).orElse)
  | group written => exact (written.reads rest).orElse

theorem visible (written : Value) (rest : List Char) : blank.Misses (written.text ++ rest) := by
  cases written with
  | literal written =>
    obtain ⟨inner, whole, -⟩ := written.text_eq
    change blank.Misses (written.text ++ rest)
    rw [whole]
    exact misses_of_blocked (refuses_at _ _) (by decide)
  | number written => exact written.visible rest
  | group written =>
    obtain ⟨inner, whole, -⟩ := written.text_eq
    change blank.Misses (written.text ++ rest)
    rw [whole]
    exact misses_of_blocked (refuses_at _ _) (by decide)

theorem trim_text (written : Value) : trim written.text = written.text := by
  cases written with
  | literal written => exact written.trim_text
  | number written => exact written.trim_text
  | group written => exact written.trim_text

theorem text_ne_nil (written : Value) : written.text ≠ [] := by
  cases written with
  | literal written =>
    obtain ⟨inner, whole, -⟩ := written.text_eq
    change written.text ≠ []
    rw [whole]
    exact List.cons_ne_nil _ _
  | number written => exact written.text_ne_nil
  | group written =>
    obtain ⟨inner, whole, -⟩ := written.text_eq
    change written.text ≠ []
    rw [whole]
    exact List.cons_ne_nil _ _

end Value

end DdlModels.Written
