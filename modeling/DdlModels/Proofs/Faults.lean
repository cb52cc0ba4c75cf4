import DdlModels.Proofs.Closing
import DdlModels.Proofs.Continued
import DdlModels.Proofs.Steps

/-!
# Where faults are

A script that cannot be read has its fault at an end of the source, and the message quotes the text from there. All
that the grammar cuts has a name, right inside the cut or around it, so that a failure never comes without one
(`Grammar.read_labelled`): what is missing is one of six things, or else a quote stands there that is never closed.
-/

namespace DdlModels.Sql

/-- What can be missing, as messages word it. -/
def wordings : List String :=
  ["table name", "column or key definition", "',' or ')'", "data type", "default value", "comment string"]

def Errors.Named (errors : Errors) : Prop := errors.expected?.isSome

theorem Errors.named_of_context (errors : Errors) (place : List Char) (what : String) :
    Errors.Named (errors ++ [(place, .context what)]) := by
  rw [Errors.Named, Errors.expected?, List.findSome?_append, Option.isSome_or]
  exact Bool.or_eq_true_iff.mpr (.inr rfl)

theorem Errors.Within.expected_mem {errors : Errors} {text : List Char} {names : List String} {what : String}
    (h : errors.Within text names) (expected : errors.expected? = some what) : what ∈ names := by
  obtain ⟨error, mem, named⟩ := List.exists_of_findSome?_eq_some expected
  exact h.names error mem what named

/-- Where there are errors, a name is among them. -/
def Failure.Named : Failure → Prop
  | incomplete => True
  | errors known => known.Named

theorem Reply.context_named (reply : Reply) (what : String) (place : List Char) :
    (reply.context what place).Obeys (fun _ _ _ => True) Errors.Named Failure.Named := by
  cases reply with
  | ok nodes taken rest => trivial
  | miss errors => exact errors.named_of_context place what
  | fail failure =>
    cases failure with
    | incomplete => trivial
    | errors errors => exact errors.named_of_context place what

namespace Grammar

/-- Whether all that is cut has a name, right inside the cut or somewhere around it. -/
def labelled : Grammar → Bool
  | .lexeme _ | .group | .context _ _ | .cut (.context _ _) => true
  | .seq first second | .choice first second | .butNot first second | .branch _ first second =>
    first.labelled && second.labelled
  | .optional part | .many part | .leaf _ part | .trimmedLeaf _ part => part.labelled
  | .cut _ => false

/-- No failure of a labelled grammar is without a name. -/
theorem read_labelled {grammar : Grammar} (h : grammar.labelled) (text : List Char) :
    (grammar.read text).Obeys (fun _ _ _ => True) (fun _ => True) Failure.Named := by
  induction grammar generalizing text with
  | lexeme piece => exact (piece.read_halts text).mono (fun _ => trivial) (fun _ _ => trivial) fun _ => False.elim
  | group =>
    cases found : readGroup text with
    | fail failure => exact absurd found (readGroup_ne_fail text failure)
    | _ => simp [read, readWith, found, Reply.Obeys]
  | seq first second ihf ihs =>
    have both := Bool.and_eq_true_iff.mp h
    exact (ihf both.1 text).andThen fun _ => ihs both.2 _
  | choice first second ihf ihs =>
    have both := Bool.and_eq_true_iff.mp h
    have chosen := read_choice first second text
    refine chosen ▸ (ihf both.1 text).orElse ((ihs both.2 text).alt fun _ _ => trivial)
  | optional part ih =>
    rw [read_optional]
    exact (ih h text).orElse trivial
  | many part ih =>
    apply readMany_obeys text (ih h)
    case none | stuck => exact fun _ => trivial
    case join => exact fun _ others => others
  | butNot barred part ihb ihp =>
    have both := Bool.and_eq_true_iff.mp h
    rw [read_butNot]
    exact (ihb both.1 text).bar trivial (ihp both.2 text)
  | cut part =>
    cases part with
    -- the name stands right inside the cut, and what has none there is not labelled
    | context what part => exact ((part.read text).context_named what text).cut fun _ named => named
    | _ => contradiction
  | context what part =>
    exact ((part.read text).context_named what text).mono id (fun _ _ => trivial) fun _ => id
  | leaf kind part ih => exact (ih h text).gather id
  | trimmedLeaf kind part ih => exact (ih h text).gather id
  | branch kind name body ihn ihb =>
    have both := Bool.and_eq_true_iff.mp h
    exact (ihn both.1 text).branch fun _ => ihb both.2 _

end Grammar

theorem Unclosed.never_closes {text : List Char} (h : Unclosed text) :
    ∃ quote ∈ ['\x27', '\x22', '\x60'], ∃ inner, text = quote :: inner ∧
      ∀ rest, ¬ ClosesBefore quote inner rest := by
  obtain ⟨c, inner, rfl, quote, open_end⟩ := h
  have marks : ∀ d ∈ ['\x27', '\x22', '\x60'], d ≠ '\\' := Text.forall_among (by decide)
  have mark : c ∈ ['\x27', '\x22', '\x60'] := by simpa [isQuote, or_assoc] using quote
  refine ⟨c, mark, inner, rfl, ?_⟩
  intro rest closes
  rw [literalRest?, if_pos quote, closes.readToClose (marks c mark)] at open_end
  exact absurd open_end (Option.some_ne_none rest)

/-- What a fault tells: something that has a name is missing, or a quote is never closed. -/
def Fault.Telling : Fault → Prop
  | failed failure => failure.Named
  | unterminatedLiteral rest => Unclosed rest

namespace Script

open Grammar

variable {text : List Char} {fault : Fault}

/-- A statement that takes nothing stands before a quote that is never closed. -/
theorem unclosed_of_stuck {start : List Char} (nonempty : start ≠ []) (visible : ∀ left, start ≠ ';' :: left)
    (stuck : ∀ nodes c taken left, statementTail.read start ≠ .ok nodes (c :: taken) left) : Unclosed start := by
  obtain ⟨taken, reads⟩ := statementTail_reads start
  obtain rfl : taken = [] := by
    cases taken with
    | nil => rfl
    | cons c taken => exact absurd reads (stuck _ _ _ _)
  have split := statementTail.read_splits start
  rw [reads] at split
  have stays : start = scan Leap.literals statementStops start := split
  obtain ⟨c, inner, rfl⟩ := List.exists_cons_of_ne_nil nonempty
  obtain ⟨stops, jump⟩ := mem_stops_of_scan stays.symm
  have quotes : ∀ d ∈ statementStops, d ≠ ';' → isQuote d := Text.forall_among (by decide)
  refine ⟨c, inner, rfl, quotes c stops ?_, jump⟩
  rintro rfl
  exact visible inner rfl

theorem telling_of_halted (h : next text = .halted fault) : fault.Telling := by
  have labelled := read_labelled (by decide : tableStatement.labelled) (skipBlanks text)
  rw [next_eq_step] at h
  revert h
  fun_cases step text with
  | case4 failure _ _ found =>
    rintro ⟨⟩
    -- the statement that creates a table has failed
    rwa [found] at labelled
  | case6 _ nonempty visible missed stuck =>
    rintro ⟨⟩
    -- another statement takes nothing
    exact unclosed_of_stuck nonempty visible stuck
  | _ => simp

theorem fault_telling (h : (readFrom text).fault = some fault) : fault.Telling := by
  obtain ⟨_, -, halted⟩ := halted_of_fault h
  exact telling_of_halted halted

/-- A fault is a quote in the text that is never closed, or the failure to find one of the six things that have a
name, of which the first error is at an end of the text. -/
theorem fault_cases (h : (readFrom text).fault = some fault) :
    (∃ place kind outer, fault = .failed (.errors ((place, kind) :: outer)) ∧ place <:+ text ∧
      ∃ what ∈ wordings, Errors.expected? ((place, kind) :: outer) = some what) ∨
    ∃ rest, fault = .unterminatedLiteral rest ∧ rest <:+ text ∧ Unclosed rest := by
  have within := fault_within h
  have telling := fault_telling h
  cases fault with
  | unterminatedLiteral rest => exact .inr ⟨rest, rfl, within, telling⟩
  | failed failure =>
    obtain ⟨errors, rfl, within⟩ := within
    obtain ⟨what, expected⟩ := Option.isSome_iff_exists.mp (show errors.expected?.isSome from telling)
    have known := (by decide : tableStatement.names ⊆ wordings) (within.expected_mem expected)
    obtain ⟨⟨place, kind⟩, outer, rfl⟩ := List.exists_cons_of_ne_nil within.nonempty
    exact .inl ⟨place, kind, outer, rfl, within.suffix _ List.mem_cons_self, what, known, expected⟩

end Script

theorem parse_eq_error_iff {source : String} {error : ParseError} :
    parse source = .error error ↔
      ∃ fault, (readScript source).fault = some fault ∧ error = fault.report source.toList := by
  rw [parse, Script.tree]
  cases (readScript source).fault with
  | none => simp
  | some fault => simp [eq_comm]

theorem byteSize_pos {text : List Char} (h : text ≠ []) : 0 < Text.byteSize text :=
  Nat.lt_of_lt_of_le (List.length_pos_iff.mpr h) (Text.length_le_byteSize text)

/-- An error points at `rest`, which comes after `before` in the source: its position is the number of bytes before
it, and its message says what is expected there, or that a quote which opens there is never closed. -/
structure ParseError.PointsAt (error : ParseError) (source before rest : List Char) : Prop where
  split : source = before ++ rest
  position : error.position = Text.byteSize before
  message :
    (rest ≠ [] ∧ ∃ what ∈ wordings,
      error.message = "expected " ++ what ++ " near '" ++ Text.excerpt rest ++ "'") ∨
    (rest = [] ∧ ∃ what ∈ wordings, error.message = "expected " ++ what ++ " at end of input") ∨
    (error.message = "unterminated literal near '" ++ Text.excerpt rest ++ "'" ∧
      ∃ quote ∈ ['\x27', '\x22', '\x60'], ∃ inner, rest = quote :: inner ∧
        ∀ left, ¬ ClosesBefore quote inner left)

namespace ParseError

variable {error : ParseError} {source before rest : List Char}

theorem PointsAt.bounds (h : error.PointsAt source before rest) :
    error.position ≤ Text.byteSize source ∧ (error.position = Text.byteSize source ↔ rest = []) := by
  have size : Text.byteSize source = error.position + Text.byteSize rest := by
    rw [h.split, Text.byteSize_append, h.position]
  constructor
  · omega
  · constructor
    · intro ended
      by_contra more
      have := byteSize_pos more
      omega
    · rintro rfl
      exact size.symm

theorem PointsAt.hints (h : error.PointsAt source before rest) :
    ¬ "unexpected".toList <+: error.message.toList ∧ error.message ≠ "parse failed" := by
  have starts : "expected ".toList <+: error.message.toList ∨ "unterminated".toList <+: error.message.toList := by
    rcases h.message with ⟨-, what, -, message⟩ | ⟨-, what, -, message⟩ | ⟨message, -⟩
    · exact .inl (by simp [message])
    · exact .inl (by simp [message])
    · exact .inr (by simp [message])
  constructor
  · intro unexpected
    rcases starts with other | other
    · exact absurd (List.prefix_of_prefix_length_le other unexpected (by decide)) (by decide)
    · exact absurd (List.prefix_of_prefix_length_le unexpected other (by decide)) (by decide)
  · intro failed
    rw [failed] at starts
    exact absurd starts (by decide)

end ParseError

/-- The report of a fault points at its place. -/
theorem Fault.report_points {fault : Fault} {text : List Char} (h : (Script.readFrom text).fault = some fault) :
    ∃ before rest, (fault.report text).PointsAt text before rest := by
  rcases Script.fault_cases h with
    ⟨rest, kind, outer, rfl, ⟨before, split⟩, what, known, expected⟩ | ⟨rest, rfl, ⟨before, split⟩, unclosed⟩
  · subst split
    rw [report, Failure.report, expected, ParseError.at_append]
    refine ⟨before, rest, rfl, rfl, ?_⟩
    cases rest with
    | nil => exact .inr (.inl ⟨rfl, what, known, rfl⟩)
    | cons c rest => exact .inl ⟨List.cons_ne_nil c rest, what, known, rfl⟩
  · subst split
    rw [report, ParseError.at_append]
    exact ⟨before, rest, rfl, rfl, .inr (.inr ⟨rfl, unclosed.never_closes⟩)⟩

/-- Errors point at their place. An error is found between two characters of the source, at its end only if
nothing is left, and its message is about what follows there. -/
theorem parse_error_points {source : String} {error : ParseError} (h : parse source = .error error) :
    (∃ before rest, error.PointsAt source.toList before rest ∧
      error.position ≤ Text.byteSize source.toList ∧
      (error.position = Text.byteSize source.toList ↔ rest = [])) ∧
    ¬ "unexpected".toList <+: error.message.toList ∧ error.message ≠ "parse failed" := by
  obtain ⟨fault, found, rfl⟩ := parse_eq_error_iff.mp h
  obtain ⟨before, rest, points⟩ := Fault.report_points found
  exact ⟨⟨before, rest, points, points.bounds⟩, points.hints⟩

/-- A quote that is hidden by a backslash does not close, nor do two in a row. -/
theorem unclosed_quote_is_pointed_at :
    parse "INSERT INTO é VALUES ('it\\'s; x''" = .error ⟨23, "unterminated literal near ''it\\'s; x'''"⟩ ∧
    ∃ before rest, (⟨23, "unterminated literal near ''it\\'s; x'''"⟩ : ParseError).PointsAt
      "INSERT INTO é VALUES ('it\\'s; x''".toList before rest ∧ rest ≠ [] := by
  have fault : (readScript "INSERT INTO é VALUES ('it\\'s; x''").fault =
      some (.unterminatedLiteral "'it\\'s; x''".toList) := by decide +kernel
  have failed : parse "INSERT INTO é VALUES ('it\\'s; x''" =
      .error ⟨23, "unterminated literal near ''it\\'s; x'''"⟩ :=
    parse_eq_error_iff.mpr ⟨_, fault, by decide +kernel⟩
  obtain ⟨⟨before, rest, points, -, ended⟩, -⟩ := parse_error_points failed
  refine ⟨failed, before, rest, points, ?_⟩
  rw [Ne, ← ended]
  decide +kernel

end DdlModels.Sql
