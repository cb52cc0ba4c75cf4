import DdlModels.Proofs.Runs
import Mathlib.Computability.Language

/-!
# The protocol of drafts

Tables are opened and closed one after another, and columns in them. The openings and closings that a run accepts
are the beginning of a word of this protocol, and whatever continues such a beginning is accepted.
-/

namespace DdlModels

open scoped Computability

/-- An opening or a closing. -/
inductive Mark where
  | tableStart
  | columnStart
  | columnEnd
  | tableEnd
  deriving DecidableEq, Repr

def Operation.mark? : Operation → Option Mark
  | enterTable _ => some .tableStart
  | enterColumn _ => some .columnStart
  | exitColumn => some .columnEnd
  | exitTable => some .tableEnd
  | _ => none

theorem Operation.mark?_of_sets {operation : Operation} (sets : operation.setsAttribute) : operation.mark? = none := by
  cases operation with
  | enterTable | exitTable | enterColumn | exitColumn => contradiction
  | setType | setDefault | setComment | setNotNull => rfl

/-- Columns, each closed before the next one is opened. -/
def columnProtocol : Language Mark := ({[.columnStart]} * {[.columnEnd]})∗

/-- Tables of such columns, each closed before the next one is opened. -/
def protocol : Language Mark := ({[.tableStart]} * columnProtocol * {[.tableEnd]})∗

/-- What is open. -/
inductive Phase where
  | outside
  | inTable
  | inColumn
  deriving DecidableEq, Repr

namespace Phase

/-- What is open after an opening or a closing, if there may be one. -/
def next? : Phase → Mark → Option Phase
  | outside, .tableStart => some inTable
  | inTable, .columnStart => some inColumn
  | inTable, .tableEnd => some outside
  | inColumn, .columnEnd => some inTable
  | _, _ => none

/-- The words that close what is open, and go on by the protocol. -/
def completions : Phase → Language Mark
  | outside => protocol
  | inTable => columnProtocol * ({[.tableEnd]} * protocol)
  | inColumn => {[.columnEnd]} * (columnProtocol * ({[.tableEnd]} * protocol))

private theorem mem_singleton_mul {mark : Mark} {language : Language Mark} {word : List Mark} :
    word ∈ {[mark]} * language ↔ ∃ rest ∈ language, mark :: rest = word := by
  rw [Language.mem_mul]
  constructor
  · rintro ⟨first, rfl, rest, hrest, rfl⟩
    exact ⟨rest, hrest, rfl⟩
  · rintro ⟨rest, hrest, rfl⟩
    exact ⟨[mark], rfl, rest, hrest, rfl⟩

theorem completions_outside : completions outside = 1 + {[.tableStart]} * completions inTable := by
  calc protocol = 1 + {[.tableStart]} * columnProtocol * {[.tableEnd]} * protocol :=
        (Language.one_add_self_mul_kstar_eq_kstar _).symm
    _ = 1 + {[.tableStart]} * (columnProtocol * ({[.tableEnd]} * protocol)) := by rw [mul_assoc, mul_assoc]

theorem completions_inTable :
    completions inTable = {[.tableEnd]} * completions outside + {[.columnStart]} * completions inColumn := by
  have columns : columnProtocol = 1 + {[.columnStart]} * {[.columnEnd]} * columnProtocol :=
    (Language.one_add_self_mul_kstar_eq_kstar _).symm
  calc columnProtocol * ({[.tableEnd]} * protocol)
      = (1 + {[.columnStart]} * {[.columnEnd]} * columnProtocol) * ({[.tableEnd]} * protocol) := by
        rw [← columns]
    _ = {[.tableEnd]} * protocol +
          {[.columnStart]} * ({[.columnEnd]} * (columnProtocol * ({[.tableEnd]} * protocol))) := by
        rw [add_mul, one_mul, mul_assoc, mul_assoc]

theorem cons_mem_completions {phase : Phase} {mark : Mark} {word : List Mark} :
    mark :: word ∈ phase.completions ↔ ∃ next, phase.next? mark = some next ∧ word ∈ next.completions := by
  cases phase with
  | outside =>
    rw [completions_outside, Language.mem_add, Language.mem_one, mem_singleton_mul]
    cases mark <;> simp [next?]
  | inTable =>
    rw [completions_inTable, Language.mem_add, mem_singleton_mul, mem_singleton_mul]
    cases mark <;> simp [next?]
  | inColumn =>
    rw [completions, mem_singleton_mul]
    cases mark <;> simp [next?, completions]

theorem nil_mem_completions {phase : Phase} : [] ∈ phase.completions ↔ phase = outside := by
  cases phase with
  | outside => exact ⟨fun _ => rfl, fun _ => Language.nil_mem_kstar _⟩
  | inTable =>
    rw [completions_inTable, Language.mem_add, mem_singleton_mul, mem_singleton_mul]
    simp
  | inColumn =>
    rw [completions, mem_singleton_mul]
    simp

theorem exists_mem_completions (phase : Phase) : ∃ word, word ∈ phase.completions := by
  have whole : [] ∈ outside.completions := nil_mem_completions.mpr rfl
  have table : [.tableEnd] ∈ inTable.completions := cons_mem_completions.mpr ⟨outside, rfl, whole⟩
  cases phase with
  | outside => exact ⟨_, whole⟩
  | inTable => exact ⟨_, table⟩
  | inColumn => exact ⟨[.columnEnd, .tableEnd], cons_mem_completions.mpr ⟨inTable, rfl, table⟩⟩

end Phase

namespace Draft

def phase (draft : Draft) : Phase :=
  match draft.openTable, draft.openColumn with
  | none, _ => .outside
  | some _, none => .inTable
  | some _, some _ => .inColumn

/-- The operations of a run that are not refused. -/
def acceptedOf (draft : Draft) (operations : List Operation) : List Operation :=
  ((draft.turns operations).filter Turn.accepted).map Turn.operation

/-- The openings and closings of a run that are not refused. -/
def marks (draft : Draft) (operations : List Operation) : List Mark :=
  (draft.acceptedOf operations).filterMap Operation.mark?

variable {draft next : Draft} {operation : Operation}

theorem Nested.acceptedOf_cons (h : draft.Nested) (operation : Operation) (more : List Operation) :
    ((draft.perform operation).violation.isSome ∧ (draft.perform operation).draft = draft ∧
        draft.acceptedOf (operation :: more) = draft.acceptedOf more) ∨
      ∃ next, draft.Takes operation next ∧ (draft.perform operation).draft = next ∧
        draft.acceptedOf (operation :: more) = operation :: next.acceptedOf more := by
  rcases h.refuses_or_takes operation with ⟨violation, refused⟩ | takes
  · refine .inl ⟨by rw [refused]; rfl, by rw [refused]; rfl, ?_⟩
    have idle : Turn.accepted ⟨draft, operation⟩ = false := by
      rw [Turn.accepted, Turn.step, refused]
      rfl
    rw [acceptedOf, turns, List.filter_cons_of_neg (by simp [idle]), refused]
    rfl
  · refine .inr ⟨_, takes, rfl, ?_⟩
    have accepted : Turn.accepted ⟨draft, operation⟩ := by
      rw [Turn.accepted, Turn.step, takes.perform.2]
      rfl
    rw [acceptedOf, turns, List.filter_cons_of_pos accepted, List.map_cons]
    rfl

theorem Takes.phase_next (h : draft.Takes operation next) :
    match operation.mark? with
    | some mark => draft.phase.next? mark = some next.phase
    | none => next.phase = draft.phase := by
  cases h with
  | setAttribute package table column sets =>
    rw [Operation.mark?_of_sets sets]
    exact (rfl : Phase.inColumn = .inColumn)
  | stray package table sets =>
    rw [Operation.mark?_of_sets sets]
  | enterTable | enterColumn | exitColumn | exitTable => rfl

/-- What goes on by the protocol is taken. -/
theorem Nested.takes_of_next (h : draft.Nested) {mark : Mark} {phase : Phase} (hmark : operation.mark? = some mark)
    (goes : draft.phase.next? mark = some phase) : ∃ next, draft.Takes operation next := by
  rcases h.cases with ⟨package, rfl⟩ | ⟨package, table, rfl⟩ | ⟨package, table, column, rfl⟩
  · cases operation with
    | enterTable reference => exact ⟨_, .enterTable package reference⟩
    | exitTable | enterColumn | exitColumn =>
      obtain rfl := Option.some.inj hmark
      contradiction
    | setType | setDefault | setComment | setNotNull => contradiction
  · cases operation with
    | enterColumn raw => exact ⟨_, .enterColumn package table raw⟩
    | exitTable => exact ⟨_, .exitTable package table⟩
    | enterTable | exitColumn =>
      obtain rfl := Option.some.inj hmark
      contradiction
    | setType | setDefault | setComment | setNotNull => contradiction
  · cases operation with
    | exitColumn => exact ⟨_, .exitColumn package table column⟩
    | enterTable | exitTable | enterColumn =>
      obtain rfl := Option.some.inj hmark
      contradiction
    | setType | setDefault | setComment | setNotNull => contradiction

/-- After a run, what it accepted is completed by what completes the draft that it leaves. -/
theorem Nested.marks_append_mem (h : draft.Nested) (operations : List Operation) (word : List Mark) :
    draft.marks operations ++ word ∈ draft.phase.completions ↔
      word ∈ (draft.after operations).phase.completions := by
  induction operations generalizing draft with
  | nil => rfl
  | cons operation more ih =>
    have later := ih (h.perform operation)
    rw [Draft.after]
    rcases h.acceptedOf_cons operation more with ⟨-, same, told⟩ | ⟨next, takes, same, told⟩
    · rw [same] at later ⊢
      rw [marks, told]
      exact later
    · rw [same] at later ⊢
      have goes := takes.phase_next
      rw [marks, told, List.filterMap_cons]
      cases hmark : operation.mark? with
      | none =>
        rw [hmark] at goes
        rw [← show next.phase = draft.phase from goes]
        exact later
      | some mark =>
        rw [hmark] at goes
        have step : mark :: (next.marks more ++ word) ∈ draft.phase.completions ↔
            ∃ phase, draft.phase.next? mark = some phase ∧ next.marks more ++ word ∈ phase.completions :=
          Phase.cons_mem_completions
        rw [show draft.phase.next? mark = some next.phase from goes] at step
        simp only [Option.some.injEq, exists_eq_left'] at step
        exact step.trans later

theorem Nested.finish_eq_ok_iff (h : draft.Nested) (package : Package) :
    draft.finish = .ok package ↔ draft.phase = .outside ∧ package = draft.package := by
  rcases h.cases with ⟨package, rfl⟩ | ⟨package, table, rfl⟩ | ⟨package, table, column, rfl⟩
  · simp [finish, phase, eq_comm]
  · simp [finish, phase]
  · simp [finish, phase]

end Draft

end DdlModels
