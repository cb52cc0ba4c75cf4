import DdlModels.Draft.Basic
import DdlModels.Proofs.Imports

/-!
# Runs of operations

Operations are performed one after another, whether or not one of them is refused. Six rules say which operations
are accepted and what they make of a draft (`Draft.Takes`). What is refused leaves the draft as it is, and so does
what sets an attribute while no column is open: either can be taken out of a run without a trace.
-/

namespace DdlModels

namespace Operation

def setsAttribute : Operation → Bool
  | setType .. | setDefault _ | setComment _ | setNotNull _ => true
  | _ => false

def imports : Operation → List String
  | setType name rules => (rules.classify name).imports
  | _ => []

def applyTo (column : Column) : Operation → Column
  | setType name rules => { column with goType := (rules.classify name).goType }
  | setDefault raw => { column with defaultValue := nonempty? (Text.trimmed raw) }
  | setComment literal => { column with comment := nonempty? (Text.unquote literal) }
  | setNotNull notNull => { column with notNull }
  | _ => column

end Operation

namespace Draft

/-- The operations that a draft takes, and what they make of it. -/
inductive Takes : Draft → Operation → Draft → Prop where
  | enterTable (package : Package) (reference : String) :
    Takes ⟨package, none, none⟩ (.enterTable reference) ⟨package, some { name := tableName reference }, none⟩
  | enterColumn (package : Package) (table : Table) (raw : String) :
    Takes ⟨package, some table, none⟩ (.enterColumn raw) ⟨package, some table, some { name := Text.unquote raw }⟩
  | setAttribute (package : Package) (table : Table) (column : Column) {operation : Operation} :
    operation.setsAttribute → Takes ⟨package, some table, some column⟩ operation
      ⟨package.addImports operation.imports, some table, some (operation.applyTo column)⟩
  | stray (package : Package) (table : Option Table) {operation : Operation} :
    operation.setsAttribute → Takes ⟨package, table, none⟩ operation ⟨package, table, none⟩
  | exitColumn (package : Package) (table : Table) (column : Column) :
    Takes ⟨package, some table, some column⟩ .exitColumn
      ⟨package, some { table with columns := table.columns ++ [column] }, none⟩
  | exitTable (package : Package) (table : Table) :
    Takes ⟨package, some table, none⟩ .exitTable ⟨package.addTable table, none, none⟩

/-- A column is open only in an open table. -/
def Nested (draft : Draft) : Prop := draft.openColumn.isSome → draft.openTable.isSome

variable {draft next : Draft} {operation : Operation}

theorem Nested.cases (h : draft.Nested) :
    (∃ package, draft = ⟨package, none, none⟩) ∨ (∃ package table, draft = ⟨package, some table, none⟩) ∨
      ∃ package table column, draft = ⟨package, some table, some column⟩ := by
  obtain ⟨package, table, column⟩ := draft
  cases table with
  | none =>
    cases column with
    | none => exact .inl ⟨package, rfl⟩
    | some column => exact absurd (h rfl) (by simp)
  | some table =>
    cases column with
    | none => exact .inr (.inl ⟨package, table, rfl⟩)
    | some column => exact .inr (.inr ⟨package, table, column, rfl⟩)

theorem Nested.refuses_or_takes (h : draft.Nested) (operation : Operation) :
    (∃ violation, draft.perform operation = draft.refuse violation) ∨
      draft.Takes operation (draft.perform operation).draft := by
  rcases h.cases with ⟨package, rfl⟩ | ⟨package, table, rfl⟩ | ⟨package, table, column, rfl⟩
  · cases operation with
    | enterTable reference => exact .inr (.enterTable package reference)
    | exitTable | enterColumn | exitColumn => exact .inl ⟨_, rfl⟩
    | setType | setDefault | setComment | setNotNull => exact .inr (.stray package none rfl)
  · cases operation with
    | enterColumn raw => exact .inr (.enterColumn package table raw)
    | exitTable => exact .inr (.exitTable package table)
    | enterTable | exitColumn => exact .inl ⟨_, rfl⟩
    | setType | setDefault | setComment | setNotNull => exact .inr (.stray package (some table) rfl)
  · cases operation with
    | exitColumn => exact .inr (.exitColumn package table column)
    | enterTable | exitTable | enterColumn => exact .inl ⟨_, rfl⟩
    | setType | setDefault | setComment | setNotNull => exact .inr (.setAttribute package table column rfl)

theorem Takes.perform (h : draft.Takes operation next) :
    (draft.perform operation).draft = next ∧ (draft.perform operation).violation = none := by
  cases h with
  | setAttribute package table column sets | stray package table sets =>
    cases operation with
    | enterTable | exitTable | enterColumn | exitColumn => contradiction
    | setType | setDefault | setComment | setNotNull => exact ⟨rfl, rfl⟩
  | _ => exact ⟨rfl, rfl⟩

theorem Takes.nested (h : draft.Takes operation next) : next.Nested := by
  cases h with
  | enterColumn | setAttribute => exact fun _ => rfl
  | enterTable | stray | exitColumn | exitTable => exact fun column => absurd column (by simp)

/-- Tables are only added, at the end. -/
theorem Takes.tables_prefix (h : draft.Takes operation next) : draft.package.tables <+: next.package.tables := by
  cases h with
  | setAttribute package table column sets =>
    have same := package.addImports_tables operation.imports
    exact ⟨[], by rw [List.append_nil, same]⟩
  | exitTable package table => exact List.prefix_append _ _
  | enterTable | enterColumn | stray | exitColumn => exact List.prefix_rfl

theorem perform_of_stray (sets : operation.setsAttribute) (closed : draft.openColumn = none) :
    ∃ notice, draft.perform operation = { draft, notices := [notice] } ∧ notice.level = .warn := by
  cases operation with
  | enterTable | exitTable | enterColumn | exitColumn => contradiction
  | setType name rules => exact ⟨.strayType name, by simp [perform, setType, closed], rfl⟩
  | setDefault raw => exact ⟨.strayDefault raw, by simp [perform, setAttribute, closed], rfl⟩
  | setComment literal => exact ⟨.strayComment literal, by simp [perform, setAttribute, closed], rfl⟩
  | setNotNull notNull => exact ⟨.strayNull notNull, by simp [perform, setAttribute, closed], rfl⟩

theorem Nested.perform (h : draft.Nested) (operation : Operation) : (draft.perform operation).draft.Nested := by
  rcases h.refuses_or_takes operation with ⟨violation, refused⟩ | takes
  · rw [refused]
    exact h
  · exact takes.nested

end Draft

/-- An operation of a run, with the draft that it is performed on. -/
structure Turn where
  before : Draft
  operation : Operation

namespace Turn

def step (turn : Turn) : Step := turn.before.perform turn.operation

def accepted (turn : Turn) : Bool := turn.step.violation.isNone

def stray (turn : Turn) : Bool := turn.operation.setsAttribute && turn.before.openColumn.isNone

/-- The operation is accepted and not stray. -/
def effective (turn : Turn) : Bool := turn.accepted && !turn.stray

theorem draft_of_not_effective {turn : Turn} (nested : turn.before.Nested) (h : turn.effective = false) :
    turn.step.draft = turn.before := by
  simp only [effective, Bool.and_eq_false_iff, Bool.not_eq_false'] at h
  rcases h with refused | stray
  · rcases nested.refuses_or_takes turn.operation with ⟨violation, refusal⟩ | takes
    · rw [step, refusal]
      rfl
    · simp [accepted, step, takes.perform.2] at refused
  · obtain ⟨sets, closed⟩ := Bool.and_eq_true_iff.mp stray
    obtain ⟨notice, same, -⟩ := Draft.perform_of_stray sets (Option.isNone_iff_eq_none.mp closed)
    rw [step, same]

end Turn

namespace Draft

def turns (draft : Draft) : List Operation → List Turn
  | [] => []
  | operation :: more => ⟨draft, operation⟩ :: (draft.perform operation).draft.turns more

def after (draft : Draft) : List Operation → Draft
  | [] => draft
  | operation :: more => (draft.perform operation).draft.after more

variable {draft : Draft}

theorem Nested.after (h : draft.Nested) (operations : List Operation) : (draft.after operations).Nested := by
  induction operations generalizing draft with
  | nil => exact h
  | cons operation more ih => exact ih (h.perform operation)

theorem nested_start (name : String) : (start name).Nested := nofun

theorem Nested.tables_prefix (h : draft.Nested) (operations : List Operation) :
    draft.package.tables <+: (draft.after operations).package.tables := by
  induction operations generalizing draft with
  | nil => exact List.prefix_rfl
  | cons operation more ih =>
    have first : draft.package.tables <+: (draft.perform operation).draft.package.tables := by
      rcases h.refuses_or_takes operation with ⟨violation, refused⟩ | takes
      · rw [refused]
        exact List.prefix_rfl
      · exact takes.tables_prefix
    exact first.trans (ih (h.perform operation))

theorem Nested.turns_effective (h : draft.Nested) (operations : List Operation) :
    draft.turns (((draft.turns operations).filter Turn.effective).map Turn.operation) =
        (draft.turns operations).filter Turn.effective ∧
      draft.after (((draft.turns operations).filter Turn.effective).map Turn.operation) =
        draft.after operations := by
  induction operations generalizing draft with
  | nil => exact ⟨rfl, rfl⟩
  | cons operation more ih =>
    obtain ⟨turns, result⟩ := ih (h.perform operation)
    rw [Draft.turns, Draft.after]
    cases effective : Turn.effective ⟨draft, operation⟩ with
    | true =>
      rw [List.filter_cons_of_pos effective, List.map_cons, Draft.turns, Draft.after, turns, result]
      exact ⟨rfl, rfl⟩
    | false =>
      have same : (draft.perform operation).draft = draft := Turn.draft_of_not_effective h effective
      rw [List.filter_cons_of_neg (by simp [effective])]
      rw [same] at turns result ⊢
      exact ⟨turns, result⟩

/-- In every draft that a run can reach, a column is open only in an open table; an operation that is refused changes
nothing; an attribute without an open column changes nothing and gives one warning and nothing else; and closed
tables stay as they are, in order, whatever follows. A run without its refused and stray operations goes through
the same turns and ends in the same draft. -/
theorem refused_and_stray_leave_no_trace (name : String) (operations : List Operation) :
    let draft := (start name).after operations
    let kept := ((start name).turns operations).filter Turn.effective
    draft.Nested ∧
    (∀ operation violation, (draft.perform operation).violation = some violation →
      (draft.perform operation).draft = draft) ∧
    (∀ operation : Operation, operation.setsAttribute → draft.openColumn = none →
      ∃ notice, draft.perform operation = { draft, notices := [notice] } ∧ notice.level = .warn) ∧
    (∀ more, draft.package.tables <+: (draft.after more).package.tables) ∧
    (start name).turns (kept.map Turn.operation) = kept ∧
    (start name).after (kept.map Turn.operation) = draft := by
  have nested := (nested_start name).after operations
  refine ⟨nested, ?_, ?_, nested.tables_prefix, (nested_start name).turns_effective operations⟩
  · intro operation violation refused
    rcases nested.refuses_or_takes operation with ⟨other, refusal⟩ | takes
    · rw [refusal]
      rfl
    · rw [takes.perform.2] at refused
      contradiction
  · intro operation sets closed
    exact perform_of_stray sets closed

/-- A table cannot be closed while its column is open, and a default before the column is lost. -/
theorem early_exit_and_default_leave_no_trace :
    (((start "models").after [.enterTable "t", .enterColumn "c"]).perform .exitTable).violation =
        some (.unfinished "c") ∧
      (((start "models").after [.enterTable "t", .enterColumn "c"]).perform .exitTable).draft =
        (start "models").after [.enterTable "t", .enterColumn "c"] ∧
      (start "models").after [.enterTable "t", .enterColumn "c"] =
        (start "models").after [.enterTable "t", .setDefault "1", .enterColumn "c", .exitTable] := by
  have refused : (((start "models").after [.enterTable "t", .enterColumn "c"]).perform .exitTable).violation =
      some (.unfinished "c") := by decide +kernel
  have early := refused_and_stray_leave_no_trace "models" [.enterTable "t", .enterColumn "c"]
  have both := refused_and_stray_leave_no_trace "models"
    [.enterTable "t", .setDefault "1", .enterColumn "c", .exitTable]
  refine ⟨refused, early.2.1 _ _ refused, ?_⟩
  have kept : (((start "models").turns [.enterTable "t", .setDefault "1", .enterColumn "c", .exitTable]).filter
      Turn.effective).map Turn.operation = [.enterTable "t", .enterColumn "c"] := by decide +kernel
  rw [← kept]
  exact both.2.2.2.2.2

end Draft

end DdlModels
