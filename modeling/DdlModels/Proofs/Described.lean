import DdlModels.Proofs.Protocol

/-!
# What operations describe

The package that a run drafts can be read off the operations that it accepts. Each opening of a table gives a table,
each opening of a column gives a column of it, and the attributes of a column are those that are set last before
it is closed.
-/

namespace DdlModels

theorem foldl_field {α β γ δ : Type} {step : γ → α → γ} (field : γ → β) {set? : α → Option δ} {make : δ → β}
    (h : ∀ state item, field (step state item) = ((set? item).map make).getD (field state))
    (items : List α) (state : γ) :
    field (items.foldl step state) = ((items.filterMap set?).getLast?.map make).getD (field state) := by
  induction items generalizing state with
  | nil => rfl
  | cons item items ih =>
    rw [List.foldl_cons, ih, h, List.filterMap_cons]
    cases set? item with
    | none => rfl
    | some value =>
      rw [List.getLast?_cons]
      cases (items.filterMap set?).getLast? <;> rfl

theorem foldl_kept {α β γ : Type} {step : γ → α → γ} (field : γ → β)
    (h : ∀ state item, field (step state item) = field state) (items : List α) (state : γ) :
    field (items.foldl step state) = field state := by
  induction items generalizing state with
  | nil => rfl
  | cons item items ih => rw [List.foldl_cons, ih, h]

namespace Operation

def rule? : Operation → Option TypeRule
  | setType name rules => some (rules.classify name)
  | _ => none

def notNull? : Operation → Option Bool
  | setNotNull notNull => some notNull
  | _ => none

def default? : Operation → Option String
  | setDefault raw => some raw
  | _ => none

def comment? : Operation → Option String
  | setComment literal => some literal
  | _ => none

/-- The column that is opened by its name as written, and closed after the given operations. -/
def describedColumn (raw : String) (inside : List Operation) : Column where
  name := Text.unquote raw
  goType := ((inside.filterMap rule?).getLast?.map TypeRule.goType).getD ""
  notNull := (inside.filterMap notNull?).getLast?.getD false
  defaultValue := (inside.filterMap default?).getLast?.bind fun raw => nonempty? (Text.trimmed raw)
  comment := (inside.filterMap comment?).getLast?.bind fun literal => nonempty? (Text.unquote literal)

/-- The operations before the next one that closes a column. -/
def inColumn (operations : List Operation) : List Operation := operations.takeWhile (· != exitColumn)

/-- The operations before the next one that closes a table. -/
def inTable (operations : List Operation) : List Operation := operations.takeWhile (· != exitTable)

/-- The columns that are opened, each with the attributes that are set before it is closed. -/
def describedColumns : List Operation → List Column
  | [] => []
  | enterColumn raw :: rest => describedColumn raw (inColumn rest) :: describedColumns rest
  | _ :: rest => describedColumns rest

/-- The tables that are opened, each with the columns that are opened before it is closed. -/
def describedTables : List Operation → List Table
  | [] => []
  | enterTable reference :: rest =>
    { name := tableName reference, columns := describedColumns (inTable rest) } :: describedTables rest
  | _ :: rest => describedTables rest

/-- The imports of all types that are set in some column. -/
def describedImports : List Operation → List String
  | [] => []
  | enterColumn _ :: rest => (inColumn rest).flatMap imports ++ describedImports rest
  | _ :: rest => describedImports rest

/-- The package of the tables that are opened, which keeps each import once, where it first occurs. -/
def describedPackage (name : String) (operations : List Operation) : Package where
  name := name
  tables := describedTables operations
  imports := (describedImports operations).eraseDups

theorem foldl_applyTo (raw : String) (inside : List Operation) :
    inside.foldl applyTo { name := Text.unquote raw } = describedColumn raw inside := by
  let start : Column := { name := Text.unquote raw }
  have name : (inside.foldl applyTo start).name = Text.unquote raw :=
    foldl_kept Column.name (by intro column operation; cases operation <;> simp [applyTo]) inside start
  have goType : (inside.foldl applyTo start).goType = ((inside.filterMap rule?).getLast?.map TypeRule.goType).getD "" :=
    foldl_field Column.goType (by intro column operation; cases operation <;> simp [applyTo, rule?]) inside start
  have notNull : (inside.foldl applyTo start).notNull = ((inside.filterMap notNull?).getLast?.map id).getD false :=
    foldl_field Column.notNull (by intro column operation; cases operation <;> simp [applyTo, notNull?]) inside start
  have default : (inside.foldl applyTo start).defaultValue =
      ((inside.filterMap default?).getLast?.map fun raw => nonempty? (Text.trimmed raw)).getD none :=
    foldl_field Column.defaultValue (by intro column operation; cases operation <;> simp [applyTo, default?]) inside
      start
  have comment : (inside.foldl applyTo start).comment =
      ((inside.filterMap comment?).getLast?.map fun literal => nonempty? (Text.unquote literal)).getD none :=
    foldl_field Column.comment (by intro column operation; cases operation <;> simp [applyTo, comment?]) inside start
  change inside.foldl applyTo start = _
  have unset (value : Option String) (make : String → Option String) :
      (value.map make).getD none = value.bind make := by
    cases value <;> rfl
  rw [Option.map_id] at notNull
  rw [unset] at default comment
  generalize inside.foldl applyTo start = column at name goType notNull default comment
  cases column
  simp only at name goType notNull default comment
  rw [describedColumn, name, goType, notNull, default, comment]
  rfl

theorem described_of_sets {operation : Operation} (sets : operation.setsAttribute) (more : List Operation) :
    inColumn (operation :: more) = operation :: inColumn more ∧
      inTable (operation :: more) = operation :: inTable more ∧
      describedColumns (operation :: more) = describedColumns more ∧
      describedTables (operation :: more) = describedTables more ∧
      describedImports (operation :: more) = describedImports more := by
  cases operation with
  | enterTable | exitTable | enterColumn | exitColumn => contradiction
  | setType | setDefault | setComment | setNotNull => exact ⟨rfl, rfl, rfl, rfl, rfl⟩

end Operation

namespace Draft

open Operation (describedColumns describedTables describedImports inColumn inTable)

/-- The tables of a draft when the given operations are taken and close what is open. -/
def completedTables (draft : Draft) (operations : List Operation) : List Table :=
  match draft.openTable, draft.openColumn with
  | none, _ => draft.package.tables ++ describedTables operations
  | some table, none =>
    draft.package.tables ++
      { table with columns := table.columns ++ describedColumns (inTable operations) } ::
        describedTables operations
  | some table, some column =>
    draft.package.tables ++
      { table with
        columns := table.columns ++ (inColumn (inTable operations)).foldl Operation.applyTo column ::
          describedColumns (inTable operations) } ::
        describedTables operations

def completedImports (draft : Draft) (operations : List Operation) : List String :=
  match draft.openColumn with
  | none => (draft.package.addImports (describedImports operations)).imports
  | some _ =>
    (draft.package.addImports
      ((inColumn operations).flatMap Operation.imports ++ describedImports operations)).imports

variable {draft next : Draft} {operation : Operation}

theorem Takes.completedTables (h : draft.Takes operation next) (more : List Operation) :
    draft.completedTables (operation :: more) = next.completedTables more := by
  cases h with
  | enterTable package reference => rfl
  | enterColumn package table raw =>
    have column := Operation.foldl_applyTo raw (inColumn (inTable more))
    simp only [Draft.completedTables, column]
    rfl
  | setAttribute package table column sets =>
    obtain ⟨-, inside, -, tables, -⟩ := Operation.described_of_sets sets more
    obtain ⟨inner, -, columns, -, -⟩ := Operation.described_of_sets sets (inTable more)
    simp only [Draft.completedTables, inside, inner, columns, tables, List.foldl_cons, Package.addImports_tables]
  | stray package table sets =>
    obtain ⟨-, inside, -, tables, -⟩ := Operation.described_of_sets sets more
    obtain ⟨-, -, columns, -, -⟩ := Operation.described_of_sets sets (inTable more)
    cases table with
    | none => simp only [Draft.completedTables, tables]
    | some table => simp only [Draft.completedTables, inside, columns, tables]
  | exitColumn package table column =>
    simp only [Draft.completedTables, List.append_assoc]
    rfl
  | exitTable package table =>
    have closed :
        { table with columns := table.columns ++ describedColumns (inTable (.exitTable :: more)) } = table := by
      simp [inTable, describedColumns]
    simp only [Draft.completedTables, closed, Package.addTable, List.append_assoc]
    rfl

theorem Takes.completedImports (h : draft.Takes operation next) (more : List Operation) :
    draft.completedImports (operation :: more) = next.completedImports more := by
  cases h with
  | setAttribute package table column sets =>
    obtain ⟨inner, -, -, -, imports⟩ := Operation.described_of_sets sets more
    simp only [Draft.completedImports, inner, imports, List.flatMap_cons, List.append_assoc,
      Package.addImports_append]
  | stray package table sets =>
    obtain ⟨-, -, -, -, imports⟩ := Operation.described_of_sets sets more
    simp only [Draft.completedImports, imports]
  | exitTable package table =>
    have same : (package.addTable table).imports = package.imports := rfl
    exact Package.addImports_imports_congr same.symm (describedImports more)
  | enterTable | enterColumn | exitColumn => rfl

theorem Takes.name (h : draft.Takes operation next) : next.package.name = draft.package.name := by
  cases h with
  | setAttribute package table column sets => exact package.addImports_name _
  | enterTable | enterColumn | stray | exitColumn | exitTable => rfl

/-- A run that leaves nothing open completes the draft by the operations that it accepts. -/
theorem Nested.completed (h : draft.Nested) (operations : List Operation)
    (closed : (draft.after operations).phase = .outside) :
    (draft.after operations).package =
      { name := draft.package.name
        tables := draft.completedTables (draft.acceptedOf operations)
        imports := draft.completedImports (draft.acceptedOf operations) } := by
  induction operations generalizing draft with
  | nil =>
    rcases h.cases with ⟨package, rfl⟩ | ⟨package, table, rfl⟩ | ⟨package, table, column, rfl⟩
    · simp [Draft.after, acceptedOf, turns, Draft.completedTables, Draft.completedImports, describedTables,
        describedImports, Package.addImports]
    · contradiction
    · contradiction
  | cons operation more ih =>
    have later := ih (h.perform operation) closed
    rw [Draft.after, later]
    rcases h.acceptedOf_cons operation more with ⟨-, same, told⟩ | ⟨next, takes, same, told⟩
    · rw [same, told]
    · rw [same, told, takes.completedTables, takes.completedImports, takes.name]

theorem completed_start (name : String) (operations : List Operation) :
    Package.mk name ((start name).completedTables operations) ((start name).completedImports operations) =
      Operation.describedPackage name operations := by
  have imports := ({ name } : Package).addImports_imports (describedImports operations)
  rw [List.removeAll_nil, List.nil_append] at imports
  rw [Operation.describedPackage, ← imports]
  rfl

/-- The openings and closings that a run accepts begin a word of the protocol, and another one is accepted exactly
where it continues such a word. The draft can be finished exactly where the word is complete, and is then the
package that the accepted operations describe. -/
theorem protocol_recognised (name : String) (operations : List Operation) :
    let draft := (start name).after operations
    let marks := (start name).marks operations
    (∃ rest, marks ++ rest ∈ protocol) ∧
    (∀ operation mark, operation.mark? = some mark →
      ((draft.perform operation).violation = none ↔ ∃ rest, marks ++ mark :: rest ∈ protocol)) ∧
    ∀ package, draft.finish = .ok package ↔
      marks ∈ protocol ∧ package = Operation.describedPackage name ((start name).acceptedOf operations) := by
  have nested := (nested_start name).after operations
  have goes (word : List Mark) : (start name).marks operations ++ word ∈ protocol ↔
      word ∈ ((start name).after operations).phase.completions :=
    (nested_start name).marks_append_mem operations word
  refine ⟨?_, ?_, ?_⟩
  · obtain ⟨word, completes⟩ := Phase.exists_mem_completions ((start name).after operations).phase
    exact ⟨word, (goes word).mpr completes⟩
  · intro operation mark hmark
    constructor
    · intro accepted
      rcases nested.refuses_or_takes operation with ⟨violation, refused⟩ | takes
      · rw [refused] at accepted
        contradiction
      · have next := takes.phase_next
        rw [hmark] at next
        obtain ⟨word, completes⟩ := Phase.exists_mem_completions
          (((start name).after operations).perform operation).draft.phase
        exact ⟨word, (goes _).mpr (Phase.cons_mem_completions.mpr ⟨_, next, completes⟩)⟩
    · rintro ⟨word, whole⟩
      obtain ⟨phase, next, -⟩ := Phase.cons_mem_completions.mp ((goes _).mp whole)
      obtain ⟨draft, takes⟩ := nested.takes_of_next hmark next
      exact takes.perform.2
  · intro package
    have closed := goes []
    rw [List.append_nil, Phase.nil_mem_completions] at closed
    rw [nested.finish_eq_ok_iff, closed]
    refine and_congr_right fun outside => ?_
    rw [(nested_start name).completed operations outside]
    exact Eq.congr_right (completed_start name _)

/-- A refused table, a refused closing and a default in front of all tables go unheard. A type that is replaced still
has its import. -/
theorem datetime_column_is_recognised :
    ((start "models").after [.setDefault "0", .enterTable "a.\x60t\x60", .enterTable "u", .enterColumn "c",
        .setType "DATETIME" .dimension, .exitTable, .setType "INT" .dimension, .setDefault " 1 ", .exitColumn,
        .exitTable]).finish =
      .ok
        { name := "models"
          tables := [{ name := "t", columns := [{ name := "c", goType := "int64", defaultValue := some "1" }] }]
          imports := ["time"] } ∧
    (start "models").marks [.setDefault "0", .enterTable "a.\x60t\x60", .enterTable "u", .enterColumn "c",
        .setType "DATETIME" .dimension, .exitTable, .setType "INT" .dimension, .setDefault " 1 ", .exitColumn,
        .exitTable] ∈ protocol ∧
    ∃ rest, (start "models").marks [.enterTable "t"] ++ .columnStart :: rest ∈ protocol := by
  have finished : ((start "models").after [.setDefault "0", .enterTable "a.\x60t\x60", .enterTable "u",
        .enterColumn "c", .setType "DATETIME" .dimension, .exitTable, .setType "INT" .dimension, .setDefault " 1 ",
        .exitColumn, .exitTable]).finish =
      .ok
        { name := "models"
          tables := [{ name := "t", columns := [{ name := "c", goType := "int64", defaultValue := some "1" }] }]
          imports := ["time"] } := by decide +kernel
  refine ⟨finished, (((protocol_recognised _ _).2.2 _).mp finished).1, ?_⟩
  exact ((protocol_recognised "models" [.enterTable "t"]).2.1 (.enterColumn "c") .columnStart rfl).mp rfl

end Draft

end DdlModels
