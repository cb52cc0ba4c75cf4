import DdlModels.Proofs.Described
import DdlModels.Proofs.DraftWalk

/-!
# Readings of a tree

A tree of any shape can be walked. The walk is refused at the first node that does not fit into the nodes above it;
if all nodes fit, then the package that it drafts can be read off the tree by recursion: the nodes of tables give
the tables, and each node of a table or a column speaks for all that is below it.
-/

namespace DdlModels

namespace Node

mutual
/-- The nodes of a tree, a node before those below it. -/
def preorder : Node → List Node
  | ⟨kind, text, children⟩ => ⟨kind, text, children⟩ :: preorderOfAll children
def preorderOfAll : List Node → List Node
  | [] => []
  | node :: nodes => preorder node ++ preorderOfAll nodes
end

def descendants (node : Node) : List Node := preorderOfAll node.children

def isTable (node : Node) : Bool := node.kind == .createTable

def isColumn (node : Node) : Bool := node.kind == .columnDeclaration

def rule? (node : Node) : Option TypeRule :=
  node.kind.category?.map fun category => category.rules.classify node.text

def textOf? (kind : NodeKind) (node : Node) : Option String :=
  if node.kind = kind then some node.text else none

/-- The column that a node is read as. What is said more than once holds as it is said last. -/
def readColumn (node : Node) : Column where
  name := Text.unquote node.text
  goType := ((node.descendants.filterMap rule?).getLast?.map TypeRule.goType).getD ""
  notNull := ((node.descendants.filterMap (textOf? .nullConstraint)).getLast?.map forbidsNull).getD false
  defaultValue :=
    (node.descendants.filterMap (textOf? .defaultConstraint)).getLast?.bind fun text =>
      nonempty? (Text.trimmed text)
  comment :=
    (node.descendants.filterMap (textOf? .commentConstraint)).getLast?.bind fun text =>
      nonempty? (Text.unquote text)

def readTable (node : Node) : Table where
  name := tableName node.text
  columns := (node.descendants.filter isColumn).map readColumn

/-- The imports of all types below the columns among some nodes. -/
def readImports (nodes : List Node) : List String :=
  (nodes.filter isColumn).flatMap fun column => column.descendants.flatMap typeImports

def readPackage (name : String) (tree : Node) : Package where
  name := name
  tables := (tree.preorder.filter isTable).map readTable
  imports := (readImports tree.preorder).eraseDups

theorem operation_says (node : Node) :
    (Event.enter node).operation?.bind Operation.rule? = node.rule? ∧
      (Event.enter node).operation?.bind Operation.notNull? =
        (node.textOf? .nullConstraint).map forbidsNull ∧
      (Event.enter node).operation?.bind Operation.default? = node.textOf? .defaultConstraint ∧
      (Event.enter node).operation?.bind Operation.comment? = node.textOf? .commentConstraint := by
  obtain ⟨kind, text, children⟩ := node
  cases kind <;> exact ⟨rfl, rfl, rfl, rfl⟩

theorem foldl_told (node : Node) :
    node.descendants.foldl Column.told { name := Text.unquote node.text } = node.readColumn := by
  have told (nodes : List Node) (column : Column) : nodes.foldl Column.told column =
      (nodes.filterMap fun other => (Event.enter other).operation?).foldl Operation.applyTo column := by
    rw [List.foldl_filterMap]
    congr 1
    funext column ⟨kind, text, children⟩
    cases kind <;> rfl
  have operations := Operation.foldl_applyTo node.text
    (node.descendants.filterMap fun other => (Event.enter other).operation?)
  have rules (other : Node) := other.operation_says.1
  have nulls (other : Node) := other.operation_says.2.1
  have defaults (other : Node) := other.operation_says.2.2.1
  have comments (other : Node) := other.operation_says.2.2.2
  rw [told, operations, Operation.describedColumn, readColumn]
  simp only [List.filterMap_filterMap, rules, nulls, defaults, comments, ← List.map_filterMap, List.getLast?_map]

end Node

/-- The name of the closest table among the nodes above. -/
def Node.tableAbove (above : List Node) : Option String :=
  (above.find? isTable).map fun table => tableName table.text

/-- The name of the closest column among the nodes above. -/
def Node.columnAbove (above : List Node) : Option String :=
  (above.find? isColumn).map fun column => Text.unquote column.text

/-- A node of a tree with the nodes above it, the closest first. -/
structure Place where
  above : List Node
  node : Node

namespace Place

/-- A table is in no table. A column is in a table and in no column. -/
def Fits (place : Place) : Prop :=
  (place.node.kind = .createTable → ∀ other ∈ place.above, other.kind ≠ .createTable) ∧
  (place.node.kind = .columnDeclaration →
    (∃ other ∈ place.above, other.kind = .createTable) ∧
      ∀ other ∈ place.above, other.kind ≠ .columnDeclaration)

/-- The violation of a node that does not fit. -/
def offence (place : Place) : Option Violation :=
  match place.node.kind with
  | .createTable =>
    (Node.tableAbove place.above).map fun current => .tableAlreadyOpen current (tableName place.node.text)
  | .columnDeclaration =>
    match Node.columnAbove place.above, Node.tableAbove place.above with
    | some current, _ => some (.columnAlreadyOpen current (Text.unquote place.node.text))
    | none, none => some (.noOpenTable .columnStart)
    | none, some _ => none
  | _ => none

theorem offence_eq_none_iff {place : Place} : place.offence = none ↔ place.Fits := by
  obtain ⟨above, kind, text, children⟩ := place
  have tables : Node.tableAbove above = none ↔ ∀ other ∈ above, other.kind ≠ .createTable := by
    simp [Node.tableAbove, List.find?_eq_none, Node.isTable]
  have columns : Node.columnAbove above = none ↔ ∀ other ∈ above, other.kind ≠ .columnDeclaration := by
    simp [Node.columnAbove, List.find?_eq_none, Node.isColumn]
  cases kind with
  | createTable => simp [offence, Fits, tables]
  | columnDeclaration =>
    have inside : (∃ other ∈ above, other.kind = .createTable) ↔ Node.tableAbove above ≠ none := by
      rw [Ne, tables]
      push Not
      rfl
    simp only [offence, Fits, inside, ← columns]
    cases Node.columnAbove above <;> cases Node.tableAbove above <;> simp
  | _ => simp [offence, Fits]

end Place

namespace Node

mutual
/-- The places of the nodes of a tree that is below some nodes. -/
def placesBelow (above : List Node) : Node → List Place
  | ⟨kind, text, children⟩ =>
    ⟨above, ⟨kind, text, children⟩⟩ :: placesOfAll (⟨kind, text, children⟩ :: above) children
def placesOfAll (above : List Node) : List Node → List Place
  | [] => []
  | node :: nodes => placesBelow above node ++ placesOfAll above nodes
end

/-- The places of the nodes of a tree, in preorder. -/
def places (tree : Node) : List Place := tree.placesBelow []

/-- The violation of the first node that does not fit. -/
def offence? (tree : Node) : Option Violation := tree.places.findSome? Place.offence

mutual
theorem map_placesBelow (above : List Node) : (node : Node) →
    (node.placesBelow above).map Place.node = node.preorder
  | ⟨kind, text, children⟩ => by
    rw [placesBelow, List.map_cons, map_placesOfAll, preorder]
theorem map_placesOfAll (above : List Node) : (nodes : List Node) →
    (placesOfAll above nodes).map Place.node = preorderOfAll nodes
  | [] => rfl
  | node :: nodes => by
    rw [placesOfAll, List.map_append, map_placesBelow, map_placesOfAll, preorderOfAll]
end

mutual
theorem mem_above_of_placesBelow {above : List Node} {other : Node} (h : other ∈ above) : (node : Node) →
    ∀ place ∈ node.placesBelow above, other ∈ place.above
  | ⟨kind, text, children⟩ => by
    intro place hplace
    rw [placesBelow] at hplace
    rcases List.mem_cons.mp hplace with rfl | hplace
    · exact h
    · exact mem_above_of_placesOfAll (List.mem_cons_of_mem _ h) children place hplace
theorem mem_above_of_placesOfAll {above : List Node} {other : Node} (h : other ∈ above) : (nodes : List Node) →
    ∀ place ∈ placesOfAll above nodes, other ∈ place.above
  | [] => nofun
  | node :: nodes => by
    intro place hplace
    rw [placesOfAll] at hplace
    rcases List.mem_append.mp hplace with hplace | hplace
    · exact mem_above_of_placesBelow h node place hplace
    · exact mem_above_of_placesOfAll h nodes place hplace
end

/-- If all nodes below a node fit, then none of them is of a kind that does not fit there. -/
theorem filter_below {above nodes : List Node} {node : Node} {unfit : Node → Bool}
    (apart : ∀ place : Place, place.Fits → unfit place.node → node ∉ place.above)
    (fits : ∀ place ∈ placesOfAll (node :: above) nodes, place.offence = none) :
    (preorderOfAll nodes).filter unfit = [] := by
  rw [List.filter_eq_nil_iff, ← map_placesOfAll (node :: above)]
  intro other hother inner
  obtain ⟨place, hplace, rfl⟩ := List.mem_map.mp hother
  have outer := mem_above_of_placesOfAll List.mem_cons_self nodes place hplace
  exact apart place (Place.offence_eq_none_iff.mp (fits place hplace)) inner outer

theorem no_table_below {above nodes : List Node} {node : Node} (table : node.isTable)
    (fits : ∀ place ∈ placesOfAll (node :: above) nodes, place.offence = none) :
    (preorderOfAll nodes).filter isTable = [] := by
  refine filter_below ?_ fits
  intro place fits inner outer
  exact fits.1 (beq_iff_eq.mp inner) node outer (beq_iff_eq.mp table)

theorem no_column_below {above nodes : List Node} {node : Node} (column : node.isColumn)
    (fits : ∀ place ∈ placesOfAll (node :: above) nodes, place.offence = none) :
    (preorderOfAll nodes).filter isColumn = [] := by
  refine filter_below ?_ fits
  intro place fits inner outer
  exact (fits.2 (beq_iff_eq.mp inner)).2 node outer (beq_iff_eq.mp column)

end Node

namespace Draft

open Node

/-- What a walk through some nodes, if none of them is refused, makes of a draft. -/
def told (draft : Draft) (nodes : List Node) : Draft :=
  match draft.openTable, draft.openColumn with
  | none, column =>
    ⟨{ draft.package.addImports (readImports nodes) with
        tables := draft.package.tables ++ (nodes.filter isTable).map readTable }, none, column⟩
  | some table, none =>
    ⟨draft.package.addImports (readImports nodes),
      some { table with columns := table.columns ++ (nodes.filter isColumn).map readColumn }, none⟩
  | some table, some column =>
    ⟨draft.package.addImports (nodes.flatMap typeImports), some table, some (nodes.foldl Column.told column)⟩

theorem told_nil (draft : Draft) : draft.told [] = draft := by
  obtain ⟨package, table, column⟩ := draft
  cases table with
  | none => simp [told, readImports, Package.addImports]
  | some table => cases column <;> simp [told, readImports, Package.addImports]

theorem told_append (draft : Draft) (first second : List Node) :
    draft.told (first ++ second) = (draft.told first).told second := by
  have imports : readImports (first ++ second) = readImports first ++ readImports second := by
    simp [readImports]
  obtain ⟨package, table, column⟩ := draft
  cases table with
  | none =>
    simp [told, imports, Package.addImports_append, Package.addImports_with_tables]
  | some table =>
    cases column with
    | none => simp [told, imports, Package.addImports_append]
    | some column => simp [told, Package.addImports_append]

/-- The draft's open table and column are the closest ones above. -/
structure Faces (draft : Draft) (above : List Node) : Prop where
  table : draft.openTable.map Table.name = tableAbove above
  column : draft.openColumn.map Column.name = columnAbove above
  nested : draft.Nested

/-- The draft after an event of a walk, unless it calls for an operation that is refused. -/
def respond (draft : Draft) (event : Event) : Except Violation Draft :=
  match event.operation? with
  | none => .ok draft
  | some operation =>
    match (draft.perform operation).violation with
    | some violation => .error violation
    | none => .ok (draft.perform operation).draft

variable {draft : Draft} {above : List Node}

theorem Faces.told (faces : draft.Faces above) (nodes : List Node) : (draft.told nodes).Faces above := by
  obtain ⟨package, table, column⟩ := draft
  have columnName (column : Column) : (nodes.foldl Column.told column).name = column.name :=
    foldl_kept Column.name (by rintro column ⟨kind, text, children⟩; cases kind <;> simp [Column.told]) nodes column
  cases table with
  | none => exact ⟨faces.table, faces.column, faces.nested⟩
  | some table =>
    cases column with
    | none => exact ⟨faces.table, faces.column, faces.nested⟩
    | some column =>
      refine ⟨faces.table, ?_, faces.nested⟩
      rw [← faces.column]
      simp [Draft.told, columnName]

theorem Faces.cons (faces : draft.Faces above) {node : Node} (table : node.isTable = false)
    (column : node.isColumn = false) : draft.Faces (node :: above) := by
  refine ⟨?_, ?_, faces.nested⟩
  · rw [faces.table, tableAbove, tableAbove, List.find?_cons_of_neg (by simp [table])]
  · rw [faces.column, columnAbove, columnAbove, List.find?_cons_of_neg (by simp [column])]

/-- A node is entered, and left when what is below it has been told, if that is not refused. -/
def Admits (draft : Draft) (above : List Node) (node : Node) : Prop :=
  ∃ next, draft.respond (.enter node) = .ok next ∧ next.Faces (node :: above) ∧
    ((∀ place ∈ placesOfAll (node :: above) node.children, place.offence = none) →
      (next.told node.descendants).respond (.exit node) = .ok (draft.told (node :: node.descendants)))

theorem admits_table {node : Node} (table : node.isTable) {package : Package}
    (faces : Faces ⟨package, none, none⟩ above) : Admits ⟨package, none, none⟩ above node := by
  obtain ⟨kind, text, children⟩ := node
  obtain rfl : kind = .createTable := beq_iff_eq.mp table
  refine ⟨⟨package, some { name := tableName text }, none⟩, rfl, ⟨?_, ?_, nofun⟩, fun below => ?_⟩
  · rw [tableAbove, List.find?_cons_of_pos table]
    rfl
  · rw [columnAbove, List.find?_cons_of_neg (by simp [isColumn]), ← columnAbove, ← faces.column]
  · have tables : (descendants ⟨.createTable, text, children⟩).filter isTable = [] := no_table_below table below
    have imports : readImports (⟨.createTable, text, children⟩ :: descendants ⟨.createTable, text, children⟩) =
        readImports (descendants ⟨.createTable, text, children⟩) := rfl
    have whole := package.addImports_tables (readImports (descendants ⟨.createTable, text, children⟩))
    simp only [told, imports, List.filter_cons_of_pos table, tables, List.map_cons, List.map_nil, ← whole]
    rfl

theorem admits_column {node : Node} (column : node.isColumn) {package : Package} {table : Table}
    (faces : Faces ⟨package, some table, none⟩ above) : Admits ⟨package, some table, none⟩ above node := by
  obtain ⟨kind, text, children⟩ := node
  obtain rfl : kind = .columnDeclaration := beq_iff_eq.mp column
  refine ⟨⟨package, some table, some { name := Text.unquote text }⟩, rfl, ⟨?_, ?_, fun _ => rfl⟩, fun below => ?_⟩
  · rw [tableAbove, List.find?_cons_of_neg (by simp [isTable]), ← tableAbove, ← faces.table]
  · rw [columnAbove, List.find?_cons_of_pos column]
    rfl
  · have columns : (descendants ⟨.columnDeclaration, text, children⟩).filter isColumn = [] :=
      no_column_below column below
    have read := foldl_told ⟨.columnDeclaration, text, children⟩
    simp only [told, readImports, List.filter_cons_of_pos column, columns, List.map_cons, List.map_nil, read,
      List.flatMap_cons, List.flatMap_nil, List.append_nil]
    rfl

theorem Faces.admits_other (faces : draft.Faces above) {node : Node} (table : node.isTable = false)
    (column : node.isColumn = false) : draft.Admits above node := by
  have imports : readImports [node] = [] := by simp [readImports, column]
  have tables : [node].filter isTable = [] := by simp [table]
  have columns : [node].filter isColumn = [] := by simp [column]
  have enter : draft.respond (.enter node) = .ok (draft.told [node]) := by
    rcases faces.nested.cases with ⟨package, rfl⟩ | ⟨package, openTable, rfl⟩ | ⟨package, openTable, openColumn, rfl⟩
    · simp only [Draft.told, imports, tables, List.map_nil, List.append_nil]
      obtain ⟨kind, text, children⟩ := node
      cases kind with
      | createTable | columnDeclaration => contradiction
      | _ => rfl
    · simp only [Draft.told, imports, columns, List.map_nil, List.append_nil]
      obtain ⟨kind, text, children⟩ := node
      cases kind with
      | createTable | columnDeclaration => contradiction
      | _ => rfl
    · simp only [Draft.told, List.flatMap_singleton, List.foldl_cons, List.foldl_nil]
      obtain ⟨kind, text, children⟩ := node
      cases kind with
      | createTable | columnDeclaration => contradiction
      | _ => rfl
  have exit (after : Draft) : after.respond (.exit node) = .ok after := by
    obtain ⟨kind, text, children⟩ := node
    cases kind with
    | createTable | columnDeclaration => contradiction
    | _ => rfl
  refine ⟨draft.told [node], enter, (faces.told [node]).cons table column, fun _ => ?_⟩
  rw [exit, ← told_append, List.singleton_append]

/-- A node is admitted if it fits, and refused otherwise. -/
theorem Faces.admits_or_refuses (faces : draft.Faces above) (node : Node) :
    match Place.offence ⟨above, node⟩ with
    | none => draft.Admits above node
    | some violation => draft.respond (.enter node) = .error violation := by
  obtain ⟨kind, text, children⟩ := node
  cases kind with
  | createTable =>
    simp only [Place.offence, ← faces.table]
    rcases faces.nested.cases with ⟨package, rfl⟩ | ⟨package, table, rfl⟩ | ⟨package, table, column, rfl⟩
    · exact admits_table rfl faces
    · rfl
    · rfl
  | columnDeclaration =>
    simp only [Place.offence, ← faces.table, ← faces.column]
    rcases faces.nested.cases with ⟨package, rfl⟩ | ⟨package, table, rfl⟩ | ⟨package, table, column, rfl⟩
    · rfl
    · exact admits_column rfl faces
    · rfl
  | _ => exact faces.admits_other rfl rfl

end Draft

namespace DraftM

open Node

/-- The draft that some work makes of a draft, or why it is refused, whatever was reported before. -/
def Gives (work : DraftM Unit) (before : Draft) (outcome : Except Violation Draft) : Prop :=
  ∀ notices, (work.runFrom ⟨before, notices⟩).1.map (fun _ => (work.runFrom ⟨before, notices⟩).2.draft) = outcome

theorem gives_pure (draft : Draft) : Gives (pure ()) draft (.ok draft) := fun _ => rfl

theorem Gives.andThen {first second : DraftM Unit} {before between : Draft} {outcome : Except Violation Draft}
    (hfirst : Gives first before (.ok between)) (hsecond : Gives second between outcome) :
    Gives (do first; second) before outcome := by
  intro notices
  have same := hfirst notices
  rcases h : first.runFrom ⟨before, notices⟩ with ⟨_ | _, draft, more⟩
  · rw [h] at same
    contradiction
  · rw [h] at same
    obtain rfl : draft = between := Except.ok.inj same
    rw [runFrom_bind first (fun _ => second) h]
    exact hsecond more

theorem runFrom_bind_error {α β : Type} (first : DraftM α) (second : α → DraftM β) {progress after : Progress}
    {violation : Violation} (h : first.runFrom progress = (.error violation, after)) :
    (first >>= second).runFrom progress = (.error violation, after) := by
  simp only [runFrom, ExceptT.run, bind, ExceptT.bind, ExceptT.mk, StateT.bind] at h ⊢
  rw [h]
  rfl

theorem Gives.refused {first second : DraftM Unit} {before : Draft} {violation : Violation}
    (hfirst : Gives first before (.error violation)) : Gives (do first; second) before (.error violation) := by
  intro notices
  have same := hfirst notices
  rcases h : first.runFrom ⟨before, notices⟩ with ⟨other | _, after⟩
  · rw [h] at same
    rw [runFrom_bind_error first (fun _ => second) h]
    exact same
  · rw [h] at same
    contradiction

theorem gives_listen (draft : Draft) (event : Event) : Gives (listen event) draft (draft.respond event) := by
  intro notices
  rw [listen, Draft.respond]
  cases event.operation? with
  | none => rfl
  | some operation =>
    have state : (get : DraftM Progress).runFrom ⟨draft, notices⟩ = (.ok ⟨draft, notices⟩, ⟨draft, notices⟩) := rfl
    simp only [perform]
    rw [runFrom_bind _ _ state]
    obtain ⟨next, reports, violation⟩ := draft.perform operation
    cases violation <;> rfl

/-- The draft after a walk through nodes at some places, or the violation of the first that does not fit. -/
def verdict (places : List Place) (draft : Draft) : Except Violation Draft :=
  match places.findSome? Place.offence with
  | some violation => .error violation
  | none => .ok draft

theorem Gives.verdict_append {first second : DraftM Unit} {before between after : Draft}
    {places more : List Place} (hfirst : Gives first before (verdict places between))
    (hsecond : (∀ place ∈ places, place.offence = none) → Gives second between (verdict more after)) :
    Gives (do first; second) before (verdict (places ++ more) after) := by
  simp only [verdict, List.findSome?_append] at hfirst hsecond ⊢
  cases found : places.findSome? Place.offence with
  | some violation =>
    rw [found] at hfirst
    exact hfirst.refused
  | none =>
    rw [found] at hfirst
    exact hfirst.andThen (hsecond (List.findSome?_eq_none_iff.mp found))

mutual
/-- A walk is refused at the first node that does not fit, and tells all nodes otherwise. -/
theorem gives_walk {draft : Draft} {above : List Node} (faces : draft.Faces above) : (node : Node) →
    Gives (node.walk listen) draft (verdict (node.placesBelow above) (draft.told node.preorder))
  | ⟨kind, text, children⟩ => by
    have enter := gives_listen draft (.enter ⟨kind, text, children⟩)
    have admits := faces.admits_or_refuses ⟨kind, text, children⟩
    rw [Node.walk, placesBelow, preorder]
    cases offence : Place.offence ⟨above, ⟨kind, text, children⟩⟩ with
    | some violation =>
      simp only [offence] at admits
      rw [admits] at enter
      simp only [verdict, List.findSome?_cons, offence]
      exact enter.refused
    | none =>
      simp only [offence] at admits
      obtain ⟨next, entered, facing, left⟩ := admits
      rw [entered] at enter
      -- the node is left only if all that is below it fits, and then it has no table or column of its own kind there
      have exit (fits : ∀ place ∈ placesOfAll (⟨kind, text, children⟩ :: above) children, place.offence = none) :
          Gives (listen (.exit ⟨kind, text, children⟩)) (next.told (preorderOfAll children))
            (verdict [] (draft.told (⟨kind, text, children⟩ :: preorderOfAll children))) := by
        have heard := gives_listen (next.told (descendants ⟨kind, text, children⟩)) (.exit ⟨kind, text, children⟩)
        rw [left fits] at heard
        exact heard
      have rest := (gives_walkAll facing children).verdict_append exit
      rw [List.append_nil] at rest
      simp only [verdict, List.findSome?_cons, offence] at rest ⊢
      exact enter.andThen rest
theorem gives_walkAll {draft : Draft} {above : List Node} (faces : draft.Faces above) : (nodes : List Node) →
    Gives (walkAll listen nodes) draft (verdict (placesOfAll above nodes) (draft.told (preorderOfAll nodes)))
  | [] => by
    rw [preorderOfAll, Draft.told_nil]
    exact gives_pure draft
  | node :: nodes => by
    have later := gives_walkAll (faces.told node.preorder) nodes
    rw [walkAll, placesOfAll, preorderOfAll, Draft.told_append]
    exact (gives_walk faces node).verdict_append fun _ => later
end

end DraftM

theorem Draft.told_start (name : String) (tree : Node) :
    (start name).told tree.preorder = ⟨tree.readPackage name, none, none⟩ := by
  have imports := ({ name } : Package).addImports_imports (Node.readImports tree.preorder)
  rw [List.removeAll_nil, List.nil_append] at imports
  simp only [told, start, imports, Package.addImports_name, List.nil_append, Node.readPackage]

/-- A walk through any tree ends at the first node in preorder that does not fit, with its violation. If all nodes
fit, and only then, there is a package, and it is what the tree is read as. -/
theorem walk_reads_tree (name : String) (notices : List Notice) (tree : Node) :
    (tree.draft.runFrom ⟨.start name, notices⟩).1 =
      (match tree.offence? with
        | some violation => .error violation
        | none => .ok ()) ∧
    (tree.package.runFrom ⟨.start name, notices⟩).1 =
      (match tree.offence? with
        | some violation => .error violation
        | none => .ok (tree.readPackage name)) ∧
    ((∃ package, (tree.package.runFrom ⟨.start name, notices⟩).1 = .ok package) ↔
      ∀ place ∈ tree.places, place.Fits) := by
  have facing : (Draft.start name).Faces [] := ⟨rfl, rfl, Draft.nested_start name⟩
  have walked := DraftM.gives_walk facing tree notices
  rw [Draft.told_start, ← Node.draft, ← Node.places, DraftM.verdict, ← Node.offence?] at walked
  have fits : tree.offence? = none ↔ ∀ place ∈ tree.places, place.Fits := by
    rw [Node.offence?, List.findSome?_eq_none_iff]
    exact forall₂_congr fun place _ => Place.offence_eq_none_iff
  rw [← fits]
  cases found : tree.offence? with
  | some violation =>
    rcases h : tree.draft.runFrom ⟨.start name, notices⟩ with ⟨other | _, after⟩
    · rw [h, found] at walked
      obtain rfl : other = violation := Except.error.inj walked
      have built : (tree.package.runFrom ⟨.start name, notices⟩).1 = .error other := by
        rw [Node.package, DraftM.runFrom_bind_error _ _ h]
      exact ⟨rfl, built, by simp [built]⟩
    · rw [h, found] at walked
      contradiction
  | none =>
    rcases h : tree.draft.runFrom ⟨.start name, notices⟩ with ⟨_ | _, draft, reports⟩
    · rw [h, found] at walked
      contradiction
    · rw [h, found] at walked
      obtain rfl : draft = ⟨tree.readPackage name, none, none⟩ := Except.ok.inj walked
      have built : (tree.package.runFrom ⟨.start name, notices⟩).1 = .ok (tree.readPackage name) := by
        rw [Node.package, DraftM.runFrom_bind _ _ h]
        rfl
      exact ⟨rfl, built, by simp [built]⟩

/-- A table is found below a column, whatever is between them. -/
example : (Node.mk .createTable "a"
      [⟨.columnDeclaration, "c", [⟨.tableOption, "", [.leaf .createTable "b"]⟩]⟩]).offence? =
    some (.tableAlreadyOpen "a" "b") := by decide +kernel

end DdlModels
