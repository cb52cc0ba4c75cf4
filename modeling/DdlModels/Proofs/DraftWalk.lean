import DdlModels.Conversion
import DdlModels.Proofs.Imports
import DdlModels.Proofs.TreeShape

/-!
# Walks through a script's tree

A walk through a tree of a script's shape is never refused. It drafts a table for each table of the
tree and a column for each of its columns, in order.
-/

namespace DdlModels

def Notice.isStray : Notice → Bool
  | strayType _ | strayDefault _ | strayComment _ | strayNull _ => true
  | _ => false

/-- The column with what a node of its type or of an attribute says. -/
def Column.told (column : Column) (node : Node) : Column :=
  match node.kind with
  | .dataType category => { column with goType := (category.rules.classify node.text).goType }
  | .defaultConstraint => { column with defaultValue := nonempty? (Text.trimmed node.text) }
  | .commentConstraint => { column with comment := nonempty? (Text.unquote node.text) }
  | .nullConstraint => { column with notNull := forbidsNull node.text }
  | _ => column

namespace Node

def typeImports (node : Node) : List String :=
  match node.kind with
  | .dataType category => (category.rules.classify node.text).imports
  | _ => []

def column (node : Node) : Column :=
  node.children.foldl Column.told { name := Text.unquote node.text }

def columns (definitions : List Node) : List Column :=
  (definitions.filter (·.kind == .columnDeclaration)).map column

def table (node : Node) : Table := { name := tableName node.text, columns := columns node.children }

/-- The imports that the columns of some tables need, in order and with repetitions. -/
def imports (tables : List Node) : List String :=
  tables.flatMap fun table => table.children.flatMap fun definition =>
    definition.children.flatMap typeImports

/-- The package that a script's tree tells of: its tables in order, and the imports they need. -/
def packageNamed (name : String) (tree : Node) : Package :=
  { ({ name } : Package).addImports (imports tree.children) with tables := tree.children.map table }

end Node

namespace DraftM

/-- Work that succeeds and makes one draft of another, without a report of a stray attribute. -/
def Leads (work : DraftM Unit) (before after : Draft) : Prop :=
  ∀ notices, ∃ more, work.runFrom ⟨before, notices⟩ = (.ok (), ⟨after, notices ++ more⟩) ∧
    ∀ notice ∈ more, notice.isStray = false

theorem leads_pure (draft : Draft) : Leads (pure ()) draft draft := by
  intro notices
  exact ⟨[], by rw [List.append_nil]; rfl, by simp⟩

theorem runFrom_bind {α β : Type} (first : DraftM α) (second : α → DraftM β)
    {progress after : Progress} {a : α} (h : first.runFrom progress = (.ok a, after)) :
    (first >>= second).runFrom progress = (second a).runFrom after := by
  simp only [runFrom, ExceptT.run, bind, ExceptT.bind, ExceptT.mk, StateT.bind] at h ⊢
  rw [h]
  rfl

theorem Leads.andThen {first second : DraftM Unit} {before between after : Draft}
    (hfirst : Leads first before between) (hsecond : Leads second between after) :
    Leads (do first; second) before after := by
  intro notices
  obtain ⟨more, hmore, hstray⟩ := hfirst notices
  obtain ⟨last, hlast, hlater⟩ := hsecond (notices ++ more)
  refine ⟨more ++ last, ?_, ?_⟩
  · rw [runFrom_bind first (fun _ => second) hmore, hlast, List.append_assoc]
  · intro notice hnotice
    rcases List.mem_append.mp hnotice with hnotice | hnotice
    · exact hstray notice hnotice
    · exact hlater notice hnotice

theorem leads_perform {before after : Draft} {operation : Operation} {reports : List Notice}
    (h : before.perform operation = { draft := after, notices := reports })
    (fine : ∀ notice ∈ reports, notice.isStray = false) : Leads (perform operation) before after := by
  intro notices
  refine ⟨reports, ?_, fine⟩
  have state : (get : DraftM Progress).runFrom ⟨before, notices⟩ = (.ok ⟨before, notices⟩, ⟨before, notices⟩) :=
    rfl
  rw [perform, runFrom_bind _ _ state]
  simp only [h]
  rfl

theorem leads_leaf {node : Node} (childless : node.children = []) {before between after : Draft}
    (enter : Leads (listen (.enter node)) before between)
    (exit : Leads (listen (.exit node)) between after) : Leads (node.walk listen) before after := by
  obtain ⟨kind, text, children⟩ := node
  simp only at childless
  subst childless
  rw [Node.walk]
  exact enter.andThen ((leads_pure between).andThen exit)

theorem leads_attribute {node : Node} (hkind : node.kind.isType ∨ node.kind.isAttribute)
    (childless : node.children = []) (package : Package) (table : Table) (column : Column) :
    Leads (node.walk listen) ⟨package, some table, some column⟩
      ⟨package.addImports node.typeImports, some table, some (column.told node)⟩ := by
  have enter : Leads (listen (.enter node)) ⟨package, some table, some column⟩
      ⟨package.addImports node.typeImports, some table, some (column.told node)⟩ := by
    obtain ⟨kind, text, children⟩ := node
    cases kind with
    | root | createTable | columnDeclaration | tableConstraint | tableOption =>
      simp [NodeKind.isType, NodeKind.isAttribute, NodeKind.category?] at hkind
    | dataType | defaultConstraint | commentConstraint | nullConstraint =>
      exact leads_perform rfl (by simp)
    | autoIncrementConstraint | primaryKeyConstraint | uniqueKeyConstraint
    | otherColumnConstraint => exact leads_pure _
  have exit (draft : Draft) : Leads (listen (.exit node)) draft draft := by
    obtain ⟨kind, text, children⟩ := node
    cases kind with
    | createTable | columnDeclaration =>
      simp [NodeKind.isType, NodeKind.isAttribute, NodeKind.category?] at hkind
    | _ => exact leads_pure _
  exact leads_leaf childless enter (exit _)

theorem leads_attributes {nodes : List Node}
    (h : ∀ node ∈ nodes, (node.kind.isType ∨ node.kind.isAttribute) ∧ node.children = [])
    (package : Package) (table : Table) (column : Column) :
    Leads (Node.walkAll listen nodes) ⟨package, some table, some column⟩
      ⟨package.addImports (nodes.flatMap Node.typeImports), some table,
        some (nodes.foldl Column.told column)⟩ := by
  induction nodes generalizing package column with
  | nil => exact leads_pure _
  | cons node nodes ih =>
    have first := h node List.mem_cons_self
    have later := ih (fun other hother => h other (List.mem_cons_of_mem node hother))
      (package.addImports node.typeImports) (column.told node)
    rw [Node.walkAll, List.flatMap_cons, Package.addImports_append, List.foldl_cons]
    exact (leads_attribute first.1 first.2 package table column).andThen later

theorem leads_column {node : Node} (h : node.IsColumn) (package : Package) (table : Table) :
    Leads (node.walk listen) ⟨package, some table, none⟩
      ⟨package.addImports (node.children.flatMap Node.typeImports),
        some { table with columns := table.columns ++ [node.column] }, none⟩ := by
  obtain ⟨kind, text, children⟩ := node
  obtain ⟨type, attributes, hchildren, htype, hattributes⟩ := h.children
  obtain rfl : kind = .columnDeclaration := h.kind
  have leaves : ∀ child ∈ children,
      (child.kind.isType ∨ child.kind.isAttribute) ∧ child.children = [] := by
    intro child hchild
    rw [show children = type :: attributes from hchildren] at hchild
    rcases List.mem_cons.mp hchild with rfl | hchild
    · exact ⟨.inl htype.1, htype.2.childless⟩
    · have both := hattributes child hchild
      exact ⟨.inr both.1, both.2.childless⟩
  have enter : Leads (listen (.enter ⟨.columnDeclaration, text, children⟩))
      ⟨package, some table, none⟩ ⟨package, some table, some { name := Text.unquote text }⟩ :=
    leads_perform rfl (by simp)
  have exit (column : Column) (package : Package) :
      Leads (listen (.exit ⟨.columnDeclaration, text, children⟩)) ⟨package, some table, some column⟩
        ⟨package, some { table with columns := table.columns ++ [column] }, none⟩ :=
    leads_perform rfl (by simp [Notice.isStray])
  rw [Node.walk]
  exact enter.andThen ((leads_attributes leaves package table _).andThen (exit _ _))

theorem leads_other {node : Node} (hkind : node.kind = .tableConstraint ∨ node.kind = .tableOption)
    (childless : node.children = []) (draft : Draft) : Leads (node.walk listen) draft draft := by
  have idle (event : Event) (h : event = .enter node ∨ event = .exit node) :
      Leads (listen event) draft draft := by
    obtain ⟨kind, text, children⟩ := node
    rcases h with rfl | rfl <;> rcases hkind with rfl | rfl <;> exact leads_pure draft
  exact leads_leaf childless (idle _ (.inl rfl)) (idle _ (.inr rfl))

theorem leads_definitions {nodes : List Node} (h : ∀ node ∈ nodes, node.IsDefinition)
    (package : Package) (table : Table) :
    Leads (Node.walkAll listen nodes) ⟨package, some table, none⟩
      ⟨package.addImports (nodes.flatMap fun node => node.children.flatMap Node.typeImports),
        some { table with columns := table.columns ++ Node.columns nodes }, none⟩ := by
  induction nodes generalizing package table with
  | nil =>
    have columns : table.columns ++ Node.columns [] = table.columns := by simp [Node.columns]
    rw [columns]
    exact leads_pure _
  | cons node nodes ih =>
    have later := ih fun other hother => h other (List.mem_cons_of_mem node hother)
    rw [Node.walkAll, List.flatMap_cons, Package.addImports_append]
    rcases h node List.mem_cons_self with hcolumn | ⟨hkey, hleaf⟩
    · have columns : table.columns ++ Node.columns (node :: nodes) =
          (table.columns ++ [node.column]) ++ Node.columns nodes := by
        simp [Node.columns, hcolumn.kind]
      rw [columns]
      exact (leads_column hcolumn package table).andThen (later _ _)
    · have columns : Node.columns (node :: nodes) = Node.columns nodes := by
        simp [Node.columns, hkey]
      rw [columns, hleaf.childless]
      exact (leads_other (.inl hkey) hleaf.childless _).andThen (later _ _)

theorem leads_walkAll_append {first second : List Node} {before between after : Draft}
    (hfirst : Leads (Node.walkAll listen first) before between)
    (hsecond : Leads (Node.walkAll listen second) between after) :
    Leads (Node.walkAll listen (first ++ second)) before after := by
  have same : Node.walkAll listen (first ++ second) =
      (do Node.walkAll listen first; Node.walkAll listen second : DraftM Unit) := by
    clear hfirst hsecond
    induction first with
    | nil => rfl
    | cons node nodes ih =>
      rw [List.cons_append, Node.walkAll, ih, Node.walkAll, bind_assoc]
  rw [same]
  exact hfirst.andThen hsecond

theorem leads_options {nodes : List Node}
    (h : nodes = [] ∨ ∃ node, nodes = [node] ∧ node.kind = .tableOption ∧ node.IsLeaf) (draft : Draft) :
    Leads (Node.walkAll listen nodes) draft draft := by
  rcases h with rfl | ⟨node, rfl, hkind, hleaf⟩
  · exact leads_pure draft
  · exact (leads_other (.inr hkind) hleaf.childless draft).andThen (leads_pure draft)

theorem leads_table {node : Node} (h : node.IsTable) (package : Package) :
    Leads (node.walk listen) ⟨package, none, none⟩
      ⟨(package.addImports (Node.imports [node])).addTable node.table, none, none⟩ := by
  obtain ⟨kind, text, children⟩ := node
  obtain ⟨definitions, options, hchildren, -, hdefinitions, hoptions⟩ := h.children
  obtain rfl : kind = .createTable := h.kind
  obtain rfl : children = definitions ++ options := hchildren
  have columns : Node.columns (definitions ++ options) = Node.columns definitions := by
    rcases hoptions with rfl | ⟨other, rfl, hkind, -⟩
    · rw [List.append_nil]
    · simp [Node.columns, hkind]
  have imports : Node.imports [⟨.createTable, text, definitions ++ options⟩] =
      definitions.flatMap fun node => node.children.flatMap Node.typeImports := by
    rcases hoptions with rfl | ⟨other, rfl, -, hleaf⟩
    · simp [Node.imports]
    · simp [Node.imports, hleaf.childless]
  have enter : Leads (listen (.enter ⟨.createTable, text, definitions ++ options⟩))
      ⟨package, none, none⟩ ⟨package, some { name := tableName text }, none⟩ :=
    leads_perform rfl (by simp)
  have exit (table : Table) (package : Package) :
      Leads (listen (.exit ⟨.createTable, text, definitions ++ options⟩))
        ⟨package, some table, none⟩ ⟨package.addTable table, none, none⟩ :=
    leads_perform rfl (by simp [Notice.isStray])
  rw [imports, Node.table, columns, Node.walk]
  exact enter.andThen
    ((leads_walkAll_append (leads_definitions hdefinitions package { name := tableName text })
      (leads_options hoptions _)).andThen (exit _ _))

theorem leads_tables {nodes : List Node} (h : ∀ node ∈ nodes, node.IsTable) (package : Package) :
    Leads (Node.walkAll listen nodes) ⟨package, none, none⟩
      ⟨{ package.addImports (Node.imports nodes) with
          tables := package.tables ++ nodes.map Node.table }, none, none⟩ := by
  induction nodes generalizing package with
  | nil =>
    rw [List.map_nil, List.append_nil]
    exact leads_pure _
  | cons node nodes ih =>
    have first := leads_table (h node List.mem_cons_self) package
    have later := ih (fun other hother => h other (List.mem_cons_of_mem node hother))
      ((package.addImports (Node.imports [node])).addTable node.table)
    have imports : Node.imports (node :: nodes) = Node.imports [node] ++ Node.imports nodes := by
      simp [Node.imports]
    have whole : ({ ((package.addImports (Node.imports [node])).addTable node.table).addImports
          (Node.imports nodes) with
        tables := ((package.addImports (Node.imports [node])).addTable node.table).tables ++
          nodes.map Node.table } : Package) =
        { package.addImports (Node.imports (node :: nodes)) with
          tables := package.tables ++ (node :: nodes).map Node.table } := by
      rw [imports, Package.addImports_append]
      simp only [Package.mk.injEq]
      refine ⟨?_, ?_, ?_⟩
      · simp only [Package.addImports_name, Package.addTable]
      · simp only [Package.addTable, Package.addImports_tables, List.append_assoc, List.map_cons,
          List.singleton_append]
      · have same : ((package.addImports (Node.imports [node])).addTable node.table).imports =
            (package.addImports (Node.imports [node])).imports := rfl
        exact Package.addImports_imports_congr same _
    rw [← whole]
    exact first.andThen later

/-- A walk through a script's tree drafts its tables. -/
theorem leads_script {tree : Node} (h : tree.IsScript) (name : String) :
    Leads tree.draft (.start name) ⟨tree.packageNamed name, none, none⟩ := by
  obtain ⟨kind, text, children⟩ := tree
  obtain rfl : kind = .root := h.kind
  have tables := leads_tables h.children { name }
  have enter := leads_pure (.start name)
  rw [Node.draft, Node.walk]
  exact enter.andThen (tables.andThen (leads_pure _))

end DraftM

/-- What a source's tree tells of is built without a refusal and without a stray attribute. -/
theorem buildPackage_of_parse {source : String} {tree : Node} (settings : Settings)
    (h : Sql.parse source = .ok tree) :
    (buildPackage settings source).result = .ok (tree.packageNamed settings.packageName) ∧
      ∀ notice ∈ (buildPackage settings source).notices, notice.isStray = false := by
  have statements : ∀ notice ∈ (Sql.readScript source).notices, notice.isStray = false := by
    intro notice hnotice
    obtain ⟨statement, -, hstatement⟩ := List.mem_filterMap.mp hnotice
    cases statement with
    | table => contradiction
    | bodiless text | skipped text =>
      obtain rfl := Option.some.inj hstatement
      rfl
  obtain ⟨more, hwalk, hstray⟩ := DraftM.leads_script (Sql.parse_shape h) settings.packageName
    ((Sql.readScript source).notices ++ [.parsed tree.children.length])
  let package := tree.packageNamed settings.packageName
  let reports := (Sql.readScript source).notices ++ [.parsed tree.children.length] ++ more ++
    [.packageBuilt package.tables.length package.imports.length]
  have run : tree.package.runFrom ⟨.start settings.packageName,
      (Sql.readScript source).notices ++ [.parsed tree.children.length]⟩ =
      (.ok package, ⟨⟨package, none, none⟩, reports⟩) := by
    rw [Node.package, DraftM.runFrom_bind _ _ hwalk]
    rfl
  have built : buildPackage settings source = ⟨.ok package, reports⟩ := by
    have tree_eq : (Sql.readScript source).tree source.toList = .ok tree := h
    simp only [buildPackage, tree_eq, run]
    rfl
  rw [built]
  refine ⟨rfl, ?_⟩
  intro notice hnotice
  simp only [reports, List.mem_append, List.mem_singleton] at hnotice
  rcases hnotice with ((hnotice | rfl) | hnotice) | rfl
  · exact statements notice hnotice
  · rfl
  · exact hstray notice hnotice
  · rfl

theorem buildPackage_ok_iff {settings : Settings} {source : String} {package : Package} :
    (buildPackage settings source).result = .ok package ↔
      ∃ tree, Sql.parse source = .ok tree ∧ package = tree.packageNamed settings.packageName := by
  constructor
  · intro built
    cases parsed : Sql.parse source with
    | error error =>
      have tree_eq : (Sql.readScript source).tree source.toList = .error error := parsed
      simp [buildPackage, tree_eq] at built
    | ok tree =>
      rw [(buildPackage_of_parse settings parsed).1] at built
      exact ⟨tree, rfl, (Except.ok.inj built).symm⟩
  · rintro ⟨tree, parsed, rfl⟩
    exact (buildPackage_of_parse settings parsed).1

/-- Parsing and building agree. A tree that is parsed has the shape of a script, and the package is
built of it without a refusal and without a report of a stray attribute: it has one table for each
table of the tree, and a table has one column for each of its columns, in order. -/
theorem parsed_script_is_built {source : String} {tree : Node} (settings : Settings)
    (h : Sql.parse source = .ok tree) :
    tree.IsScript ∧ ∃ package, (buildPackage settings source).result = .ok package ∧
      package.tables = tree.children.map Node.table ∧
      ∀ notice ∈ (buildPackage settings source).notices, notice.isStray = false := by
  obtain ⟨built, stray⟩ := buildPackage_of_parse settings h
  exact ⟨Sql.parse_shape h, _, built, rfl, stray⟩

/-- A script of two tables with attributes, keys and options, and of a statement between them that is passed over. -/
def twoTables : String :=
  "CREATE TABLE a (x INT NOT NULL, y TEXT DEFAULT 'u' COMMENT 'v', KEY k (x)) ENGINE=x; DROP c; " ++
    "CREATE TABLE d.e (t TIME KEY) CHARSET=z"

def twoStructs : List Table :=
  [⟨"a", [{ name := "x", goType := "int64", notNull := true },
      { name := "y", goType := "string", defaultValue := some "'u'", comment := some "v" }]⟩,
    ⟨"e", [{ name := "t", goType := "float64" }]⟩]

theorem two_tables_are_built : ∃ tree, Sql.parse twoTables = .ok tree ∧ tree.children.map Node.table = twoStructs ∧
    tree.IsScript ∧
    ∃ package, (buildPackage {} twoTables).result = .ok package ∧ package.tables = tree.children.map Node.table ∧
      ∀ notice ∈ (buildPackage {} twoTables).notices, notice.isStray = false := by
  have parsed : (Sql.parse twoTables).toOption.map (·.children.map Node.table) = some twoStructs := by
    decide +kernel
  cases h : Sql.parse twoTables with
  | error error => simp [h, Except.toOption] at parsed
  | ok tree =>
    rw [h] at parsed
    exact ⟨tree, rfl, Option.some.inj parsed, parsed_script_is_built {} h⟩

end DdlModels
