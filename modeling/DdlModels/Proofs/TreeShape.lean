import DdlModels.Proofs.Stopping

/-!
# The shape of a script's tree

A tree that is read from a script is a root with tables, a table has columns and keys and perhaps its
options, a column has its type and its attributes, and everything else is a leaf with a text.
-/

namespace DdlModels

def NodeKind.isAttribute : NodeKind → Bool
  | nullConstraint | defaultConstraint | commentConstraint | autoIncrementConstraint
  | primaryKeyConstraint | uniqueKeyConstraint | otherColumnConstraint => true
  | _ => false

def NodeKind.isType (kind : NodeKind) : Bool := kind.category?.isSome

namespace Node

/-- A node without children, with a text. -/
structure IsLeaf (node : Node) : Prop where
  childless : node.children = []
  text : node.text ≠ ""

/-- A column has a type in front and attributes after it. -/
structure IsColumn (node : Node) : Prop where
  kind : node.kind = .columnDeclaration
  text : node.text ≠ ""
  children : ∃ type attributes, node.children = type :: attributes ∧
    (type.kind.isType ∧ type.IsLeaf) ∧
    ∀ item ∈ attributes, item.kind.isAttribute ∧ item.IsLeaf

/-- A definition of a table is a column, or a key as a leaf. -/
def IsDefinition (node : Node) : Prop :=
  node.IsColumn ∨ (node.kind = .tableConstraint ∧ node.IsLeaf)

/-- A table has at least one definition, and its options, if any, after them. -/
structure IsTable (node : Node) : Prop where
  kind : node.kind = .createTable
  text : node.text ≠ ""
  children : ∃ definitions options, node.children = definitions ++ options ∧ definitions ≠ [] ∧
    (∀ definition ∈ definitions, definition.IsDefinition) ∧
    (options = [] ∨ ∃ option, options = [option] ∧ option.kind = .tableOption ∧ option.IsLeaf)

/-- The root has tables only. -/
structure IsScript (node : Node) : Prop where
  kind : node.kind = .root
  children : ∀ table ∈ node.children, table.IsTable

end Node

namespace Sql.Grammar

/-- Whether exactly one leaf is made, with a text and a kind of some class. -/
def makesLeaf (member : NodeKind → Bool) : Grammar → Bool
  | .leaf kind part => member kind && part.advances
  | .trimmedLeaf kind part => member kind && part.bold
  | .choice first second => first.makesLeaf member && second.makesLeaf member
  | .seq first second =>
    first.silent && second.makesLeaf member || first.makesLeaf member && second.silent
  | .cut part | .context _ part => part.makesLeaf member
  | _ => false

theorem yields_leaf {member : NodeKind → Bool} {grammar : Grammar} (h : grammar.makesLeaf member)
    {nodes : List Node} (yields : grammar.Yields nodes) :
    ∃ node, nodes = [node] ∧ member node.kind ∧ node.IsLeaf := by
  induction grammar generalizing nodes with
  | seq first second ihf ihs =>
    obtain ⟨before, after, hbefore, hafter, rfl⟩ := yields
    rcases Bool.or_eq_true_iff.mp h with h | h
    · obtain ⟨silent, leaf⟩ := Bool.and_eq_true_iff.mp h
      rw [eq_nil_of_silent silent hbefore, List.nil_append]
      exact ihs leaf hafter
    · obtain ⟨leaf, silent⟩ := Bool.and_eq_true_iff.mp h
      rw [eq_nil_of_silent silent hafter, List.append_nil]
      exact ihf leaf hbefore
  | choice first second ihf ihs =>
    have both := Bool.and_eq_true_iff.mp h
    rcases yields with yields | yields
    · exact ihf both.1 yields
    · exact ihs both.2 yields
  | cut part ih => exact ih h yields
  | context what part ih => exact ih h yields
  | leaf kind part _ =>
    have both := Bool.and_eq_true_iff.mp h
    obtain ⟨text, htext, rfl⟩ := yields
    exact ⟨.leaf kind text, rfl, both.1, rfl, htext both.2⟩
  | trimmedLeaf kind part _ =>
    have both := Bool.and_eq_true_iff.mp h
    rcases yields with ⟨faint, -⟩ | ⟨text, htext, rfl⟩
    · simp [faint] at both
    · exact ⟨.leaf kind text, rfl, both.1, rfl, htext⟩
  | lexeme | group | optional | many | butNot | branch => contradiction

theorem yields_leaves {member : NodeKind → Bool} {part : Grammar} (h : part.makesLeaf member)
    {nodes : List Node} (yields : (many part).Yields nodes) :
    ∀ node ∈ nodes, member node.kind ∧ node.IsLeaf := by
  obtain ⟨turns, hturns, rfl⟩ := yields
  intro node hnode
  obtain ⟨turn, hturn, hnode⟩ := List.mem_flatten.mp hnode
  obtain ⟨leaf, rfl, hkind, hleaf⟩ := yields_leaf h (hturns turn hturn)
  rw [List.mem_singleton.mp hnode]
  exact ⟨hkind, hleaf⟩

theorem column_yields {nodes : List Node} (yields : column.Yields nodes) :
    ∃ node, nodes = [node] ∧ node.IsColumn := by
  obtain ⟨text, children, htext, ⟨types, attributes, htypes, hattributes, rfl⟩, rfl⟩ := yields
  obtain ⟨type, rfl, htype⟩ :=
    yields_leaf (by decide : (commit "data type" (blanks ++ dataType)).makesLeaf NodeKind.isType) htypes
  refine ⟨_, rfl, rfl, htext (by decide), type, attributes, rfl, htype, ?_⟩
  exact yields_leaves (by decide) hattributes

theorem definition_yields {nodes : List Node} (yields : definition.Yields nodes) :
    ∃ node, nodes = [node] ∧ node.IsDefinition := by
  rcases yields with yields | yields
  · obtain ⟨node, rfl, hkind, hleaf⟩ :=
      yields_leaf (by decide : tableConstraint.makesLeaf (· == .tableConstraint)) yields
    exact ⟨node, rfl, .inr ⟨by simpa using hkind, hleaf⟩⟩
  · obtain ⟨node, rfl, hcolumn⟩ := column_yields yields
    exact ⟨node, rfl, .inl hcolumn⟩

private theorem more_yields {nodes : List Node}
    (yields : (many (blanks ++ symbol ',' ++ blanks ++ definition)).Yields nodes) :
    ∀ node ∈ nodes, node.IsDefinition := by
  obtain ⟨turns, hturns, rfl⟩ := yields
  intro node hnode
  obtain ⟨turn, hturn, hnode⟩ := List.mem_flatten.mp hnode
  obtain ⟨before, after, hbefore, hafter, rfl⟩ := hturns turn hturn
  obtain ⟨only, rfl, honly⟩ := definition_yields hafter
  rw [eq_nil_of_silent (by decide) hbefore, List.nil_append] at hnode
  rw [List.mem_singleton.mp hnode]
  exact honly

theorem definitions_yields {nodes : List Node} (yields : definitions.Yields nodes) :
    nodes ≠ [] ∧ ∀ node ∈ nodes, node.IsDefinition := by
  obtain ⟨_, close, ⟨_, blank, ⟨_, more, ⟨start, first, hstart, hfirst, rfl⟩, hmore, rfl⟩, hblank, rfl⟩,
    hclose, rfl⟩ := yields
  obtain ⟨node, rfl, hnode⟩ := definition_yields hfirst
  rw [eq_nil_of_silent (by decide) hstart, eq_nil_of_silent (by decide) hblank,
    eq_nil_of_silent (by decide) hclose]
  refine ⟨by simp, ?_⟩
  intro other hother
  simp only [List.nil_append, List.append_nil, List.mem_append, List.mem_singleton] at hother
  rcases hother with rfl | hother
  · exact hnode
  · exact more_yields hmore other hother

theorem options_yields {nodes : List Node}
    (yields : (trimmedLeaf .tableOption statementTail).Yields nodes) :
    nodes = [] ∨ ∃ node, nodes = [node] ∧ node.kind = .tableOption ∧ node.IsLeaf := by
  rcases yields with ⟨-, rfl⟩ | ⟨text, htext, rfl⟩
  · exact .inl rfl
  · exact .inr ⟨_, rfl, rfl, rfl, htext⟩

/-- The statement that creates a table makes that table's node, or none. -/
theorem tableStatement_yields {nodes : List Node} (yields : tableStatement.Yields nodes) :
    nodes = [] ∨ ∃ node, nodes = [node] ∧ node.IsTable := by
  obtain ⟨head, body, hhead, hbody, rfl⟩ := yields
  rw [eq_nil_of_silent (by decide) hhead, List.nil_append]
  rcases hbody with hbody | hbody
  · obtain ⟨text, _, htext, ⟨_, options, ⟨_, blank, ⟨start, nodes, hstart, hnodes, rfl⟩, hblank, rfl⟩,
      hoptions, rfl⟩, rfl⟩ := hbody
    rw [eq_nil_of_silent (by decide) hstart, eq_nil_of_silent (by decide) hblank, List.nil_append,
      List.append_nil]
    have both := definitions_yields hnodes
    exact .inr ⟨_, rfl, rfl, htext (by decide), nodes, options, rfl, both.1, both.2,
      options_yields hoptions⟩
  · exact .inl (eq_nil_of_silent (by decide) hbody)

end Sql.Grammar

namespace Sql.Script

private theorem next_table {text rest : List Char} {node : Node}
    (h : next text = .statement (.table node) rest) : node.IsTable := by
  obtain ⟨nodes, reads, table⟩ := reads_of_next_table h
  rcases Grammar.tableStatement_yields reads.yields with rfl | ⟨only, rfl, honly⟩
  · contradiction
  · rwa [← Statement.table.inj table]

theorem tables_shape (text : List Char) : ∀ node ∈ (readFrom text).tables, node.IsTable := by
  fun_induction readFrom text with
  | case1 text | case4 text fault found => simp [tables, halted]
  | case2 text rest found ih => exact ih
  | case3 text statement rest found ih =>
    intro node hnode
    rw [tables_cons] at hnode
    cases statement with
    | table only =>
      rcases List.mem_cons.mp hnode with rfl | hnode
      · exact next_table found
      · exact ih node hnode
    | bodiless | skipped => exact ih node hnode

end Sql.Script

theorem Sql.parse_shape {source : String} {tree : Node} (h : Sql.parse source = .ok tree) :
    tree.IsScript := by
  simp only [Sql.parse, Sql.Script.tree] at h
  split at h
  · contradiction
  · obtain rfl := Except.ok.inj h
    exact ⟨rfl, Sql.Script.tables_shape source.toList⟩

end DdlModels
