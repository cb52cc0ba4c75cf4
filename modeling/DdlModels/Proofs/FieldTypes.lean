import DdlModels.Proofs.DraftWalk
import Mathlib.Data.List.Basic

/-!
# The types of fields

A field has one of five Go types. Fields that are points in time need the package `time` and all others need
nothing, so that a package that is built imports `time`, once, exactly if one of its fields is a point in time.
-/

namespace DdlModels

/-- The Go types that a field can have. -/
def GoType.all : List String := [GoType.int64, GoType.float64, GoType.bool, GoType.string, GoType.time]

def Column.imports (column : Column) : List String := if column.goType = GoType.time then ["time"] else []

namespace Package

/-- Some field is a point in time. -/
def HoldsTime (package : Package) : Prop :=
  ∃ table ∈ package.tables, ∃ column ∈ table.columns, column.goType = GoType.time

instance (package : Package) : Decidable package.HoldsTime :=
  inferInstanceAs (Decidable (∃ table ∈ package.tables, ∃ column ∈ table.columns, column.goType = GoType.time))

/-- The fields have known types, and what they need is imported, each once. -/
structure WellTyped (package : Package) : Prop where
  types : ∀ table ∈ package.tables, ∀ column ∈ table.columns, column.goType ∈ GoType.all
  imports : package.imports = if package.HoldsTime then ["time"] else []

/-- What stands after the package clause and the imports. -/
def structs (package : Package) : String := String.join (package.tables.map fun table => table.goSource ++ "\n")

end Package

/-- What is true of every rule of every category is true of the rule for a type. -/
theorem TypeCategory.classify_rule {P : TypeRule → Prop}
    (h : ∀ category ∈ TypeCategory.all, ∀ rule ∈ (TypeCategory.rules category).toList, P rule)
    (category : TypeCategory) (name : String) : P (category.rules.classify name) := by
  have known : category ∈ TypeCategory.all := by cases category <;> decide
  have mem : category.rules.classify name ∈ category.rules.toList := by
    simp only [RuleChain.classify, RuleChain.toList, List.mem_append, List.mem_singleton]
    cases found : category.rules.rules.find? (·.covers (Text.lowercase (Text.trim name.toList))) with
    | none => exact .inr rfl
    | some rule => exact .inl (List.mem_of_find?_eq_some found)
  exact h category known _ mem

theorem goType_mem (category : TypeCategory) (name : String) :
    (category.rules.classify name).goType ∈ GoType.all :=
  TypeCategory.classify_rule (P := fun rule => rule.goType ∈ GoType.all) (by decide) category name

theorem imports_of_goType (category : TypeCategory) (name : String) :
    (category.rules.classify name).imports =
      if (category.rules.classify name).goType = GoType.time then ["time"] else [] :=
  TypeCategory.classify_rule
    (P := fun rule => rule.imports = if rule.goType = GoType.time then ["time"] else []) (by decide) category name

namespace Node

private theorem goType_of_attributes {nodes : List Node} (h : ∀ node ∈ nodes, node.kind.isAttribute)
    (column : Column) :
    (nodes.foldl Column.told column).goType = column.goType ∧ nodes.flatMap typeImports = [] := by
  induction nodes generalizing column with
  | nil => exact ⟨rfl, rfl⟩
  | cons node nodes ih =>
    obtain ⟨kept, none⟩ := ih (fun other hother => h other (List.mem_cons_of_mem node hother)) (column.told node)
    have told := h node List.mem_cons_self
    have first : (column.told node).goType = column.goType ∧ node.typeImports = [] := by
      obtain ⟨kind, text, children⟩ := node
      cases kind with
      | dataType => simp [NodeKind.isAttribute] at told
      | _ => simp [Column.told, typeImports]
    rw [List.foldl_cons, kept, List.flatMap_cons, none, first.2]
    exact ⟨first.1, rfl⟩

theorem IsColumn.typed {node : Node} (h : node.IsColumn) :
    node.column.goType ∈ GoType.all ∧ node.children.flatMap typeImports = node.column.imports := by
  obtain ⟨type, attributes, hchildren, ⟨htype, -⟩, hattributes⟩ := h.children
  obtain ⟨kind, text, children⟩ := type
  cases kind with
  | dataType category =>
    obtain ⟨kept, none⟩ := goType_of_attributes (fun item hitem => (hattributes item hitem).1)
      (Column.told { name := Text.unquote node.text } ⟨.dataType category, text, children⟩)
    have goType : node.column.goType = (category.rules.classify text).goType := by
      rw [column, hchildren, List.foldl_cons, kept]
      rfl
    have imports : node.children.flatMap typeImports = (category.rules.classify text).imports := by
      rw [hchildren, List.flatMap_cons, none, List.append_nil]
      rfl
    rw [imports, imports_of_goType, Column.imports, goType]
    exact ⟨goType_mem category text, rfl⟩
  | _ => simp [NodeKind.isType, NodeKind.category?] at htype

private theorem columns_typed {nodes : List Node}
    (h : ∀ node ∈ nodes, node.IsColumn ∨ node.kind ≠ .columnDeclaration ∧ node.children = []) :
    (∀ column ∈ columns nodes, column.goType ∈ GoType.all) ∧
      (nodes.flatMap fun node => node.children.flatMap typeImports) = (columns nodes).flatMap Column.imports := by
  induction nodes with
  | nil => exact ⟨by simp [columns], rfl⟩
  | cons node nodes ih =>
    obtain ⟨types, imports⟩ := ih fun other hother => h other (List.mem_cons_of_mem node hother)
    rw [List.flatMap_cons, imports]
    rcases h node List.mem_cons_self with hcolumn | ⟨hkind, childless⟩
    · have split : columns (node :: nodes) = node.column :: columns nodes := by simp [columns, hcolumn.kind]
      rw [split, List.flatMap_cons, hcolumn.typed.2]
      refine ⟨?_, rfl⟩
      intro column hmem
      rcases List.mem_cons.mp hmem with rfl | hmem
      · exact hcolumn.typed.1
      · exact types column hmem
    · have split : columns (node :: nodes) = columns nodes := by simp [columns, hkind]
      rw [split, childless]
      exact ⟨types, rfl⟩

theorem IsTable.typed {node : Node} (h : node.IsTable) :
    (∀ column ∈ node.table.columns, column.goType ∈ GoType.all) ∧
      (node.children.flatMap fun child => child.children.flatMap typeImports) =
        node.table.columns.flatMap Column.imports := by
  apply columns_typed
  obtain ⟨definitions, options, hchildren, -, hdefinitions, hoptions⟩ := h.children
  rw [hchildren]
  intro child hchild
  rcases List.mem_append.mp hchild with hchild | hchild
  · rcases hdefinitions child hchild with hcolumn | ⟨hkey, hleaf⟩
    · exact .inl hcolumn
    · exact .inr ⟨by simp [hkey], hleaf.childless⟩
  · rcases hoptions with rfl | ⟨option, rfl, hkind, hleaf⟩
    · contradiction
    · obtain rfl := List.mem_singleton.mp hchild
      exact .inr ⟨by simp [hkind], hleaf.childless⟩

/-- The package that a script's tree tells of is well typed. -/
theorem IsScript.wellTyped {tree : Node} (h : tree.IsScript) (name : String) :
    (tree.packageNamed name).WellTyped := by
  have needs : imports tree.children =
      (tree.children.map table).flatMap fun struct => struct.columns.flatMap Column.imports := by
    rw [List.flatMap_map, imports]
    exact List.flatMap_congr fun node hnode => (h.children node hnode).typed.2
  have all_time : ∀ path ∈ imports tree.children, path = "time" := by
    intro path hpath
    rw [needs] at hpath
    simp only [List.mem_flatMap, Column.imports] at hpath
    obtain ⟨struct, -, column, -, mem⟩ := hpath
    split at mem
    case isTrue => exact List.mem_singleton.mp mem
    case isFalse => contradiction
  have none_needed : imports tree.children = [] ↔ ¬ (tree.packageNamed name).HoldsTime := by
    rw [needs]
    simp [Package.HoldsTime, packageNamed, Column.imports]
  refine ⟨?_, ?_⟩
  · intro struct hstruct column hcolumn
    obtain ⟨node, hnode, rfl⟩ := List.mem_map.mp hstruct
    exact (h.children node hnode).typed.1 column hcolumn
  · have once := Package.addImports_same all_time name
    rw [if_congr none_needed rfl rfl, ite_not] at once
    exact once

end Node

/-- A package that is built has the name that the settings give, and is well typed. -/
theorem buildPackage_wellTyped {settings : Settings} {source : String} {package : Package}
    (built : (buildPackage settings source).result = .ok package) :
    package.name = settings.packageName ∧ package.WellTyped := by
  obtain ⟨tree, parsed, rfl⟩ := buildPackage_ok_iff.mp built
  exact ⟨Package.addImports_name _ _, (Sql.parse_shape parsed).wellTyped settings.packageName⟩

theorem buildPackage_eq_iff {settings : Settings} {source other : String} {package twin : Package}
    (built : (buildPackage settings source).result = .ok package)
    (rebuilt : (buildPackage settings other).result = .ok twin) : twin = package ↔ twin.tables = package.tables := by
  obtain ⟨name, typed⟩ := buildPackage_wellTyped built
  obtain ⟨rename, retyped⟩ := buildPackage_wellTyped rebuilt
  constructor
  · rintro rfl
    rfl
  · intro same
    have imports : twin.imports = package.imports := by
      have holds : twin.HoldsTime ↔ package.HoldsTime := by rw [Package.HoldsTime, same, Package.HoldsTime]
      rw [typed.imports, retyped.imports]
      exact if_congr holds rfl rfl
    obtain ⟨packageName, tables, paths⟩ := package
    obtain ⟨twinName, twinTables, twinPaths⟩ := twin
    obtain rfl : tables = twinTables := same.symm
    obtain rfl : paths = twinPaths := imports.symm
    obtain rfl : packageName = twinName := name.trans rename.symm
    rfl

private theorem structs_head (package : Package) : ∀ c ∈ package.structs.toList.head?, c = '\n' := by
  rw [Package.structs]
  cases package.tables with
  | nil => simp
  | cons table tables => simp [Table.goSource]

/-- The source of a well-typed package has one import block, of the package `time`, or none. -/
theorem Package.WellTyped.goSource {package : Package} (h : package.WellTyped) :
    package.goSource = "package " ++ package.clauseName ++ "\n" ++
      (if package.HoldsTime then "import (\n    \x22time\x22\n)\n" else "") ++ package.structs := by
  rw [Package.goSource, h.imports, ← Package.structs]
  split <;> rfl

/-- Whether the package clause is followed by an import block can be seen from a package's fields. -/
theorem Package.WellTyped.imports_follow {package : Package} (h : package.WellTyped) :
    ("package " ++ package.clauseName ++ "\nimport (").toList <+: package.goSource.toList ↔ package.HoldsTime := by
  have clause : ("package " ++ package.clauseName ++ "\nimport (").toList =
      ("package " ++ package.clauseName ++ "\n").toList ++ "import (".toList := by simp
  have whole : package.goSource.toList = ("package " ++ package.clauseName ++ "\n").toList ++
      ((if package.HoldsTime then "import (\n    \x22time\x22\n)\n" else "").toList ++ package.structs.toList) := by
    rw [h.goSource, String.toList_append, String.toList_append, List.append_assoc]
  rw [clause, whole, List.prefix_append_right_inj]
  by_cases holds : package.HoldsTime
  · simp [holds]
  · simp only [holds, if_false, iff_false]
    intro starts
    obtain ⟨rest, hrest⟩ := starts
    have head := structs_head package 'i' (by simpa using congrArg List.head? hrest.symm)
    contradiction

/-- Imports match the types that are used. Every field of a package that is built has one of five types. The
package imports `time`, once, if some field is a point in time, and nothing otherwise, and so does its source:
there the import block stands between the package clause and the structs. -/
theorem imports_match_types {settings : Settings} {source : String} {package : Package}
    (built : (buildPackage settings source).result = .ok package) :
    (∀ table ∈ package.tables, ∀ column ∈ table.columns,
      column.goType ∈ ["int64", "float64", "bool", "string", "time.Time"]) ∧
    package.imports = (if ∃ table ∈ package.tables, ∃ column ∈ table.columns, column.goType = "time.Time"
      then ["time"] else []) ∧
    ∃ text, convert settings source = .ok text ∧
      text = "package " ++ package.clauseName ++ "\n" ++
        (if ∃ table ∈ package.tables, ∃ column ∈ table.columns, column.goType = "time.Time"
          then "import (\n    \x22time\x22\n)\n" else "") ++ package.structs ∧
      (("package " ++ package.clauseName ++ "\nimport (").toList <+: text.toList ↔
        ∃ table ∈ package.tables, ∃ column ∈ table.columns, column.goType = "time.Time") := by
  obtain ⟨-, typed⟩ := buildPackage_wellTyped built
  have converted : convert settings source = .ok package.goSource := by
    rw [convert, built]
    rfl
  exact ⟨typed.types, typed.imports, _, converted, typed.goSource, typed.imports_follow⟩

theorem three_moments_import_time_once :
    (buildPackage {} "CREATE TABLE a (x DATETIME, n INT); CREATE TABLE b (y DATE, z YEAR)").result =
      .ok { tables := [⟨"a", [{ name := "x", goType := "time.Time" }, { name := "n", goType := "int64" }]⟩,
              ⟨"b", [{ name := "y", goType := "time.Time" }, { name := "z", goType := "time.Time" }]⟩],
            imports := ["time"] } ∧
    ∃ structs, convert {} "CREATE TABLE a (x DATETIME, n INT); CREATE TABLE b (y DATE, z YEAR)" =
      .ok ("package models\nimport (\n    \x22time\x22\n)\n" ++ structs) := by
  have built : (buildPackage {} "CREATE TABLE a (x DATETIME, n INT); CREATE TABLE b (y DATE, z YEAR)").result =
      .ok { tables := [⟨"a", [{ name := "x", goType := "time.Time" }, { name := "n", goType := "int64" }]⟩,
              ⟨"b", [{ name := "y", goType := "time.Time" }, { name := "z", goType := "time.Time" }]⟩],
            imports := ["time"] } := by decide +kernel
  obtain ⟨-, -, text, converted, written, -⟩ := imports_match_types built
  exact ⟨built, _, by rw [converted, written, if_pos (by decide)]; rfl⟩

end DdlModels
