import DdlModels.Proofs.AttributePlaces

/-!
# Inserted attributes

An attribute that says nothing about a column's field may be put between any others of the column. The script is
still read, with a node more at most, and the same package is built of it.
-/

namespace DdlModels.Sql

open Text Grammar Script Written

variable {place : AttributePlace} {gap inserted rest left : List Char} {children definitions : List Node}

theorem silent_of_ignored {node : Node} {item : IgnoredAttribute} (kind : node.kind = item.kind) (column : Column) :
    column.told node = column ∧ node.typeImports = [] := by
  cases item <;> simp [Column.told, Node.typeImports, kind, IgnoredAttribute.kind]

theorem packageNamed_afterAttribute {node : Node}
    (silent : ∀ column : Column, column.told node = column ∧ node.typeImports = [])
    (packageName : String) (place : AttributePlace) (taken : List Char) (others : List Node) :
    Node.packageNamed packageName
        ⟨.root, "", place.tables ++ (place.afterAttribute taken node).table children definitions :: others⟩ =
      Node.packageNamed packageName ⟨.root, "", place.tables ++ place.table children definitions :: others⟩ := by
  have told (column : Column) : column.told node = column := (silent column).1
  have imports : node.typeImports = [] := (silent { name := "" }).2
  simp [Node.packageNamed, Node.imports, Node.table, Node.columns, Node.column, AttributePlace.table,
    AttributePlace.afterAttribute, told, imports]

private theorem swapped_space (nonempty : gap ++ rest ≠ []) (text : List Char) :
    Swapped (gap ++ rest) (gap ++ ' ' :: text) := by
  refine ⟨nonempty, ?_⟩
  cases gap with
  | nil => exact ⟨' ', rfl, .inr rfl⟩
  | cons c gap => exact ⟨c, rfl, .inl rfl⟩

namespace AttributePlace

def withInserted (gap inserted rest : List Char) : List Char := gap ++ ' ' :: (inserted ++ ' ' :: rest)

variable {item : IgnoredAttribute} (between : place.Between (gap ++ rest)) (skipped : Skipped gap)
  (laid : Laid item.tokens inserted) (goes : GoesOn (gap ++ rest) children definitions left)

include between skipped laid goes

/-- The place is reached when an attribute is put there, and the type is not modified further unless the attribute is
a collation right after it. -/
private theorem Between.reached_inserted : place.Reached (withInserted gap inserted rest) ∧
    (place.attributes ≠ [] ∨ item.isCollation = false →
      modifierTurn.Misses (place.attributes ++ withInserted gap inserted rest)) := by
  have before : LaidBefore rest item.tokens (inserted ++ ' ' :: rest) := ⟨inserted, laid, rfl⟩
  have swapped : Swapped (gap ++ rest) (withInserted gap inserted rest) :=
    swapped_space (List.ne_nil_of_mem goes.parenthesis_mem) _
  have fits := item.sought_misses skipped before
  refine ⟨between.swap swapped fun part hpart _ => fits part hpart, fun known => ?_⟩
  by_cases first : place.attributes = []
  · rw [first]
    exact item.modifier_misses skipped before (known.resolve_left (not_not_intro first))
  · exact between.told.excludes attributeTurn_swaps (by decide) turns_exclude
      (turn_excludes_modifier.mono (List.nil_subset _)) first swapped
      (fun part hpart _ => fits part (List.mem_append_left _ hpart)) between.unmodified

/-- With the attribute, the script goes on at a later place as it did at the first one, and the package is the same. -/
theorem Between.onward (apart : item.isReference → (Grammar.blanks ++ onUpdate).Misses rest) :
    ∃ (after : AttributePlace) (start : List Char), after.Between start ∧
      after.script start = place.script (withInserted gap inserted rest) ∧ GoesOn start children definitions left ∧
        ∀ (packageName : String) (others : List Node), Node.packageNamed packageName
            ⟨.root, "", after.tables ++ after.table children definitions :: others⟩ =
          Node.packageNamed packageName ⟨.root, "", place.tables ++ place.table children definitions :: others⟩ := by
  obtain ⟨reached, unmodified⟩ := between.reached_inserted skipped laid goes
  have before : LaidBefore rest item.tokens (inserted ++ ' ' :: rest) := ⟨inserted, laid, rfl⟩
  have rests : GoesOn rest children definitions left := goes.same (skipped rest)
  have blanks : skipBlanks (withInserted gap inserted rest) = skipBlanks (inserted ++ ' ' :: rest) := skipped.space _
  by_cases known : place.attributes ≠ [] ∨ item.isCollation = false
  · obtain ⟨node, start, turn, kind, later⟩ :=
      item.reads rests.storage_misses (fun reference => rests.action_misses (apart reference)) before
    replace turn : attributeTurn.Reads (withInserted gap inserted rest) [node] start :=
      (blanks_reads_iff blanks).mpr turn
    obtain ⟨taken, split⟩ := turn.splits
    rw [split] at reached unmodified turn ⊢
    refine ⟨place.afterAttribute taken node, start, ⟨reached.afterAttribute turn, ?_⟩, ?_,
      rests.same later.skipBlanks_eq.symm, fun packageName =>
        packageNamed_afterAttribute (silent_of_ignored kind) packageName place taken⟩
    · rw [AttributePlace.afterAttribute, List.append_assoc]
      exact unmodified known
    · simp only [script, statement, column, typed, AttributePlace.afterAttribute, List.append_assoc]
  · obtain ⟨first, collation⟩ : place.attributes = [] ∧ item.isCollation = true := by simpa using known
    obtain ⟨name, rfl⟩ := item.eq_collation collation
    obtain ⟨start, turn, later⟩ := IgnoredAttribute.collation_modifies before
    replace turn : modifierTurn.Reads (withInserted gap inserted rest) [] start := (blanks_reads_iff blanks).mpr turn
    obtain ⟨taken, split⟩ := turn.splits
    have told := reached.told_eq_nil first
    have typed : modifierTurn.Misses start := by
      have missed := between.unmodified
      rw [first, List.nil_append] at missed
      exact (blanks_misses_iff ((skipped rest).trans later.skipBlanks_eq.symm)).mp missed
    rw [split] at reached turn ⊢
    refine ⟨place.afterModifier taken, start, ⟨reached.afterModifier first turn, typed⟩, ?_,
      rests.same later.skipBlanks_eq.symm, fun packageName others => ?_⟩
    · simp only [script, statement, column, AttributePlace.typed, AttributePlace.afterModifier, first,
        List.append_assoc, List.nil_append]
    · simp only [table, AttributePlace.afterModifier, told]

omit goes in
/-- The package that is built of the script is built with the attribute in it. -/
theorem Between.built_inserted (settings : Settings)
    (apart : item.isReference → (Grammar.blanks ++ onUpdate).Misses rest)
    {package : Package}
    (built : (buildPackage settings (String.ofList (place.script (gap ++ rest)))).result = .ok package) :
    (buildPackage settings (String.ofList (place.script (withInserted gap inserted rest)))).result = .ok package := by
  obtain ⟨_, parsed, rfl⟩ := buildPackage_ok_iff.mp built
  obtain ⟨children, definitions, left, goes, sound, rfl⟩ := between.parse_iff.mp parsed
  obtain ⟨after, start, later, same, onward, told⟩ := between.onward skipped laid goes apart
  have reparsed := later.parse_iff.mpr ⟨children, definitions, left, onward, sound, rfl⟩
  rw [same] at reparsed
  exact buildPackage_ok_iff.mpr ⟨_, reparsed, (told settings.packageName (readFrom left).tables).symm⟩

end AttributePlace

/-- In a table that is read after other statements, an attribute that says nothing fits in after any of the attributes
of any of the columns. -/
theorem ignored_attribute_fits_anywhere (settings : Settings) (item : IgnoredAttribute)
    (laid : Laid item.tokens inserted) {front text : List Char} {tables told others : List Node} {type : Node}
    {reference name : String} (foregoing : Foregoing front tables)
    (reads : tableStatement.Reads text [⟨.createTable, reference,
      definitions ++ ⟨.columnDeclaration, name, type :: (told ++ children)⟩ :: others⟩] left) {package : Package}
    (built : (buildPackage settings (String.ofList (front ++ text))).result = .ok package) :
    ∃ (place : AttributePlace) (rest : List Char), place.Between rest ∧ place.script rest = front ++ text ∧
      place.tables = tables ∧ place.definitions = definitions ∧ place.told = told ∧
      ((item.isReference → (Grammar.blanks ++ onUpdate).Misses rest) →
        (buildPackage settings (String.ofList (place.script (' ' :: (inserted ++ ' ' :: rest))))).result =
          .ok package) := by
  obtain ⟨place, rest, between, -, script, tables, definitions, told, -⟩ :=
    AttributePlace.exists_between foregoing reads
  refine ⟨place, rest, between, script, tables, definitions, told, fun apart => ?_⟩
  have skipped : Skipped [] := fun _ => rfl
  have here : place.Between ([] ++ rest) := between
  exact here.built_inserted skipped laid settings apart (by rwa [List.nil_append, script])

/-- An attribute that says nothing about a column's field may be put, with spaces around it, at any place among the
attributes of any column: the package that was built is built again. A reference may not be put right before an
attribute that tells what to do when a row is updated. -/
theorem inserted_attribute_changes_nothing (settings : Settings) (place : AttributePlace) (item : IgnoredAttribute)
    (skipped : Skipped gap) (between : place.Between (gap ++ rest)) (laid : Laid item.tokens inserted)
    (apart : item.isReference → (Grammar.blanks ++ onUpdate).Misses rest) {package : Package}
    (built : (buildPackage settings (String.ofList (place.script (gap ++ rest)))).result = .ok package) :
    (buildPackage settings (String.ofList (place.script (gap ++ ' ' :: (inserted ++ ' ' :: rest))))).result = .ok package := by
  exact between.built_inserted skipped laid settings apart built

private def beforeDefault : AttributePlace where
  front := []
  tables := []
  foregoing := foregoing_nothing
  opening := "CREATE TABLE t (".toList
  reference := "t"
  leading := []
  definitions := []
  head := "a INT".toList
  name := "a"
  type := [.leaf (.dataType .dimension) "INT"]
  modifiers := []
  attributes := " NOT NULL".toList
  told := [.leaf .nullConstraint "NOT NULL"]

private theorem beforeDefault_between : beforeDefault.Between " DEFAULT 1, b INT)".toList := by
  have notNull : attributeTurn.Reads (beforeDefault.attributes ++ " DEFAULT 1, b INT)".toList)
      [.leaf .nullConstraint "NOT NULL"] " DEFAULT 1, b INT)".toList := ⟨" NOT NULL".toList, by decide +kernel⟩
  have gap : Grammar.blanks.Reads " NOT NULL DEFAULT 1, b INT)".toList [] "NOT NULL DEFAULT 1, b INT)".toList :=
    ⟨[' '], by decide +kernel⟩
  exact
    { opens := ⟨"CREATE TABLE t (".toList, by decide +kernel⟩
      leads := .done
      columnar := misses_of_blocked (refuses_at 'a' _) (by decide)
      headed := ⟨"a INT".toList, by decide +kernel⟩
      modified := .done
      told := .turn notNull .done
      unmodified := gap.seq_misses (misses_of_blocked (refuses_at 'N' _) (by decide)) }

/-- What a reference does to a row's value when another row is deleted is no default of the column. -/
theorem reference_before_default_changes_nothing :
    let package : Package :=
      { tables := [⟨"t", [{ name := "a", goType := "int64", notNull := true, defaultValue := some "1" },
          { name := "b", goType := "int64" }]⟩] }
    (buildPackage {} "CREATE TABLE t (a INT NOT NULL DEFAULT 1, b INT)").result = .ok package ∧
      (buildPackage {} "CREATE TABLE t (a INT NOT NULL REFERENCES u (x) ON DELETE SET DEFAULT  DEFAULT 1, b INT)").result =
        .ok package := by
  intro package
  have built : (buildPackage {} "CREATE TABLE t (a INT NOT NULL DEFAULT 1, b INT)").result = .ok package := by
    decide +kernel
  have space : Spacing.apart.Allows [' '] := ⟨.space (by decide) .nil, by decide⟩
  let action : ReferentialAction := ⟨"DELETE", ["SET", "DEFAULT"], by decide, by decide⟩
  have onDelete : Laid action.tokens _ :=
    .token space (by decide : Spells "ON" "ON".toList) (.token space (by decide : Spells "DELETE" "DELETE".toList)
      (.token space (by decide : Spells "SET" "SET".toList)
        (.token space (by decide : Spells "DEFAULT" "DEFAULT".toList) (.done .nil))))
  let table : Identifier := .word ['u'] (by decide) (forall_among (by decide))
  let columns : Written.Group := ⟨"(x)".toList, by decide +kernel⟩
  let item : IgnoredAttribute := .reference [] table columns [action]
  have laid : Laid item.tokens _ :=
    .token Gap.nil (by decide : Spells "REFERENCES" "REFERENCES".toList)
      (.token space rfl (.token (.space (by decide) .nil : Gap [' ']) rfl onDelete))
  have gap : Grammar.blanks.Reads " DEFAULT 1, b INT)".toList [] "DEFAULT 1, b INT)".toList :=
    ⟨[' '], by decide +kernel⟩
  have apart : (Grammar.blanks ++ onUpdate).Misses " DEFAULT 1, b INT)".toList :=
    gap.seq_misses (misses_of_blocked (refuses_at 'D' _) (by decide))
  have skipped : Skipped [] := fun _ => rfl
  exact ⟨built, inserted_attribute_changes_nothing {} beforeDefault item skipped beforeDefault_between laid
    (fun _ => apart) built⟩

end DdlModels.Sql
