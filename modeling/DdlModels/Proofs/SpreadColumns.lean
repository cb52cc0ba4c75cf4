import DdlModels.Proofs.ColumnPlaces
import DdlModels.Proofs.FieldTypes
import DdlModels.Proofs.LeadingComments
import DdlModels.Proofs.SpreadTypes

/-!
# Columns with types of several words

The gaps between the words of a column's type make a difference to the type of its field alone, and to this
only between `DOUBLE` and `PRECISION`: there the field has the type that the gap would have as a type's name.
-/

namespace DdlModels

/-- Attributes tell the same of a column whatever its type is. -/
theorem Column.foldl_told_goType {nodes : List Node} (h : ∀ node ∈ nodes, node.kind.isAttribute)
    (column : Column) (goType : String) :
    nodes.foldl told { column with goType } = { nodes.foldl told column with goType } := by
  induction nodes generalizing column with
  | nil => rfl
  | cons node nodes ih =>
    have first : told { column with goType } node = { told column node with goType } := by
      have told := h node List.mem_cons_self
      obtain ⟨kind, text, children⟩ := node
      cases kind with
      | dataType => contradiction
      | _ => simp only [Column.told]
    rw [List.foldl_cons, List.foldl_cons, first]
    exact ih (fun other hother => h other (List.mem_cons_of_mem node hother)) _

namespace Sql

open Text Grammar Script

/-- What may stand after the words of a column's type. -/
def afterType : Grammar :=
  .optional (Grammar.blanks ++ .group) ++ .many (Grammar.blanks ++ typeModifier) ++
    .many (Grammar.blanks ++ columnAttribute)

variable {text start after rest : List Char} {nodes : List Node} {node : Node}

theorem columnBody_reads_iff (gap : Grammar.blanks.Reads text [] start)
    (type : typeName.Reads start [node] after) : columnBody.Reads text nodes rest ↔
      ∃ attributes, nodes = node :: attributes ∧ afterType.Reads after attributes rest := by
  constructor
  · intro reads
    obtain ⟨_, attributes, _, typed, last, rfl⟩ := reads.of_seq
    obtain ⟨_, more, _, named, modifiers, rfl⟩ := (reads_assoc.mp (gap.then_iff.mp typed.of_commit)).of_seq
    obtain ⟨rfl, rfl⟩ := named.unique type
    exact ⟨more ++ attributes, rfl, modifiers.seq last⟩
  · rintro ⟨_, rfl, reads⟩
    obtain ⟨more, attributes, _, modifiers, last, rfl⟩ := reads.of_seq
    have typed := gap.then_iff.mpr (reads_assoc.mpr (type.seq modifiers))
    exact (typed.commit "data type").seq last

theorem afterType_attributes (reads : afterType.Reads text nodes rest) :
    ∀ node ∈ nodes, node.kind.isAttribute := by
  obtain ⟨_, _, _, typed, attributes, rfl⟩ := reads.of_seq
  rw [typed.nodes_eq_nil (by decide), List.nil_append]
  exact fun node hnode => (yields_leaves (by decide) attributes.yields node hnode).1

theorem columnBody_of_type (type : typeName.Reads text [node] after) :
    columnBody.Reads (' ' :: text) nodes rest ↔
      ∃ attributes, nodes = node :: attributes ∧ afterType.Reads after attributes rest := by
  have visible : blank.Misses text := visible_of_reads type (by decide) (forall_among (by decide))
  exact columnBody_reads_iff (blanks_read_space rfl visible.many) type

/-- The Go type that a category's rules give to what stands in the gaps of a type. -/
def gapType (category : TypeCategory) (gaps : List (List Char)) : String :=
  (category.rules.classify (String.ofList gaps.flatten)).goType

def untypedField (name : Identifier) (attributes : List Node) : Column :=
  attributes.foldl Column.told { name := String.ofList name.name }

theorem untypedField_name (name : Identifier) (attributes : List Node) :
    (untypedField name attributes).name = String.ofList name.name := by
  refine foldl_kept Column.name ?_ attributes _
  rintro column ⟨kind, text, children⟩
  cases kind <;> simp only [Column.told]

theorem column_of_spread (place : ColumnPlace) {type : List String × TypeCategory} (known : type ∈ phrasalTypes)
    {gaps : List (List Char)} (spread : Spread after type.1 gaps text) (ends : WordEnds after)
    {attributes : List Node} (typed : afterType.Reads after attributes rest) :
    (place.column (.leaf (.dataType type.2) (String.ofList text) :: attributes)).column =
      { untypedField place.name attributes with goType := gapType type.2 gaps } := by
  have name : unquote (String.ofList place.name.written) = String.ofList place.name.name := by
    rw [unquote, String.toList_ofList, place.name.unquoteChars_written]
  rw [untypedField, gapType, ← classify_spread known spread ends, ← name, ColumnPlace.column, Node.column,
    List.foldl_cons]
  exact Column.foldl_told_goType (afterType_attributes typed) _ _

/-- A category without rules does not tell one gap from another. -/
theorem gapType_eq {type : List String × TypeCategory} (known : type ∈ phrasalTypes)
    (other : type.1 ≠ ["DOUBLE", "PRECISION"]) (gaps more : List (List Char)) :
    gapType type.2 gaps = gapType type.2 more := by
  rcases phrasalTypes_rules type known with rfl | none
  · contradiction
  · rw [gapType, gapType, RuleChain.classify_without_rules none, RuleChain.classify_without_rules none]

/-- Between the words of a column's type there may be any gaps. If a package is built, then one is built under all
other gaps, and they make a difference to the type of the field alone: it is the Go type that the rules of the
type's category give to what stands in the gaps. That is always the same, unless the type is `DOUBLE PRECISION`. -/
theorem gaps_tell_goType_alone (settings : Settings) (place : ColumnPlace) {type : List String × TypeCategory}
    (known : type ∈ phrasalTypes) {other : List Char} {gaps others : List (List Char)}
    (spread : Spread after type.1 gaps text) (respread : Spread after type.1 others other) (ends : WordEnds after)
    (whole : (Grammar.blanks ++ keyword "VARYING").Misses after) {package : Package}
    (built : (buildPackage settings (String.ofList (place.script (text ++ after)))).result = .ok package) :
    ∃ (twin : Package) (column : Column) (columns : List Column) (tables : List Table),
      (buildPackage settings (String.ofList (place.script (other ++ after)))).result = .ok twin ∧
      column.name = String.ofList place.name.name ∧
      package.tables = place.tables.map Node.table ++ ⟨tableName place.reference,
        Node.columns place.definitions ++ { column with goType := gapType type.2 gaps } :: columns⟩ :: tables ∧
      twin.tables = place.tables.map Node.table ++ ⟨tableName place.reference,
        Node.columns place.definitions ++ { column with goType := gapType type.2 others } :: columns⟩ :: tables ∧
      (twin = package ↔ gapType type.2 gaps = gapType type.2 others) ∧
      (type.1 ≠ ["DOUBLE", "PRECISION"] → twin = package) := by
  have first := typeName_reads_spread known spread ends whole
  have second := typeName_reads_spread known respread ends whole
  obtain ⟨_, parsed, rfl⟩ := buildPackage_ok_iff.mp built
  obtain ⟨_, definitions, between, left, body, defined, sound, rfl⟩ := (place.parse_iff _).mp parsed
  obtain ⟨attributes, rfl, typed⟩ := (columnBody_of_type first).mp body
  have reparsed := (place.parse_iff (other ++ after)).mpr
    ⟨_, definitions, between, left, (columnBody_of_type second).mpr ⟨attributes, rfl, typed⟩, defined, sound, rfl⟩
  have rebuilt : (buildPackage settings _).result = .ok _ := buildPackage_ok_iff.mpr ⟨_, reparsed, rfl⟩
  have tables := place.tables_packageNamed settings.packageName
    (.leaf (.dataType type.2) (String.ofList text) :: attributes) definitions (readFrom left).tables
  have retables := place.tables_packageNamed settings.packageName
    (.leaf (.dataType type.2) (String.ofList other) :: attributes) definitions (readFrom left).tables
  rw [column_of_spread place known spread ends typed] at tables
  rw [column_of_spread place known respread ends typed] at retables
  have same := buildPackage_eq_iff built rebuilt
  rw [tables, retables] at same
  simp only [List.append_cancel_left_eq, List.cons.injEq, Table.mk.injEq, Column.mk.injEq, and_true,
    true_and] at same
  refine ⟨_, untypedField place.name attributes, _, _, rebuilt, untypedField_name _ attributes, tables, retables,
    same.trans eq_comm, ?_⟩
  intro different
  exact same.mpr (gapType_eq known different others gaps)

private theorem idColumn_leads : ∃ nodes, Leading ("id INT,".toList ++ " \n".toList) nodes := by
  have left : (definition.read "id INT,".toList).rest? = some [','] := by decide +kernel
  cases found : definition.read "id INT,".toList with
  | ok nodes taken rest =>
    rw [found] at left
    obtain rfl : rest = [','] := Option.some.inj left
    exact ⟨nodes, .of_reads ⟨by decide, by decide⟩ ⟨taken, found⟩ (by decide +kernel)⟩
  | miss | fail =>
    rw [found] at left
    cases left

private def secondColumn {nodes : List Node} (leads : Leading ("id INT,".toList ++ " \n".toList) nodes) :
    ColumnPlace where
  front := "# double\n".toList ++ ("DROP TABLE t".toList ++ [';'])
  tables := []
  foregoing := by
    have comment : Foregoing "# double\n".toList [] :=
      (Comment.line ['#'] " double".toList (by decide) (by decide)).foregoing (by decide)
    have dropped : Tableless "DROP TABLE t".toList :=
      ⟨⟨'D', rfl, rfl⟩, by decide +kernel, prose_iff_scan.mpr (by decide +kernel)⟩
    exact comment.append dropped.foregoing
  schemas := []
  last := .word ['t'] (by decide) (forall_among (by decide))
  leading := "id INT,".toList ++ " \n".toList
  definitions := nodes
  leads := leads
  name := .word ['a'] (by decide) (forall_among (by decide))
  columnar rest := misses_of_blocked (refuses_at 'a' (' ' :: rest)) (by decide)

private theorem secondColumn_script {nodes : List Node}
    (leads : Leading ("id INT,".toList ++ " \n".toList) nodes) (text : List Char) :
    String.ofList ((secondColumn leads).script text) =
      "# double\nDROP TABLE t;CREATE TABLE t (id INT, \na " ++ String.ofList text := by
  have parts : (secondColumn leads).script text = "# double\n".toList ++
      ("DROP TABLE t".toList ++ [';']) ++ ("CREATE TABLE ".toList ++
      (['t'] ++ ' ' :: '(' :: ("id INT,".toList ++ " \n".toList ++ (['a'] ++ ' ' :: text)))) := rfl
  rw [parts, ← String.toList_inj]
  simp

/-- In the second column of a table that is created after a comment and another statement. -/
theorem comment_between_type_words :
    let source (gap : String) :=
      "# double\nDROP TABLE t;CREATE TABLE t (id INT, \na " ++ ("double" ++ gap ++ "precision)")
    let package : Package :=
      { tables := [⟨"t", [{ name := "id", goType := "int64" }, { name := "a", goType := "time.Time" }]⟩],
        imports := ["time"] }
    (buildPackage {} (source " /* datetime */ ")).result = .ok package ∧
      ∃ twin, (buildPackage {} (source " ")).result = .ok twin ∧ twin ≠ package ∧
        ∃ (columns more : List Column) (column : Column) (tables : List Table),
          twin.tables = ⟨"t", columns ++ { column with goType := "float64" } :: more⟩ :: tables := by
  intro source package
  have space : Gap " ".toList := .space (by decide) .nil
  have remark : Gap " /* datetime */ ".toList :=
    .space (by decide) (@Gap.block " datetime ".toList " ".toList (by decide) space)
  have visible : blank.Misses ("precision".toList ++ [')']) := blank_misses (by decide) _
  have spread {gap : List Char} (h : Gap gap) (nonempty : gap ≠ []) : Spread [')'] ["DOUBLE", "PRECISION"] [gap]
      ("double".toList ++ (gap ++ "precision".toList)) :=
    .cons (by decide) nonempty (h.reads visible) (.word (by decide))
  have ends : WordEnds [')'] := by
    rintro c ⟨⟩
    exact ⟨by decide, by decide⟩
  have whole : (Grammar.blanks ++ keyword "VARYING").Misses [')'] :=
    misses_of_blocked (refuses_at ')' []) (by decide)
  have known : (["DOUBLE", "PRECISION"], TypeCategory.dimension) ∈ phrasalTypes := by decide
  have built : (buildPackage {} (source " /* datetime */ ")).result = .ok package := by decide +kernel
  obtain ⟨nodes, leads⟩ := idColumn_leads
  have placed (gap : String) : String.ofList ((secondColumn leads).script
      ("double".toList ++ (gap.toList ++ "precision".toList) ++ [')'])) = source gap := by
    rw [secondColumn_script]
    simp [source, ← String.toList_inj]
  have first := placed " /* datetime */ "
  obtain ⟨twin, column, columns, tables, rebuilt, -, -, told, same, -⟩ := gaps_tell_goType_alone {}
    (secondColumn leads) known (spread remark (by decide)) (spread space (by decide)) ends whole (first ▸ built)
  have created : tableName (secondColumn leads).reference = "t" := by
    change tableName (String.ofList ['t']) = "t"
    decide +kernel
  have float : gapType .dimension [" ".toList] = "float64" := by decide +kernel
  rw [placed " "] at rebuilt
  rw [created, float] at told
  refine ⟨built, twin, rebuilt, ?_, _, columns, column, tables, told⟩
  exact fun equal => absurd (same.mp equal) (by decide +kernel)

/-- The word `int` in a comment makes a field an integer that is a floating-point number without it. -/
theorem comment_in_type_is_classified :
    (buildPackage {} "CREATE TABLE t (a DOUBLE /* int */ PRECISION)").result =
        .ok { tables := [⟨"t", [{ name := "a", goType := "int64" }]⟩] } ∧
      (buildPackage {} "CREATE TABLE t (a DOUBLE PRECISION)").result =
        .ok { tables := [⟨"t", [{ name := "a", goType := "float64" }]⟩] } := by
  decide +kernel

end Sql

end DdlModels
