import DdlModels.Proofs.GoLines
import DdlModels.Text.CharClass

/-!
# Packages recovered from Go source

Nothing is escaped in Go source, and yet it tells what its package is, as long as names are words and no text holds
what stands after it: the lines are told apart by how they begin, and the parts of a line by the first mark after each.
Only a missing comment cannot be told from one that repeats the name.
-/

namespace DdlModels

open Text

def IsWord (text : String) : Prop := text ≠ "" ∧ ∀ c ∈ text.toList, isWordChar c

instance (text : String) : Decidable (IsWord text) :=
  decidable_of_iff (text ≠ "" ∧ text.toList.all isWordChar) (and_congr_right fun _ => List.all_eq_true)

/-- A column with a word for its name and with no text in which its line could end or go on too early. -/
structure Column.Plain (column : Column) : Prop where
  name : IsWord column.name
  goType : ' ' ∉ column.goType.toList ∧ '\n' ∉ column.goType.toList
  default : ∀ value ∈ column.defaultValue,
    '\x22' ∉ value.toList ∧ '\n' ∉ value.toList ∧ ¬ ";not null".toList <:+ value.toList
  comment : ∀ text ∈ column.comment, '\n' ∉ text.toList

structure Table.Plain (table : Table) : Prop where
  name : IsWord table.name
  columns : ∀ column ∈ table.columns, column.Plain

structure Package.Plain (package : Package) : Prop where
  name : IsWord package.name
  imports : ∀ path ∈ package.imports, '\x22' ∉ path.toList ∧ '\n' ∉ path.toList
  tables : ∀ table ∈ package.tables, table.Plain

/-- A column as source shows it, where the name stands for a comment that is missing. -/
def Column.shown (column : Column) : Column := { column with comment := some (column.comment.getD column.name) }

def Table.shown (table : Table) : Table := { table with columns := table.columns.map Column.shown }

/-- A package as source shows it. -/
def Package.shown (package : Package) : Package := { package with tables := package.tables.map Table.shown }

theorem cut_at_mark {α : Type} {mark : α} {front other back rest : List α} (h : mark ∉ front) (hother : mark ∉ other)
    (same : front ++ mark :: back = other ++ mark :: rest) : front = other ∧ back = rest := by
  induction front generalizing other with
  | nil =>
    cases other with
    | nil => exact ⟨rfl, (List.cons.inj same).2⟩
    | cons c other =>
      obtain rfl := (List.cons.inj same).1
      exact absurd List.mem_cons_self hother
  | cons c front ih =>
    cases other with
    | nil =>
      obtain rfl := (List.cons.inj same).1
      exact absurd List.mem_cons_self h
    | cons d other =>
      obtain ⟨rfl, later⟩ := List.cons.inj same
      obtain ⟨rfl, rfl⟩ := ih (mt (List.mem_cons_of_mem c) h) (mt (List.mem_cons_of_mem c) hother) later
      exact ⟨rfl, rfl⟩

theorem IsWord.not_mem {text : String} (h : IsWord text) {mark : Char} (other : isWordChar mark = false) :
    mark ∉ text.toList := by
  intro mem
  rw [h.2 mark mem] at other
  contradiction

namespace Column

def defaultTag (column : Column) : List Char :=
  column.defaultValue.elim [] fun value => ";default:".toList ++ value.toList

def nullTag (column : Column) : List Char := if column.notNull then ";not null".toList else []

theorem goSource_toList (column : Column) : column.goSource.toList =
    "    ".toList ++ (column.name.toList ++ ' ' :: (column.goType.toList ++ ' ' :: ("\x60gorm:\x22column:".toList ++
      (column.name.toList ++ (column.defaultTag ++ column.nullTag ++ '\x22' :: ("\x60 //".toList ++
        (column.comment.getD column.name).toList)))))) := by
  obtain ⟨name, goType, notNull, defaultValue, comment⟩ := column
  cases defaultValue <;> cases notNull <;> simp [goSource, tagParts, defaultTag, nullTag]

theorem Plain.unquoted {column : Column} (h : column.Plain) : '\x22' ∉ column.defaultTag ++ column.nullTag := by
  rw [List.mem_append, not_or]
  constructor
  · rw [defaultTag]
    cases found : column.defaultValue with
    | none => exact List.not_mem_nil
    | some value =>
      rw [Option.elim_some, List.mem_append, not_or]
      exact ⟨by decide, (h.default value found).1⟩
  · rw [nullTag]
    split <;> decide

theorem nullTag_injective {first second : Column} (same : first.nullTag = second.nullTag) :
    first.notNull = second.notNull := by
  rw [nullTag, nullTag] at same
  cases hfirst : first.notNull <;> cases hsecond : second.notNull
  case true.false | false.true =>
    rw [hfirst, hsecond] at same
    exact absurd same (by decide)
  all_goals rfl

/-- A tag that goes on with a default does not go on as one without. -/
theorem default_ne_nullTag (column : Column) (rest : List Char) : ";default:".toList ++ rest ≠ column.nullTag := by
  intro same
  have mark : some 'd' = column.nullTag[1]? := congrArg (·[1]?) same
  rw [nullTag] at mark
  split at mark
  · exact absurd mark (by decide)
  · contradiction

theorem Plain.tags_injective {first second : Column} (hfirst : first.Plain) (hsecond : second.Plain)
    (same : first.defaultTag ++ first.nullTag = second.defaultTag ++ second.nullTag) :
    first.defaultValue = second.defaultValue ∧ first.notNull = second.notNull := by
  simp only [defaultTag] at same
  cases fd : first.defaultValue with
  | none =>
    rw [fd] at same
    cases sd : second.defaultValue with
    | none =>
      rw [sd] at same
      exact ⟨rfl, nullTag_injective same⟩
    | some value =>
      rw [sd, Option.elim_some, List.append_assoc] at same
      exact absurd same.symm (default_ne_nullTag first _)
  | some value =>
    rw [fd, Option.elim_some, List.append_assoc] at same
    cases sd : second.defaultValue with
    | none =>
      rw [sd] at same
      exact absurd same (default_ne_nullTag second _)
    | some other =>
      rw [sd, Option.elim_some, List.append_assoc] at same
      have values := List.append_cancel_left same
      have ends := (hfirst.default value fd).2.2
      have ends' := (hsecond.default other sd).2.2
      -- were only one of them not null, the other's default would end with that
      simp only [nullTag] at values
      cases hn : first.notNull <;> cases hn' : second.notNull <;>
        simp only [hn, hn', if_true, if_false, Bool.false_eq_true, List.append_nil] at values
      case false.false => exact ⟨congrArg some (String.toList_injective values), rfl⟩
      case true.true => exact ⟨congrArg some (String.toList_injective (List.append_cancel_right values)), rfl⟩
      case false.true => exact absurd ⟨_, values.symm⟩ ends
      case true.false => exact absurd ⟨_, values⟩ ends'

theorem Plain.shown_of_line {first second : Column} (hfirst : first.Plain) (hsecond : second.Plain)
    (same : first.goSource = second.goSource) : first.shown = second.shown := by
  have space : isWordChar ' ' = false := by decide
  rw [← String.toList_inj, goSource_toList, goSource_toList] at same
  obtain ⟨name, same⟩ :=
    cut_at_mark (hfirst.name.not_mem space) (hsecond.name.not_mem space) (List.append_cancel_left same)
  obtain ⟨goType, same⟩ := cut_at_mark hfirst.goType.1 hsecond.goType.1 same
  rw [name] at same
  obtain ⟨tags, same⟩ := cut_at_mark hfirst.unquoted hsecond.unquoted
    (List.append_cancel_left (List.append_cancel_left same))
  obtain ⟨default, notNull⟩ := hfirst.tags_injective hsecond tags
  have comment := String.toList_injective (List.append_cancel_left same)
  rw [shown, shown, comment, String.toList_injective name, String.toList_injective goType, default, notNull]

theorem goSource_head (column : Column) : column.goSource.toList.head? = some ' ' := by
  rw [goSource_toList]
  rfl

theorem shown_of_goSources {columns others : List Column} (h : ∀ column ∈ columns, column.Plain)
    (hothers : ∀ column ∈ others, column.Plain) (same : columns.map goSource = others.map goSource) :
    columns.map shown = others.map shown := by
  induction columns generalizing others with
  | nil =>
    rw [List.map_eq_nil_iff.mp same.symm]
  | cons column columns ih =>
    obtain ⟨other, others, rfl, first, rest⟩ := List.map_eq_cons_iff.mp same.symm
    obtain ⟨plain, more⟩ := List.forall_mem_cons.mp h
    obtain ⟨plain', more'⟩ := List.forall_mem_cons.mp hothers
    rw [List.map_cons, List.map_cons, plain.shown_of_line plain' first.symm, ih more more' rest.symm]

end Column

namespace Table

theorem lines_append (table : Table) (rest : List String) : table.lines ++ rest =
    "" :: ("type " ++ table.name ++ " struct \x7b") :: (table.body ++ "\x7d" :: "" :: rest) := by
  simp [lines]

theorem brace_not_mem_body (table : Table) : "\x7d" ∉ table.body := by
  intro mem
  rw [body] at mem
  split at mem
  · exact absurd mem (by decide)
  · obtain ⟨column, -, same⟩ := List.mem_map.mp mem
    have head := column.goSource_head
    rw [same] at head
    exact absurd head (by decide)

theorem Plain.shown_of_body {first second : Table} (hfirst : first.Plain) (hsecond : second.Plain)
    (same : first.body = second.body) : first.columns.map Column.shown = second.columns.map Column.shown := by
  have line (column : Column) : column.goSource ≠ "" := by
    intro empty
    have head := column.goSource_head
    rw [empty] at head
    exact absurd head (by decide)
  refine Column.shown_of_goSources hfirst.columns hsecond.columns ?_
  rw [body, body] at same
  cases hf : first.columns with
  | nil =>
    cases hs : second.columns with
    | nil => rfl
    | cons column columns =>
      rw [hf, hs] at same
      exact absurd (List.cons.inj same).1.symm (line column)
  | cons column columns =>
    cases hs : second.columns with
    | nil =>
      rw [hf, hs] at same
      exact absurd (List.cons.inj same).1 (line column)
    | cons other others =>
      rw [hf, hs] at same
      exact same

/-- The lines of structs tell the structs. -/
theorem shown_of_lines {tables others : List Table} (h : ∀ table ∈ tables, table.Plain)
    (hothers : ∀ table ∈ others, table.Plain) (same : tables.flatMap lines = others.flatMap lines) :
    tables.map shown = others.map shown := by
  induction tables generalizing others with
  | nil =>
    cases others with
    | nil => rfl
    | cons other others =>
      rw [List.flatMap_cons, lines_append] at same
      contradiction
  | cons table tables ih =>
    cases others with
    | nil =>
      rw [List.flatMap_cons, lines_append] at same
      contradiction
    | cons other others =>
      obtain ⟨plain, more⟩ := List.forall_mem_cons.mp h
      obtain ⟨plain', more'⟩ := List.forall_mem_cons.mp hothers
      rw [List.flatMap_cons, List.flatMap_cons, lines_append, lines_append] at same
      obtain ⟨head, same⟩ := List.cons.inj (List.cons.inj same).2
      obtain ⟨body, rest⟩ := cut_at_mark table.brace_not_mem_body other.brace_not_mem_body same
      have name : table.name = other.name := by
        simpa [← String.toList_inj] using head
      have columns := plain.shown_of_body plain' body
      rw [List.map_cons, List.map_cons, ih more more' (List.cons.inj rest).2, shown, shown, name, columns]

end Table

namespace Package

theorem Plain.unbroken {package : Package} (h : package.Plain) : ∀ line ∈ package.lines, '\n' ∉ line.toList := by
  have feed : isWordChar '\n' = false := by decide
  have texts : ∀ text ∈ package.texts, '\n' ∉ text.toList := by
    simp only [Package.texts, Column.texts, List.forall_mem_flatMap, List.forall_mem_cons, List.forall_mem_append,
      Option.mem_toList]
    intro table htable
    refine ⟨(h.tables table htable).name.not_mem feed, fun column hcolumn => ?_⟩
    have plain := (h.tables table htable).columns column hcolumn
    exact ⟨⟨plain.name.not_mem feed, fun value hvalue => (plain.default value hvalue).2.1⟩, plain.comment⟩
  have inside := lineFeeds_lines (h.name.not_mem feed)
    (fun path hpath => lineFeeds_eq_zero.mpr (h.imports path hpath).2)
    (fun table htable column hcolumn => lineFeeds_eq_zero.mpr ((h.tables table htable).columns column hcolumn).goType.2)
  rw [breaks_eq_zero.mpr texts, List.sum_eq_zero_iff_forall_eq_nat, List.forall_mem_map] at inside
  exact fun line hline => lineFeeds_eq_zero.mp (inside line hline)

theorem struct_lines_head (tables : List Table) : ∀ line ∈ (tables.flatMap Table.lines).head?, line = "" := by
  cases tables with
  | nil => simp
  | cons table tables =>
    rw [List.flatMap_cons, table.lines_append]
    rintro line ⟨⟩
    rfl

private def importLine (path : String) : String := "    \x22" ++ path ++ "\x22"

private theorem importLine_injective {path other : String} (same : importLine path = importLine other) :
    path = other := by
  rw [importLine, importLine, ← String.toList_inj] at same
  exact String.toList_injective (by simpa using same)

private theorem close_not_mem (imports : List String) : ")" ∉ imports.map importLine := by
  intro mem
  obtain ⟨path, -, same⟩ := List.mem_map.mp mem
  have head : (importLine path).toList.head? = some ')' := by
    rw [same]
    rfl
  rw [importLine, String.append_assoc, String.toList_append] at head
  exact absurd (show some ' ' = some ')' from head) (by decide)

private theorem importLines_append {package : Package} {path : String} {paths : List String}
    (found : package.imports = path :: paths) (rest : List String) :
    package.importLines ++ rest = "import (" :: ((path :: paths).map importLine ++ ")" :: rest) := by
  rw [importLines, found]
  simp [importLine]

theorem imports_of_lines {first second : Package}
    (same : first.importLines ++ first.tables.flatMap Table.lines =
      second.importLines ++ second.tables.flatMap Table.lines) :
    first.imports = second.imports ∧ first.tables.flatMap Table.lines = second.tables.flatMap Table.lines := by
  have none {package : Package} (found : package.imports = []) : package.importLines = [] := by
    rw [importLines, found]
    rfl
  have block {tables : List Table} {rest : List String} : tables.flatMap Table.lines ≠ "import (" :: rest := by
    intro same
    have head := struct_lines_head tables "import (" (by rw [same]; rfl)
    exact absurd head (by decide)
  cases hf : first.imports with
  | nil =>
    cases hs : second.imports with
    | nil =>
      rw [none hf, none hs] at same
      exact ⟨rfl, same⟩
    | cons path paths =>
      rw [none hf, importLines_append hs] at same
      exact absurd same block
  | cons path paths =>
    cases hs : second.imports with
    | nil =>
      rw [none hs, importLines_append hf] at same
      exact absurd same.symm block
    | cons other others =>
      rw [importLines_append hf, importLines_append hs] at same
      obtain ⟨lines, structs⟩ := cut_at_mark (close_not_mem _) (close_not_mem _) (List.cons.inj same).2
      exact ⟨(List.map_inj_right fun _ _ => importLine_injective).mp lines, structs⟩

/-- Go source tells its package, but that it does not tell a missing comment from one that repeats the name: packages
whose names are words, and whose other texts do not hold what ends them, are the same if their sources are. -/
theorem shown_of_goSource {first second : Package} (hfirst : first.Plain) (hsecond : second.Plain)
    (same : first.goSource = second.goSource) : first.shown = second.shown := by
  have clause {package : Package} (h : package.Plain) : package.clauseName = package.name := by
    have goes : package.name.isEmpty = false := by simpa using h.name.1
    simp [clauseName, goes]
  rw [goSource_eq_lines, goSource_eq_lines] at same
  have lines := eq_of_join_lines hfirst.unbroken hsecond.unbroken same
  obtain ⟨head, rest⟩ := List.cons.inj lines
  obtain ⟨imports, structs⟩ := imports_of_lines rest
  have name : first.name = second.name := by
    rw [clause hfirst, clause hsecond] at head
    simpa [← String.toList_inj] using head
  have tables := Table.shown_of_lines hfirst.tables hsecond.tables structs
  rw [shown, shown, name, imports, tables]

/-- A package in which a default looks like the end of a tag, and an import like the end of the imports. -/
def lookalike (comment : Option String) : Package :=
  { name := "a", imports := [")"],
    tables := [⟨"b", [{ name := "c", goType := "d", defaultValue := some ";not null;", comment }]⟩, ⟨"e", []⟩] }

/-- What looks like a mark is told from it, and a comment that repeats the name is like none. -/
theorem lookalike_is_told_up_to_comment :
    (lookalike none).Plain ∧ (lookalike (some "c")).Plain ∧
      (lookalike none).goSource = (lookalike (some "c")).goSource ∧
      (lookalike none).shown = (lookalike (some "c")).shown := by
  obtain ⟨a, b, c, e⟩ : IsWord "a" ∧ IsWord "b" ∧ IsWord "c" ∧ IsWord "e" := by decide
  have imports : ∀ path ∈ [")"], '\x22' ∉ path.toList ∧ '\n' ∉ path.toList := by decide
  have goType : ' ' ∉ "d".toList ∧ '\n' ∉ "d".toList := by decide
  have default : ∀ value ∈ some ";not null;",
      '\x22' ∉ value.toList ∧ '\n' ∉ value.toList ∧ ¬ ";not null".toList <:+ value.toList := by decide
  have plain (comment : Option String) (h : ∀ text ∈ comment, '\n' ∉ text.toList) : (lookalike comment).Plain :=
    ⟨a, imports, List.forall_mem_cons.mpr
      ⟨⟨b, List.forall_mem_singleton.mpr ⟨c, goType, default, h⟩⟩, List.forall_mem_singleton.mpr ⟨e, by simp⟩⟩⟩
  have missing := plain none (by simp)
  have named := plain (some "c") (by decide)
  have same : (lookalike none).goSource = (lookalike (some "c")).goSource := by decide
  exact ⟨missing, named, same, shown_of_goSource missing named same⟩

end Package

end DdlModels
