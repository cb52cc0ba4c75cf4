import DdlModels.Proofs.Continued
import DdlModels.Proofs.DraftWalk
import DdlModels.Proofs.Identifiers
import DdlModels.Proofs.Occurrences
import DdlModels.Proofs.PassedOver

/-!
# Qualified names

A table's name may be qualified by other identifiers, joined by dots. The reference is read whole, and the
table is named for what stands after the last dot of its text: that is the last identifier, unless this has
a dot inside of its quotes.
-/

namespace DdlModels.Sql

open Text Grammar Script

/-- Identifiers joined by dots. -/
def Identifier.dotted : List Identifier → Identifier → List Char
  | [], last => last.written
  | schema :: more, last => schema.written ++ '.' :: dotted more last

variable {schemas : List Identifier} {last : Identifier} {rest : List Char}

/-- Nothing of a name goes on here. -/
def EndsName (rest : List Char) : Prop := Identifier.Stops rest ∧ rest.head? ≠ some '.'

theorem stops_dot (rest : List Char) : Identifier.Stops ('.' :: rest) := by
  rintro c ⟨⟩
  exact ⟨by decide, by decide⟩

theorem qualifiedName_reads (schemas : List Identifier) (last : Identifier) (ends : EndsName rest) :
    qualifiedName.Reads (Identifier.dotted schemas last ++ rest) [] rest := by
  induction schemas with
  | nil =>
    have dot : (symbol '.').Misses rest := symbol_misses_head ends.2
    exact (last.reads ends.1).seq dot.seq_first.many
  | cons schema schemas ih =>
    obtain ⟨before, after, between, first, more, nodes⟩ := ih.of_seq
    obtain ⟨rfl, rfl⟩ := List.append_eq_nil_iff.mp nodes.symm
    have turn : (symbol '.' ++ identifier).Reads ('.' :: (Identifier.dotted schemas last ++ rest)) [] between :=
      (symbol_reads '.' _).seq first
    rw [Identifier.dotted, List.append_assoc, List.cons_append]
    exact (schema.reads (stops_dot _)).seq (turn.many (by decide) more)

/-- After its first identifier, a reference goes on with a dot or is at its end. -/
theorem dotted_eq (schemas : List Identifier) (last : Identifier) (rest : List Char) :
    ∃ first tail, Identifier.dotted schemas last ++ rest = Identifier.written first ++ tail ∧
      (tail = rest ∨ ∃ more, tail = '.' :: more) := by
  cases schemas with
  | nil => exact ⟨last, rest, rfl, .inl rfl⟩
  | cons schema schemas =>
    exact ⟨schema, _, by rw [Identifier.dotted, List.append_assoc]; rfl, .inr ⟨_, rfl⟩⟩

theorem ifNotExists_misses (identifier : Identifier) {tail : List Char} (stops : Identifier.Stops tail)
    (next : ∃ c ∈ ['.', '('], ∃ more, skipBlanks tail = c :: more) :
    (phrase "IF" ["NOT", "EXISTS"]).Misses (identifier.written ++ tail) := by
  cases identifier with
  | quoted quote pieces quotes inside =>
    have all : ∀ quote ∈ ['\x60', '\x22'], (keyword "IF").blocked (refusedAt quote) := forall_among (by decide)
    have missed : (keyword "IF").Misses (quote :: (pieces.flatten ++ [quote]) ++ tail) :=
      misses_of_blocked (refuses_at quote _) (all quote quotes)
    exact missed.seq_first.seq_first
  | word text nonempty chars =>
    rcases readKeyword_ok_or_miss "IF".toList (text ++ tail) with ⟨taken, left, found⟩ | missed
    · obtain ⟨first, -⟩ := firstWord_of_readKeyword (List.all_eq_true.mp (by decide)) (by decide) found
      rw [(span_until chars fun c hc => (stops c hc).1).1] at first
      have split := readKeyword_splits "IF".toList (text ++ tail)
      rw [found, first] at split
      obtain rfl := List.append_cancel_left (show text ++ tail = text ++ left from split)
      obtain ⟨c, hc, more, skips⟩ := next
      have gap := (blanks_read tail).1
      rw [skips] at gap
      have all : ∀ c ∈ ['.', '('], (phrase "NOT" ["EXISTS"]).blocked (refusedAt c) := forall_among (by decide)
      have read : (keyword "IF").Reads (text ++ tail) [] tail := ⟨taken, found⟩
      exact (read.seq gap).seq_misses (misses_of_blocked (refuses_at c more) (all c hc))
    · have none : (keyword "IF").Misses (text ++ tail) := missed
      exact none.seq_first.seq_first

/-- The statement that creates a table with a name, up to the parenthesis and on. -/
def createTable (schemas : List Identifier) (last : Identifier) (rest : List Char) : List Char :=
  "CREATE TABLE ".toList ++ (Identifier.dotted schemas last ++ ' ' :: '(' :: rest)

theorem tableHead_reads (schemas : List Identifier) (last : Identifier) (rest : List Char) :
    (tableHead ++ Grammar.blanks).Reads (createTable schemas last rest) []
      (Identifier.dotted schemas last ++ ' ' :: '(' :: rest) := by
  obtain ⟨first, tail, whole, goes⟩ := dotted_eq schemas last (' ' :: '(' :: rest)
  have parenthesis : skipBlanks (' ' :: '(' :: rest) = '(' :: rest := by
    rw [skipBlanks_space rfl]
    exact skipBlanks_of_visible (misses_of_blocked (refuses_at '(' rest) (by decide))
  have next : ∃ c ∈ ['.', '('], ∃ more, skipBlanks tail = c :: more := by
    rcases goes with rfl | ⟨more, rfl⟩
    · exact ⟨'(', by decide, rest, parenthesis⟩
    · exact ⟨'.', by decide, more,
        skipBlanks_of_visible (misses_of_blocked (refuses_at '.' more) (by decide))⟩
  have stops : Identifier.Stops tail := by
    rcases goes with rfl | ⟨more, rfl⟩
    · rintro c ⟨⟩
      exact ⟨by decide, by decide⟩
    · exact stops_dot more
  unfold createTable
  rw [whole]
  have gap {text : List Char} (visible : blank.Misses text) : Grammar.blanks.Reads (' ' :: text) [] text :=
    blanks_read_space rfl visible.many
  have space (text : List Char) : WordEnds (' ' :: text) := by
    rintro c ⟨⟩
    exact ⟨by decide, by decide⟩
  have create (text : List Char) : BeginsWithWord "CREATE" "CREATE".toList (' ' :: text) :=
    ⟨by decide, by decide, by decide, space text⟩
  have table : BeginsWithWord "TABLE" "TABLE".toList (' ' :: (first.written ++ tail)) :=
    ⟨by decide, by decide, by decide, space _⟩
  have front := gap (misses_of_blocked table.refuses (by decide))
  have other : (keyword "TEMPORARY").blocked (refusedAtWord "TABLE") := by decide
  have temporary := (front.seq_misses (misses_of_blocked table.refuses other)).optional
  have name := gap (first.blank_misses tail)
  have absent := (name.seq_misses (ifNotExists_misses first stops next)).optional
  exact (((((create _).keyword_reads.seq temporary).seq front).seq table.keyword_reads).seq absent).seq name

def tableBody : Grammar :=
  Grammar.blanks ++ definitions ++ Grammar.blanks ++ trimmedLeaf .tableOption statementTail

theorem endsName_space (rest : List Char) : EndsName (' ' :: rest) := by
  refine ⟨?_, by simp⟩
  rintro c ⟨⟩
  exact ⟨by decide, by decide⟩

theorem tableBody_not_misses {text start : List Char} {nodes : List Node}
    (opens : (Grammar.blanks ++ symbol '(').Reads text nodes start) : ¬ tableBody.Misses text := by
  obtain ⟨_, _, between, gap, parenthesis, -⟩ := opens.of_seq
  intro missed
  rcases missed.of_seq with missed | ⟨_, _, _, missed⟩
  · rcases missed.of_seq with missed | ⟨_, _, _, missed⟩
    · exact parenthesis.not_misses (definitions_miss (gap.then_misses_iff.mp missed))
    · exact sure_not_misses (by decide) missed
  · exact sure_not_misses (by decide) missed

theorem space_parenthesis_reads (rest : List Char) :
    (Grammar.blanks ++ symbol '(').Reads (' ' :: '(' :: rest) [] rest := by
  have visible : blank.Misses ('(' :: rest) := misses_of_blocked (refuses_at '(' rest) (by decide)
  exact (blanks_read_space rfl visible.many).seq (symbol_reads '(' rest)

section Statement

variable {text reference after start left : List Char} {before inner nodes : List Node}
variable (head : (tableHead ++ Grammar.blanks).Reads text [] (reference ++ after))
variable (named : Grammar.tableName.Reads (reference ++ after) before after)
variable (opens : (Grammar.blanks ++ symbol '(').Reads after inner start)

include named opens

private theorem table_not_misses : ¬ table.Misses (reference ++ after) := by
  intro missed
  rcases missed.of_branch with nameless | ⟨_, _, again, bodiless⟩
  · exact named.not_misses nameless
  · obtain ⟨-, rfl⟩ := again.unique named
    exact tableBody_not_misses opens bodiless

include head

theorem tableStatement_not_misses : ¬ tableStatement.Misses text := by
  intro missed
  exact table_not_misses named opens (head.then_misses_iff.mp missed).of_choice.1

theorem tableStatement_reads_iff : tableStatement.Reads text nodes left ↔
    ∃ children, nodes = [⟨.createTable, String.ofList reference, children⟩] ∧ tableBody.Reads after children left := by
  rw [tableStatement, head.then_iff, ← named.branch_iff]
  constructor
  · intro reads
    rcases reads.of_choice with reads | ⟨missed, -⟩
    · exact reads
    · exact absurd missed (table_not_misses named opens)
  · exact Reads.orElse

end Statement

section Table

variable (schemas : List Identifier) (last : Identifier)

theorem tableName_reads (rest : List Char) :
    Grammar.tableName.Reads (Identifier.dotted schemas last ++ ' ' :: rest) [] (' ' :: rest) :=
  (qualifiedName_reads schemas last (endsName_space rest)).commit "table name"

theorem createTable_not_misses (rest : List Char) : ¬ tableStatement.Misses (createTable schemas last rest) :=
  tableStatement_not_misses (tableHead_reads schemas last rest) (tableName_reads schemas last ('(' :: rest))
    (space_parenthesis_reads rest)

theorem createTable_reads_iff {nodes : List Node} {left : List Char} :
    tableStatement.Reads (createTable schemas last rest) nodes left ↔
      ∃ children, nodes = [⟨.createTable, String.ofList (Identifier.dotted schemas last), children⟩] ∧
        tableBody.Reads (' ' :: '(' :: rest) children left :=
  tableStatement_reads_iff (tableHead_reads schemas last rest) (tableName_reads schemas last ('(' :: rest))
    (space_parenthesis_reads rest)

end Table

theorem tableName_undotted {text : List Char} (undotted : '.' ∉ text) :
    tableName (String.ofList text) = String.ofList (unquoteChars text) := by
  have plain : ∀ c ∈ text.reverse, (c != '.') = true := by
    intro c hc
    simp only [bne_iff_ne]
    rintro rfl
    exact undotted (List.mem_reverse.mp hc)
  rw [DdlModels.tableName, String.toList_ofList, List.takeWhile_eq_self_iff.mpr plain, List.reverse_reverse]

theorem tableName_after_dot (before after : List Char) :
    tableName (String.ofList (before ++ '.' :: after)) = tableName (String.ofList after) := by
  have stop : (after.reverse ++ ('.' :: before.reverse)).takeWhile (· != '.') =
      after.reverse.takeWhile (· != '.') := by
    induction after.reverse with
    | nil => simp
    | cons c text ih => simp only [List.cons_append, List.takeWhile_cons, ih]
  have reversed : (before ++ '.' :: after).reverse = after.reverse ++ ('.' :: before.reverse) := by simp
  rw [DdlModels.tableName, DdlModels.tableName, String.toList_ofList, String.toList_ofList, reversed, stop]

/-- A table is named for the last identifier of the reference alone. -/
theorem tableName_dotted (schemas : List Identifier) (last : Identifier) :
    tableName (String.ofList (Identifier.dotted schemas last)) = tableName (String.ofList last.written) := by
  induction schemas with
  | nil => rfl
  | cons schema schemas ih => rw [Identifier.dotted, tableName_after_dot, ih]

theorem mem_of_mem_undouble {quote c : Char} {text : List Char} (h : c ∈ undouble quote text) : c ∈ text := by
  fun_induction undouble quote text with
  | case1 | case2 => exact h
  | case3 d e rest pair ih =>
    rcases List.mem_cons.mp h with rfl | h
    · rw [pair.1]
      exact List.mem_cons_self
    · exact List.mem_cons_of_mem d (List.mem_cons_of_mem e (ih h))
  | case4 d e rest _ ih =>
    rcases List.mem_cons.mp h with rfl | h
    · exact List.mem_cons_self
    · exact List.mem_cons_of_mem d (ih h)

theorem mem_of_mem_unquoteChars {c : Char} {text : List Char} (h : c ∈ unquoteChars text) : c ∈ text := by
  have piece : trim text <:+: text := trim_infix text
  refine piece.subset ?_
  rw [unquoteChars] at h
  split at h
  case h_1 inner found =>
    obtain ⟨quote, -, stripped⟩ := List.exists_of_findSome?_eq_some found
    obtain ⟨between, enclosed, rfl⟩ := Option.map_eq_some_iff.mp stripped
    have inside := mem_of_mem_undouble h
    cases trimmed : trim text with
    | nil => simp [trimmed, enclosed?] at enclosed
    | cons d rest =>
      rw [trimmed, enclosed?] at enclosed
      split at enclosed
      case isTrue =>
        obtain rfl := Option.some.inj enclosed
        exact List.mem_cons_of_mem d (List.dropLast_subset rest inside)
      case isFalse => contradiction
  case h_2 => exact h

theorem not_mem_tableName (reference : String) : '.' ∉ (tableName reference).toList := by
  rw [DdlModels.tableName, String.toList_ofList]
  intro inside
  have cut := List.mem_reverse.mp (mem_of_mem_unquoteChars inside)
  simpa using List.mem_takeWhile_imp cut

/-- The table gets the name that its last identifier means, unless there is a dot in this name. -/
theorem tableName_eq_name_iff (schemas : List Identifier) (last : Identifier) :
    tableName (String.ofList (Identifier.dotted schemas last)) = String.ofList last.name ↔ '.' ∉ last.name := by
  rw [tableName_dotted]
  constructor
  · intro same
    have kept := not_mem_tableName (String.ofList last.written)
    rwa [same, String.toList_ofList] at kept
  · intro undotted
    have text : '.' ∉ last.written := fun inside => undotted ((last.mem_name_iff (by decide)).mpr inside)
    rw [tableName_undotted text, last.unquoteChars_written]

/-- A script with a statement that creates a table can be read if the statement and what follows it can. -/
theorem parse_table_iff {source : String} {front text : List Char} {tables : List Node} {tree : Node}
    (foregoing : Foregoing front tables) (split : source.toList = front ++ text) (visible : skipBlanks text = text)
    (begun : ¬ tableStatement.Misses text)
    (single : ∀ nodes left, tableStatement.Reads text nodes left → ∃ node, nodes = [node]) :
    parse source = .ok tree ↔ ∃ node left, tableStatement.Reads text [node] left ∧
      (readFrom left).fault = none ∧ tree = ⟨.root, "", tables ++ node :: (readFrom left).tables⟩ := by
  have script {node : Node} {left : List Char} (reads : tableStatement.Reads text [node] left) :
      readFrom text = (readFrom left).cons (.table node) := by
    obtain ⟨taken, found⟩ := reads
    rw [readFrom_eq, next_of_table visible found]
    rfl
  obtain ⟨before, fault⟩ := foregoing text
  rw [parse, readScript, tree_eq_ok, split, before, fault]
  constructor
  · rintro ⟨sound, rfl⟩
    cases found : tableStatement.read text with
    | ok nodes taken left =>
      obtain ⟨node, rfl⟩ := single nodes left ⟨taken, found⟩
      have whole := script ⟨taken, found⟩
      rw [whole] at sound ⊢
      exact ⟨_, left, ⟨taken, found⟩, sound, rfl⟩
    | miss errors => exact absurd ⟨errors, found⟩ begun
    | fail failure =>
      rw [readFrom_eq, next_of_failed visible found] at sound
      contradiction
  · rintro ⟨node, left, reads, sound, rfl⟩
    rw [script reads]
    exact ⟨sound, rfl⟩

theorem parse_createTable_iff {source : String} {front : List Char} {tables : List Node} {tree : Node}
    (foregoing : Foregoing front tables) (split : source.toList = front ++ createTable schemas last rest) :
    parse source = .ok tree ↔ ∃ node left, tableStatement.Reads (createTable schemas last rest) [node] left ∧
      (readFrom left).fault = none ∧ tree = ⟨.root, "", tables ++ node :: (readFrom left).tables⟩ := by
  have visible : skipBlanks (createTable schemas last rest) = createTable schemas last rest := by
    have letters : "CREATE TABLE ".toList = 'C' :: "REATE TABLE ".toList := by decide
    unfold createTable
    rw [letters]
    exact skipBlanks_of_visible (blank_misses_letter (by decide) _)
  refine parse_table_iff foregoing split visible (createTable_not_misses schemas last rest) fun nodes left reads => ?_
  obtain ⟨children, created, -⟩ := (createTable_reads_iff schemas last).mp reads
  exact ⟨_, created⟩

private theorem intColumn_reads : ∃ nodes left, tableBody.Reads (' ' :: '(' :: "a INT)".toList) nodes left ∧
    (readFrom left).fault = none ∧ (readFrom left).tables = [] ∧
    Node.columns nodes = [{ name := "a", goType := "int64" }] ∧
    (nodes.flatMap fun node => node.children.flatMap Node.typeImports) = [] := by
  have parsed : parse "CREATE TABLE t (a INT)" = .ok ⟨.root, "", (readScript "CREATE TABLE t (a INT)").tables⟩ :=
    tree_eq_ok.mpr ⟨by decide +kernel, rfl⟩
  have tables : (readScript "CREATE TABLE t (a INT)").tables.map Node.table =
      [⟨"t", [{ name := "a", goType := "int64" }]⟩] := by decide +kernel
  have imports : Node.imports (readScript "CREATE TABLE t (a INT)").tables = [] := by decide +kernel
  let table : Identifier := .word ['t'] (by decide) (forall_among (by decide))
  have source : "CREATE TABLE t (a INT)".toList = [] ++ createTable [] table "a INT)".toList := by decide
  obtain ⟨_, left, reads, sound, same⟩ := (parse_createTable_iff foregoing_nothing source).mp parsed
  obtain ⟨nodes, created, body⟩ := (createTable_reads_iff [] table).mp reads
  obtain rfl := List.singleton_inj.mp created
  rw [(Node.mk.inj same).2.2] at tables imports
  obtain ⟨first, others⟩ := List.cons.inj tables
  have none : (readFrom left).tables = [] := List.map_eq_nil_iff.mp others
  rw [none] at imports
  exact ⟨nodes, left, body, sound, none, (Table.mk.inj first).2, by simpa [Node.imports] using imports⟩

/-- Whatever the identifiers of a reference hold between their quotes, the table is built, and it has the name
that the last of them means if and only if there is no dot in that name. -/
theorem qualified_table_is_named (settings : Settings) (schemas : List Identifier) (last : Identifier) :
    ∃ name, (buildPackage settings
        ("CREATE TABLE " ++ String.ofList (Identifier.dotted schemas last) ++ " (a INT)")).result =
      .ok { name := settings.packageName,
            tables := [{ name, columns := [{ name := "a", goType := "int64" }] }] } ∧
      (name = String.ofList last.name ↔ '.' ∉ last.name) := by
  obtain ⟨nodes, left, body, sound, none, columns, imports⟩ := intColumn_reads
  have text : ("CREATE TABLE " ++ String.ofList (Identifier.dotted schemas last) ++ " (a INT)").toList =
      [] ++ createTable schemas last "a INT)".toList := by
    unfold createTable
    simp
  have reads := (createTable_reads_iff schemas last).mpr ⟨nodes, rfl, body⟩
  have parsed := (parse_createTable_iff foregoing_nothing text).mpr ⟨_, left, reads, sound, rfl⟩
  rw [none] at parsed
  refine ⟨tableName (String.ofList (Identifier.dotted schemas last)), ?_, tableName_eq_name_iff schemas last⟩
  rw [(buildPackage_of_parse settings parsed).1]
  simp [Node.packageNamed, Node.imports, Node.table, imports, columns, Package.addImports]

/-- A dot between quotes cuts the name, and the closing quote is kept. -/
theorem quoted_dot_cuts_name :
    let last := Identifier.quoted '\x60' [['a'], ['.'], ['b']] (by decide) (by
      simp only [List.mem_cons, List.not_mem_nil, or_false]
      rintro piece (rfl | rfl | rfl) <;> exact .plain (by decide) (by decide))
    String.ofList last.name = "a.b" ∧
      (buildPackage {} ("CREATE TABLE " ++ String.ofList (Identifier.dotted [] last) ++ " (a INT)")).result =
        .ok { tables := [{ name := "b\x60", columns := [{ name := "a", goType := "int64" }] }] } := by
  decide +kernel

end DdlModels.Sql
