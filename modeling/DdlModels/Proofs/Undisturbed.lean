import DdlModels.Proofs.Steps
import DdlModels.Proofs.Stripped

/-!
# Scripts without their comments

Groups, keys, options and skipped statements are read character by character, comments included. Where no
comment changes the end of such a part, a script and what is left of it without comments are read into trees
of the same shape.
-/

namespace DdlModels.Sql

open Text Grammar Script

def Grammar.tableOptions : Grammar := .trimmedLeaf .tableOption statementTail

/-- Whether a grammar is read character by character. -/
def isRaw (grammar : Grammar) : Bool :=
  grammar == .group || grammar == definitionTail || grammar == statementTail || grammar == tableOptions

def before (rest text : List Char) : List Char := text.take (text.length - rest.length)

/-- A raw part ends where it would if comments were leapt over, and options are more than comments. -/
def Undisturbed (part : Grammar) (text : List Char) : Prop :=
  (part = .group → Leap.literals.groups.over? text = Leap.mindful.groups.over? text) ∧
  (part = definitionTail → scan Leap.literals.withGroups definitionStops text =
    scan Leap.mindful.withGroups definitionStops text) ∧
  (part = statementTail ∨ part = tableOptions →
    scan .literals statementStops text = scan .mindful statementStops text) ∧
  (part = tableOptions → trim (before (strip (scan .literals statementStops text)) (strip text)) = [] →
    trim (before (scan .literals statementStops text) text) = [])

instance (part : Grammar) (text : List Char) : Decidable (Undisturbed part text) :=
  inferInstanceAs (Decidable (_ ∧ _ ∧ _ ∧ _))

/-- The raw parts that reading a script comes to, with their places. -/
def Script.visited (text : List Char) : List (Grammar × List Char) :=
  tableStatement.visited isRaw (skipBlanks text) ++
    (match tableStatement.read (skipBlanks text) with
      | .miss _ => [(statementTail, skipBlanks text)]
      | _ => []) ++
    match _found : (next text).rest? with
    | some rest => visited rest
    | none => []
termination_by text.length
decreasing_by exact next_rest_length_lt _found

/-- No comment disturbs a raw part of a script. -/
def CommentsHarmless (source : List Char) : Prop := ∀ visit ∈ Script.visited source, Undisturbed visit.1 visit.2

instance (source : List Char) : Decidable (CommentsHarmless source) :=
  inferInstanceAs (Decidable (∀ visit ∈ _, _))

variable {text rest : List Char} {nodes : List Node} {part : Grammar}

theorem Clear.groups_strip (h : Clear text) :
    Leap.literals.groups.over? (strip text) = (Leap.mindful.groups.over? text).map strip ∧
      ∀ rest, Leap.mindful.groups.over? text = some rest → Clear rest := by
  have none {leap : Leap} {text : List Char} (absent : '(' ∉ text.head?) : leap.groups.over? text = none := by
    cases text with
    | nil => rfl
    | cons c text =>
      apply Leap.groups_over_ne
      rintro rfl
      exact absent rfl
  by_cases here : '(' ∈ text.head?
  · cases text with
    | nil => contradiction
    | cons c inner =>
      obtain rfl := Option.some.inj here
      rw [strip_unmarked rfl]
      exact (h.unmarked rfl).groupEnd?_strip 0
  · have there : '(' ∉ (strip text).head? := fun inside => here ((strip_head_unmarked rfl).mp inside)
    rw [none here, none there]
    exact ⟨rfl, by simp⟩

theorem group_stripped (h : Clear text) (calm : Undisturbed .group text) :
    Reply.Alike stripped (Grammar.group.read text) (Grammar.group.read (strip text)) := by
  obtain ⟨same, clear⟩ := h.groups_strip
  rw [← calm.1 rfl] at same clear
  cases jump : Leap.literals.groups.over? text with
  | none =>
    rw [jump] at same
    exact alike_of_misses ((Leap.groups_describes _).misses (Nat.le_refl _) jump)
      ((Leap.groups_describes _).misses (Nat.le_refl _) same)
  | some rest =>
    rw [jump] at same
    exact alike_of_reads ((Leap.groups_describes _).reads (Nat.le_refl _) jump)
      ((Leap.groups_describes _).reads (Nat.le_refl _) same) rfl (clear rest jump) rfl

theorem definitionTail_stripped (h : Clear text) (calm : Undisturbed definitionTail text) :
    Reply.Alike stripped (definitionTail.read text) (definitionTail.read (strip text)) := by
  obtain ⟨same, clear⟩ := h.scan_strip Leap.mindful_withGroups_strips definitionStops (by decide)
  rw [← calm.2.1 rfl] at same clear
  exact alike_of_reads (definitionTail_reads text) (definitionTail_reads _) rfl clear same

theorem statementTail_stripped (h : Clear text)
    (calm : scan .literals statementStops text = scan .mindful statementStops text) :
    Reply.Alike stripped (statementTail.read text) (statementTail.read (strip text)) := by
  obtain ⟨same, clear⟩ := h.scan_strip Leap.mindful_strips statementStops (by decide)
  rw [← calm] at same clear
  exact alike_of_reads (statementTail_reads text) (statementTail_reads _) rfl clear same

private theorem strip_append {white : List Char} (plain : ∀ c ∈ white, isBlank c) (text : List Char) :
    strip (white ++ text) = white ++ strip text := by
  induction white with
  | nil => rfl
  | cons c white ih =>
    have marks := not_mark_of_isBlank (plain c List.mem_cons_self)
    have quote : isQuote c = false :=
      not_quote_of_not_mem fun inside => marks (List.mem_append_left ['-', '#', '/'] inside)
    have mark : c ∉ ['-', '#', '/'] := fun inside => marks (List.mem_append_right ['\x27', '\x22', '\x60'] inside)
    rw [List.cons_append, strip_char (Leap.literals_over_none quote _) (comments_over_none mark _),
      ih fun d hd => plain d (List.mem_cons_of_mem c hd)]
    rfl

private theorem isBlank_of_trim_eq_nil (h : trim text = []) : ∀ c ∈ text, isBlank c := by
  intro c hc
  by_contra visible
  exact trim_ne_nil hc (by simpa using visible) h

private theorem bareAll_trimmedLeafOf (kind : NodeKind) {taken other : List Char}
    (blank : trim other = [] ↔ trim taken = []) :
    Node.bareAll (trimmedLeafOf kind other) = Node.bareAll (trimmedLeafOf kind taken) := by
  rw [trimmedLeafOf, trimmedLeafOf]
  cases first : trim taken with
  | nil => rw [blank.mpr first]
  | cons c inner =>
    cases second : trim other with
    | nil =>
      rw [blank.mp second] at first
      contradiction
    | cons d inner => rfl

private theorem before_append (taken rest : List Char) : before rest (taken ++ rest) = taken := by
  rw [before, List.length_append, Nat.add_sub_cancel, List.take_left]

theorem tableOptions_stripped (h : Clear text) (calm : Undisturbed tableOptions text) :
    Reply.Alike stripped (tableOptions.read text) (tableOptions.read (strip text)) := by
  obtain ⟨-, -, ends, visible⟩ := calm
  obtain ⟨same, clear⟩ := h.scan_strip Leap.mindful_strips statementStops (by decide)
  have tail := statementTail_reads text
  have tail' := statementTail_reads (strip text)
  rw [same, ← ends (.inr rfl)] at tail'
  rw [← ends (.inr rfl)] at clear
  have visible := visible rfl
  generalize scan .literals statementStops text = rest at tail tail' clear visible
  obtain ⟨taken, rfl⟩ := tail.splits
  obtain ⟨left, split⟩ := tail'.splits
  rw [split] at tail' visible ⊢
  rw [before_append, before_append] at visible
  refine alike_of_reads (tail.trimmedLeaf .tableOption) (tail'.trimmedLeaf .tableOption) ?_ clear rfl
  refine bareAll_trimmedLeafOf .tableOption ⟨visible, ?_⟩
  intro blank
  have whole := split.symm.trans (strip_append (isBlank_of_trim_eq_nil blank) rest)
  rw [List.append_cancel_right whole]
  exact blank

theorem raw_stripped (hraw : isRaw part) (h : Clear text) (calm : Undisturbed part text) :
    Reply.Alike stripped (part.read text) (part.read (strip text)) := by
  simp only [isRaw, Bool.or_eq_true, beq_iff_eq] at hraw
  rcases hraw with ((rfl | rfl) | rfl) | rfl
  · exact group_stripped h calm
  · exact definitionTail_stripped h calm
  · exact statementTail_stripped h (calm.2.2.1 (.inl rfl))
  · exact tableOptions_stripped h calm

private def tablePiece (grammar : Grammar) : Bool :=
  lexemePiece grammar || isRaw grammar || grammar == Grammar.blanks || grammar == number ||
    grammar == tableConstraint

private theorem isRaw_of_tablePiece (grammar : Grammar) (h : tablePiece grammar = false) : isRaw grammar = false := by
  simp only [tablePiece, Bool.or_eq_false_iff] at h
  exact h.1.1.1.2

private def keyed : Grammar :=
  anyKeyword "PRIMARY" ["UNIQUE", "KEY", "INDEX", "FULLTEXT", "SPATIAL", "CONSTRAINT", "FOREIGN", "CHECK"] ++
    definitionTail

private theorem read_tableConstraint (text : List Char) :
    tableConstraint.read text = (keyed.read text).gather (trimmedLeafOf .tableConstraint) := rfl

/-- A key has a keyword in front, so that it is never blank. -/
private theorem tableConstraint_stripped (h : Clear text)
    (calm : ∀ place, tableConstraint.Visits isRaw text definitionTail place → Undisturbed definitionTail place) :
    Reply.Alike stripped (tableConstraint.read text) (tableConstraint.read (strip text)) := by
  have leaf (text taken rest : List Char) (nodes : List Node)
      (found : (keyed.read text).gather (trimmedLeafOf .tableConstraint) = .ok nodes taken rest) :
      Node.bareAll nodes = [⟨.tableConstraint, "", []⟩] := by
    rcases read_yields ((read_tableConstraint text).trans found) with ⟨light, -⟩ | ⟨_, -, rfl⟩
    · exact absurd light (by decide)
    · rfl
  have inner : Reply.Alike stripped (keyed.read text) (keyed.read (strip text)) := by
    refine (lexemes_stripped (by decide) h).andThen ?_
    intro nodes taken rest rest' found texts
    rw [texts.2]
    refine definitionTail_stripped texts.1 (calm rest ?_)
    exact .trimmedLeaf (by decide) (.second (by decide) ⟨taken, found⟩ .here)
  have first := leaf text
  have second := leaf (strip text)
  rw [read_tableConstraint, read_tableConstraint]
  generalize keyed.read text = reply at inner first ⊢
  generalize keyed.read (strip text) = other at inner second ⊢
  cases inner with
  | ok _ _ texts => exact .ok ((second _ _ _ rfl).trans (first _ _ _ rfl).symm) trivial texts
  | miss errors => exact .miss errors
  | incomplete => exact .incomplete
  | fail errors => exact .fail errors

theorem tableStatement_stripped (h : Clear text)
    (calm : ∀ visit ∈ tableStatement.visited isRaw text, Undisturbed visit.1 visit.2) :
    Reply.Alike stripped (tableStatement.read text) (tableStatement.read (strip text)) := by
  have made : tableStatement.madeOf tablePiece := by decide
  refine read_alike made ⟨h, rfl⟩ ?_
  intro part place place' hpiece visits texts
  rw [texts.2]
  have raw {unit : Grammar} {spot : List Char} (hraw : isRaw unit) (inner : part.Visits isRaw place unit spot) :
      Undisturbed unit spot :=
    calm (unit, spot) ((visits.extend isRaw_of_tablePiece inner).mem_visited hraw)
  simp only [tablePiece, Bool.or_eq_true, beq_iff_eq] at hpiece
  rcases hpiece with (((hpiece | hraw) | rfl) | rfl) | rfl
  · exact lexemePiece_stripped hpiece texts.1
  · exact raw_stripped hraw texts.1 (raw hraw .here)
  · exact blanks_stripped texts.1
  · exact number_stripped texts.1
  · exact tableConstraint_stripped texts.1 fun place inner => raw (by decide) inner

private theorem statementTail_takes (h : Clear text) (nonempty : text ≠ []) (visible : ∀ left, text ≠ ';' :: left) :
    ∃ c taken rest, statementTail.read text = .ok [] (c :: taken) rest := by
  have shorter : (scan .literals statementStops text).length < text.length := by
    have le (text : List Char) : (scan .literals statementStops text).length ≤ text.length :=
      (statementTail_reads text).length_le
    have passes {c : Char} {text : List Char} (quote : isQuote c = false) (other : c ≠ ';') :
        (scan .literals statementStops (c :: text)).length < (c :: text).length := by
      have plain : c ∉ statementStops := by simpa [statementStops, isQuote, other, and_assoc] using quote
      rw [scan_char (Leap.literals_over_none quote text), if_neg plain]
      exact Nat.lt_succ_of_le (le text)
    cases h with
    | nil => contradiction
    | @literal literal after jump _ =>
      rw [scan_over jump]
      exact Nat.lt_of_le_of_lt (le after) (Leap.literals.shortens jump)
    | comment quote jump _ => exact passes quote fun same => absurd (same ▸ comment_begins jump) (by decide)
    | char quote _ _ _ => exact passes quote fun same => visible _ (by rw [same])
  have reads := statementTail_reads text
  obtain ⟨taken, split⟩ := reads.splits
  cases taken with
  | nil =>
    have same : scan .literals statementStops text = text := split.symm
    rw [same] at shorter
    exact absurd shorter (Nat.lt_irrefl _)
  | cons c taken =>
    generalize scan .literals statementStops text = rest at reads split
    rw [split] at reads ⊢
    exact ⟨c, taken, rest, reads.read_eq⟩

private theorem node_of_bareAll {nodes others : List Node} (same : Node.bareAll others = Node.bareAll nodes)
    (text other : List Char) :
    (Statement.ofTable others other).node?.map Node.bare = (Statement.ofTable nodes text).node?.map Node.bare := by
  cases nodes with
  | nil =>
    cases others with
    | nil => rfl
    | cons => contradiction
  | cons node nodes =>
    cases others with
    | nil => contradiction
    | cons other others => exact congrArg some (List.cons.inj same).1

/-- What comes next in a script comes next in it without its comments. -/
private theorem next_stripped (h : Clear text) (calm : CommentsHarmless text) :
    match next text with
    | .ended => next (strip text) = .ended
    | .separator rest => next (strip text) = .separator (strip rest) ∧ Clear rest
    | .statement statement rest =>
      ∃ other, next (strip text) = .statement other (strip rest) ∧ Clear rest ∧
        other.node?.map Node.bare = statement.node?.map Node.bare
    | .halted _ => ∃ fault, next (strip text) = .halted fault := by
  obtain ⟨skips, clear⟩ := h.skipBlanks_strip
  rw [CommentsHarmless, Script.visited] at calm
  have table := tableStatement_stripped clear fun visit hvisit =>
    calm visit (List.mem_append_left _ (List.mem_append_left _ hvisit))
  rw [next_eq_step text]
  fun_cases step text with
  | case1 empty =>
    rw [empty, strip_nil] at skips
    exact next_ended skips
  | case2 rest start =>
    rw [start] at clear
    rw [start, strip_unmarked rfl] at skips
    exact ⟨next_separator skips, clear.unmarked rfl⟩
  | case3 nodes taken rest _ _ found =>
    rw [found] at table
    -- the statement of a table ends at the same place of both texts
    generalize reply : tableStatement.read (strip (skipBlanks text)) = other at table
    cases table with
    | ok same _ texts =>
      obtain ⟨kept, rfl⟩ := texts
      exact ⟨_, next_of_table skips reply, kept, node_of_bareAll same _ _⟩
  | case4 failure _ _ found =>
    rw [found] at table
    generalize reply : tableStatement.read (strip (skipBlanks text)) = other at table
    cases table with
    | incomplete | fail => exact ⟨_, next_of_failed skips reply⟩
  | case5 errors nodes c taken rest nonempty visible missed found =>
    -- the statement is passed over, and no comment disturbs where it ends
    have raw : Undisturbed statementTail (skipBlanks text) := by
      refine calm (statementTail, skipBlanks text) (List.mem_append_left _ (List.mem_append_right _ ?_))
      rw [missed]
      exact List.mem_singleton_self _
    have tail := statementTail_stripped clear (raw.2.2.1 (.inl rfl))
    have visible' : ∀ left, strip (skipBlanks text) ≠ ';' :: left := by
      intro left there
      have here : ';' ∈ (skipBlanks text).head? := (strip_head_unmarked rfl).mp (by rw [there]; rfl)
      cases start : skipBlanks text with
      | nil => exact nonempty start
      | cons d inner =>
        rw [start] at here
        exact visible inner (by rw [start, Option.some.inj here])
    obtain ⟨d, taken', rest', found'⟩ :=
      statementTail_takes clear.strip (fun empty => nonempty (strip_eq_nil.mp empty)) visible'
    rw [found, found'] at tail
    rw [missed] at table
    generalize reply : tableStatement.read (strip (skipBlanks text)) = other at table
    cases table with
    | miss _ =>
      cases tail with
      | ok _ _ texts =>
        obtain ⟨kept, rfl⟩ := texts
        exact ⟨_, next_of_skipped skips visible' ⟨_, reply⟩ found', kept, rfl⟩
  | case6 errors nonempty visible missed stuck =>
    -- all quotes are closed, so that no statement is empty
    obtain ⟨c, taken, rest, found⟩ := statementTail_takes clear nonempty visible
    exact absurd found (stuck _ _ _ _)

private theorem CommentsHarmless.later (calm : CommentsHarmless text) (h : (next text).rest? = some rest) :
    CommentsHarmless rest := by
  rw [CommentsHarmless, Script.visited] at calm
  intro visit hvisit
  refine calm visit (List.mem_append_right _ ?_)
  split
  case h_1 other found =>
    rw [h] at found
    rwa [← Option.some.inj found]
  case h_2 found =>
    rw [h] at found
    contradiction

/-- A script without its comments is read into tables of the same shape, and is sound only if the script is. -/
theorem readFrom_stripped (h : Clear text) (calm : CommentsHarmless text) :
    Node.bareAll (readFrom (strip text)).tables = Node.bareAll (readFrom text).tables ∧
      (readFrom (strip text)).fault.isSome = (readFrom text).fault.isSome := by
  -- on the length of the text: its steps are steps through the stripped text
  induction hn : text.length using Nat.strongRecOn generalizing text with
  | ind n ih =>
    have steps := next_stripped h calm
    have deeper {left : List Char} (kept : Clear left) (hleft : (next text).rest? = some left) :=
      ih left.length (hn ▸ next_rest_length_lt hleft) kept (calm.later hleft) rfl
    rw [readFrom_eq text, readFrom_eq (strip text)]
    cases found : next text with
    | ended =>
      rw [found] at steps
      rw [steps]
      exact ⟨rfl, rfl⟩
    | separator rest =>
      rw [found] at steps
      rw [steps.1]
      exact deeper steps.2 (by rw [found]; rfl)
    | statement statement rest =>
      rw [found] at steps
      obtain ⟨other, next', kept, node⟩ := steps
      obtain ⟨tables, fault⟩ := deeper kept (by rw [found]; rfl)
      rw [next']
      refine ⟨?_, fault⟩
      simp only [tables_cons, Node.bareAll_append, tables]
      congr 1
      cases first : statement.node? <;> cases second : other.node? <;> simp_all [Node.bareAll]
    | halted fault =>
      rw [found] at steps
      obtain ⟨fault', next'⟩ := steps
      rw [next']
      exact ⟨rfl, rfl⟩

/-- Comments are no part of a script: as long as none disturbs the end of a raw part, a script is read into a
tree if and only if it is read into one without its comments, and both trees have the same shape. -/
theorem parse_strip (source : String) (closed : terminated source.toList)
    (settled : strip (strip source.toList) = strip source.toList) (calm : CommentsHarmless source.toList) :
    (parse source).toOption.map Node.bare =
      (parse (String.ofList (strip source.toList))).toOption.map Node.bare := by
  obtain ⟨tables, fault⟩ := readFrom_stripped (clear_of_terminated closed settled) calm
  rw [parse, parse, readScript, readScript, String.toList_ofList, Script.tree, Script.tree]
  cases first : (readFrom source.toList).fault with
  | none =>
    cases second : (readFrom (strip source.toList)).fault with
    | none => simp only [Except.toOption, Option.map_some, Node.bare, tables]
    | some => simp [first, second] at fault
  | some =>
    cases second : (readFrom (strip source.toList)).fault with
    | none => simp [first, second] at fault
    | some => rfl

/-- Quotes, parentheses and semicolons in comments between the words of a table do no harm. -/
theorem parse_strip_of_marks_in_comments :
    (terminated "CREATE TABLE t ( -- it's; (a)\n id INT /* ) \" */ NOT NULL) /* ; */ ENGINE=x;".toList ∧
      strip "CREATE TABLE t ( -- it's; (a)\n id INT /* ) \" */ NOT NULL) /* ; */ ENGINE=x;".toList =
        "CREATE TABLE t (  \n id INT   NOT NULL)   ENGINE=x;".toList ∧
      CommentsHarmless "CREATE TABLE t ( -- it's; (a)\n id INT /* ) \" */ NOT NULL) /* ; */ ENGINE=x;".toList) ∧
    (parse "CREATE TABLE t ( -- it's; (a)\n id INT /* ) \" */ NOT NULL) /* ; */ ENGINE=x;").toOption.map Node.bare =
      (parse "CREATE TABLE t (  \n id INT   NOT NULL)   ENGINE=x;").toOption.map Node.bare ∧
    (parse "CREATE TABLE t (  \n id INT   NOT NULL)   ENGINE=x;").toOption.isSome := by
  have left : strip "CREATE TABLE t ( -- it's; (a)\n id INT /* ) \" */ NOT NULL) /* ; */ ENGINE=x;".toList =
      "CREATE TABLE t (  \n id INT   NOT NULL)   ENGINE=x;".toList := by decide +kernel
  have same := parse_strip "CREATE TABLE t ( -- it's; (a)\n id INT /* ) \" */ NOT NULL) /* ; */ ENGINE=x;"
    (by decide +kernel) (by decide +kernel) (by decide +kernel)
  rw [left, String.ofList_toList] at same
  exact ⟨⟨by decide +kernel, left, by decide +kernel⟩, same, by decide +kernel⟩

/-- A parenthesis in a comment closes the group that the comment stands in, and a semicolon in one ends a
statement that is passed over. -/
theorem parse_misled_by_comments :
    (terminated "CREATE TABLE t (id INT(11 /* ) */))".toList ∧
      strip "CREATE TABLE t (id INT(11 /* ) */))".toList = "CREATE TABLE t (id INT(11  ))".toList ∧
      ((parse "CREATE TABLE t (id INT(11 /* ) */))").toOption.map fun tree => tree.children.length) = none ∧
      ((parse "CREATE TABLE t (id INT(11  ))").toOption.map fun tree => tree.children.length) = some 1) ∧
    (terminated "DROP TABLE a /* ; CREATE TABLE t (id INT); */;".toList ∧
      strip "DROP TABLE a /* ; CREATE TABLE t (id INT); */;".toList = "DROP TABLE a  ;".toList ∧
      ((parse "DROP TABLE a /* ; CREATE TABLE t (id INT); */;").toOption.map fun tree => tree.children.length) =
        some 1 ∧
      ((parse "DROP TABLE a  ;").toOption.map fun tree => tree.children.length) = some 0) := by
  decide +kernel

end DdlModels.Sql
