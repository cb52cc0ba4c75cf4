import DdlModels.Proofs.Faults
import DdlModels.Proofs.LineEndings
import DdlModels.Proofs.Recased

/-!
# Sources with carriage returns

A source whose lines end with line feeds is read as it is with a carriage return before every one of them: into the
same tree, but for the carriage returns in its texts, or with the same message, as many bytes later as there are line
feeds before the fault (`windows_lines_are_read_alike`).
-/

namespace DdlModels

open Text

namespace Sql

theorem Grammar.leafOf_crlf (kind : NodeKind) (text : List Char) :
    Grammar.leafOf kind (crlf text) = Node.withReturnsAll (Grammar.leafOf kind text) := by
  simp [Grammar.leafOf, Node.leaf, Node.withReturnsAll, Node.withReturns, Text.withReturns]

theorem branch_crlf (kind : NodeKind) (text : List Char) (children : List Node) :
    [⟨kind, String.ofList (crlf text), Node.withReturnsAll children⟩] =
      Node.withReturnsAll [⟨kind, String.ofList text, children⟩] := by
  simp [Node.withReturnsAll, Node.withReturns, Text.withReturns]

def Likeness.withReturns (places : List Char → Prop) : Likeness where
  texts text other := places text ∧ other = crlf text
  errors known known' := known' = known.move crlf
  taken text other := other = crlf text
  nodes nodes others := others = Node.withReturnsAll nodes
  errors_nil := (Errors.move_nil crlf).symm
  errors_append := by
    rintro known _ text _ kind rfl ⟨-, rfl⟩
    exact (known.move_append crlf [(text, kind)]).symm
  taken_nil := crlf_nil.symm
  taken_append := by
    rintro before after _ _ rfl rfl
    exact (crlf_append before after).symm
  nodes_nil := (Node.withReturnsAll_eq_map []).symm
  nodes_append := by
    rintro before after _ _ rfl rfl
    exact (Node.withReturnsAll_append before after).symm
  nodes_leaf := by
    rintro text _ kind rfl
    exact Grammar.leafOf_crlf kind text
  nodes_branch := by
    rintro _ _ _ _ _ rfl rfl
    exact branch_crlf _ _ _

theorem Reply.Alike.eq_withReturns {places : List Char → Prop} {reply other : Reply}
    (h : Alike (.withReturns places) reply other) : other = reply.withReturns := by
  cases h with
  | ok nodes taken rest =>
    obtain ⟨-, rfl⟩ := rest
    obtain rfl := nodes
    obtain rfl := taken
    rfl
  | miss errors =>
    obtain rfl := errors
    rfl
  | incomplete => rfl
  | fail errors =>
    obtain rfl := errors
    rfl

namespace Grammar

/-- A text is read alike with either line ending. -/
def EndsLinesAlike (grammar : Grammar) (text : List Char) : Prop :=
  grammar.read (crlf text) = (grammar.read text).withReturns

namespace EndsLinesAlike

variable {grammar part : Grammar} {text : List Char}

theorem of_pieces {piece : Grammar → Bool} (made : grammar.madeOf piece) (plain : '\x0d' ∉ text)
    (pieces : ∀ part place, piece part → '\x0d' ∉ place → place.length ≤ text.length →
      part.EndsLinesAlike place) : grammar.EndsLinesAlike text := by
  let places (place : List Char) : Prop := '\x0d' ∉ place ∧ place.length ≤ text.length
  have alike : Reply.Alike (.withReturns places) (grammar.read text) (grammar.read (crlf text)) := by
    refine read_alike made ⟨⟨plain, Nat.le_refl _⟩, rfl⟩ ?_
    rintro part place _ hpiece - ⟨⟨still, room⟩, rfl⟩
    rw [pieces part place hpiece still room]
    have split := part.read_splits place
    cases found : part.read place with
    | ok nodes taken rest =>
      rw [found] at split
      obtain rfl : place = taken ++ rest := split
      rw [List.length_append] at room
      exact .ok rfl rfl ⟨⟨fun inside => still (List.mem_append_right taken inside), by omega⟩, rfl⟩
    | miss errors => exact .miss rfl
    | fail failure =>
      cases failure with
      | incomplete => exact .incomplete
      | errors errors => exact .fail rfl
  exact alike.eq_withReturns

theorem trimmedLeaf (h : part.EndsLinesAlike text) (kind : NodeKind) :
    (Grammar.trimmedLeaf kind part).EndsLinesAlike text := by
  have leaf (taken : List Char) :
      trimmedLeafOf kind (crlf taken) = Node.withReturnsAll (trimmedLeafOf kind taken) := by
    rw [trimmedLeafOf, trimmedLeafOf, trim_crlf]
    cases trim taken with
    | nil => rfl
    | cons c rest =>
      cases made : crlf (c :: rest) with
      | nil => exact absurd (crlf_eq_nil.mp made) (List.cons_ne_nil c rest)
      | cons d more => simp [leafOf, Node.leaf, Node.withReturnsAll, Node.withReturns, Text.withReturns, made]
  rw [EndsLinesAlike, read_trimmedLeaf, read_trimmedLeaf, h]
  cases part.read text with
  | ok nodes taken rest => simp only [Reply.withReturns, Reply.gather, leaf]
  | miss | fail => rfl

def plainPiece : Grammar → Bool
  | .lexeme piece => piece.passesLines
  | .group => true
  | _ => false

private def groupRest : Grammar :=
  .many (.group <|> stringLiteral <|> backquoted <|> run ['(', ')', '\x27', '\x22', '\x60']) ++ symbol ')'

private theorem groupBody_opened (text : List Char) :
    groupBody.read ('(' :: text) = (groupRest.read text).after [] ['('] := by
  change (((Grammar.many _).read text).after [] ['(']).andThen (symbol ')').read =
    (((Grammar.many _).read text).andThen (symbol ')').read).after [] ['(']
  exact Reply.after_andThen ..

theorem group (plain : '\x0d' ∉ text) : Grammar.group.EndsLinesAlike text := by
  induction hn : text.length using Nat.strongRecOn generalizing text with
  | ind n ih =>
    rw [EndsLinesAlike, read_group, read_group]
    by_cases opened : ∃ rest, text = '(' :: rest
    · obtain ⟨rest, rfl⟩ := opened
      have later := List.not_mem_of_not_mem_cons plain
      have inner : groupRest.EndsLinesAlike rest := by
        have made : groupRest.madeOf plainPiece := by decide
        refine of_pieces made later ?_
        intro part place hpiece still room
        cases part with
        | lexeme piece => exact piece.read_crlf hpiece still
        | group =>
          have shorter : place.length < n := by
            rw [← hn, List.length_cons]
            omega
          exact ih place.length shorter still rfl
        | _ => contradiction
      rw [crlf_cons (by decide), groupBody_opened, groupBody_opened, inner, Reply.withReturns_after]
      rfl
    · have missed (other : List Char) (closed : ∀ rest, other ≠ '(' :: rest) :
          groupBody.read other = .miss [(other, .char '(')] := by
        have first : readSymbol '(' other = .miss [(other, .char '(')] := by
          cases other with
          | nil => rfl
          | cons c rest =>
            have : c ≠ '(' := fun same => closed rest (by rw [same])
            simp [readSymbol, this]
        change ((readSymbol '(' other).andThen _).andThen _ = _
        rw [first]
        rfl
      have closed := not_exists.mp opened
      have closed' (rest : List Char) : crlf text ≠ '(' :: rest := by
        intro found
        obtain ⟨more, same, -⟩ := crlf_eq_cons (by decide) found
        exact closed more same
      rw [missed text closed, missed (crlf text) closed']
      rfl

theorem of_plain (made : grammar.madeOf plainPiece) (plain : '\x0d' ∉ text) : grammar.EndsLinesAlike text := by
  refine of_pieces made plain ?_
  intro part place hpiece still _
  cases part with
  | lexeme piece => exact piece.read_crlf hpiece still
  | group => exact group still
  | _ => contradiction

def tablePiece : Grammar → Bool
  | .trimmedLeaf _ part => part.madeOf plainPiece
  | part => plainPiece part

theorem tableStatement (plain : '\x0d' ∉ text) : tableStatement.EndsLinesAlike text := by
  have made : Grammar.tableStatement.madeOf tablePiece := by decide
  refine of_pieces made plain ?_
  intro part place hpiece still _
  cases part with
  | trimmedLeaf kind part => exact trimmedLeaf (of_plain hpiece still) kind
  | lexeme piece => exact piece.read_crlf hpiece still
  | group => exact group still
  | _ => contradiction

end EndsLinesAlike

end Grammar

def Statement.withReturns : Statement → Statement
  | table node => table node.withReturns
  | bodiless text => bodiless (crlf text)
  | skipped text => skipped (crlf text)

namespace Script

def Next.withReturns : Next → Next
  | ended => ended
  | separator rest => separator (crlf rest)
  | statement made rest => statement made.withReturns (crlf rest)
  | halted fault => halted (fault.move crlf)

def withReturns (script : Script) : Script where
  statements := script.statements.map Statement.withReturns
  fault := script.fault.map (·.move crlf)

variable {text : List Char}

theorem skipBlanks_crlf (plain : '\x0d' ∉ text) : skipBlanks (crlf text) = crlf (skipBlanks text) := by
  have blanks : Grammar.blanks.EndsLinesAlike text := .of_plain (by decide) plain
  rw [skipBlanks, skipBlanks, blanks]
  cases Grammar.blanks.read text <;> rfl

private theorem ofTable_crlf (nodes : List Node) (start : List Char) :
    Statement.ofTable (Node.withReturnsAll nodes) (crlf start) = (Statement.ofTable nodes start).withReturns := by
  cases nodes <;> rfl

theorem next_crlf (plain : '\x0d' ∉ text) : next (crlf text) = (next text).withReturns := by
  have skips := skipBlanks_crlf plain
  have still : '\x0d' ∉ skipBlanks text := fun inside => plain ((skipBlanks_suffix text).subset inside)
  have table := Grammar.EndsLinesAlike.tableStatement still
  have tail : Grammar.statementTail.EndsLinesAlike (skipBlanks text) := .of_plain (by decide) still
  cases start : skipBlanks text with
  | nil =>
    rw [start] at skips
    rw [next, skips, next, start]
    rfl
  | cons c rest =>
    rw [start] at skips table tail
    by_cases separator : c = ';'
    · subst separator
      rw [next, skips, next, start]
      rfl
    · obtain ⟨d, more, begins, visible⟩ : ∃ d more, crlf (c :: rest) = d :: more ∧ d ≠ ';' := by
        by_cases feed : c = '\n'
        · subst feed
          exact ⟨'\x0d', '\n' :: crlf rest, rfl, by decide⟩
        · exact ⟨c, crlf rest, crlf_cons feed rest, separator⟩
      rw [begins] at skips
      rw [next_statement skips visible, next_statement start separator, ← begins, table, tail]
      cases Grammar.tableStatement.read (c :: rest) with
      | ok nodes taken left =>
        simp only [Reply.withReturns, ofTable_crlf]
        rfl
      | fail failure => rfl
      | miss errors =>
        cases Grammar.statementTail.read (c :: rest) with
        | ok nodes taken left =>
          cases taken with
          | nil => rfl
          | cons e taken =>
            cases made : crlf (e :: taken) with
            | nil => exact absurd (crlf_eq_nil.mp made) (List.cons_ne_nil e taken)
            | cons f others => simp [Reply.withReturns, Next.withReturns, Statement.withReturns, made]
        | miss | fail => rfl

theorem readFrom_crlf (plain : '\x0d' ∉ text) : readFrom (crlf text) = (readFrom text).withReturns := by
  -- on the steps through the script: what is left after a step has no carriage return either
  have step := next_crlf plain
  have stops := next_stops text
  fun_induction readFrom text with
  | case1 text found =>
    rw [readFrom_eq, step, found]
    rfl
  | case2 text rest found ih =>
    rw [found] at stops
    have still : '\x0d' ∉ rest := fun inside => plain (stops.subset inside)
    rw [readFrom_eq, step, found]
    exact ih still (next_crlf still) (next_stops rest)
  | case3 text statement rest found ih =>
    rw [found] at stops
    have still : '\x0d' ∉ rest := fun inside => plain (stops.subset inside)
    rw [readFrom_eq, step, found, Next.withReturns]
    simp only [ih still (next_crlf still) (next_stops rest)]
    rfl
  | case4 text fault found =>
    rw [readFrom_eq, step, found]
    rfl

theorem tables_withReturns (script : Script) : script.withReturns.tables = Node.withReturnsAll script.tables := by
  have node (statement : Statement) : statement.withReturns.node? = statement.node?.map Node.withReturns := by
    cases statement <;> rfl
  rw [tables, withReturns, List.filterMap_map, Node.withReturnsAll_eq_map, tables, List.map_filterMap]
  exact congrArg (fun node? => script.statements.filterMap node?) (funext node)

end Script

/-- A message quotes no line ending. -/
theorem wording_crlf (expected : Option String) {place : List Char} (plain : '\x0d' ∉ place) :
    wording expected (crlf place) = wording expected place := by
  have same := excerpt_crlf plain
  cases place with
  | nil => rfl
  | cons c rest =>
    obtain ⟨d, more, made⟩ := List.exists_cons_of_ne_nil (crlf_eq_nil.not.mpr (List.cons_ne_nil c rest))
    rw [made] at same ⊢
    cases expected <;> simp only [wording, same]

private theorem ParseError.at_crlf (before rest : List Char) (message : String) :
    ParseError.at (crlf (before ++ rest)) (crlf rest) message =
      (ParseError.at (before ++ rest) rest message).later (before.count '\n') := by
  rw [crlf_append, at_append, at_append, byteSize_crlf]
  rfl

/-- A fault in a text is reported as many bytes later as there are line feeds before its place. -/
theorem Fault.report_crlf {fault : Fault} {text : List Char} {names : List String} (plain : '\x0d' ∉ text)
    (h : fault.Within text names) : ∃ before rest, text = before ++ rest ∧
      (fault.report text).position = byteSize before ∧
      (fault.move crlf).report (crlf text) = (fault.report text).later (before.count '\n') := by
  rcases h.cases with ⟨rest, kind, outer, rfl, before, rfl⟩ | ⟨rest, rfl, before, rfl⟩
  · have still : '\x0d' ∉ rest := fun inside => plain (List.mem_append_right before inside)
    refine ⟨before, rest, rfl, by rw [report, Failure.report, ParseError.at_append], ?_⟩
    have names := Errors.expected?_move crlf ((rest, kind) :: outer)
    change ParseError.at _ (crlf rest) (wording (Errors.expected? (Errors.move crlf ((rest, kind) :: outer))) _) = _
    rw [names, wording_crlf _ still, ParseError.at_crlf]
    rfl
  · have still : '\x0d' ∉ rest := fun inside => plain (List.mem_append_right before inside)
    refine ⟨before, rest, rfl, by rw [report, ParseError.at_append], ?_⟩
    rw [move, report, excerpt_crlf still, ParseError.at_crlf]
    rfl

theorem readScript_withReturns {source : String} (plain : '\x0d' ∉ source.toList) :
    readScript (Text.withReturns source) = (readScript source).withReturns := by
  rw [readScript, Text.withReturns, String.toList_ofList, Script.readFrom_crlf plain, readScript]

/-- A source without carriage returns is parsed if and only if it is with one before every line feed, into the tree
with these carriage returns in its texts. Where it is refused, the message is the same, and the position counts every
line feed before it twice. -/
theorem windows_lines_are_read_alike {source : String} (plain : '\x0d' ∉ source.toList) :
    (∀ tree', parse (Text.withReturns source) = .ok tree' ↔
      ∃ tree, parse source = .ok tree ∧ tree' = tree.withReturns) ∧
    ∀ error, parse source = .error error → ∃ before rest later, source.toList = before ++ rest ∧
      error.position = byteSize before ∧ parse (Text.withReturns source) = .error later ∧
      later.message = error.message ∧ later.position = error.position + before.count '\n' := by
  have script := readScript_withReturns plain
  constructor
  · intro tree'
    simp only [parse, Script.tree_eq_ok, script]
    have fine : (readScript source).withReturns.fault = none ↔ (readScript source).fault = none :=
      Option.map_eq_none_iff
    constructor
    · rintro ⟨none, rfl⟩
      refine ⟨_, ⟨fine.mp none, rfl⟩, ?_⟩
      rw [Script.tables_withReturns]
      rfl
    · rintro ⟨_, ⟨none, rfl⟩, rfl⟩
      refine ⟨fine.mpr none, ?_⟩
      rw [Script.tables_withReturns]
      rfl
  · intro error refused
    obtain ⟨fault, found, rfl⟩ := parse_eq_error_iff.mp refused
    obtain ⟨before, rest, split, position, report⟩ := Fault.report_crlf plain (Script.fault_within found)
    have later : (readScript (Text.withReturns source)).fault = some (fault.move crlf) := by
      rw [script, Script.withReturns, found]
      rfl
    refine ⟨before, rest, _, split, position, parse_eq_error_iff.mpr ⟨_, later, rfl⟩, ?_⟩
    rw [Text.withReturns, String.toList_ofList, report]
    exact ⟨rfl, rfl⟩

/-- Lines end in comments and in literals too, there also behind a backslash. -/
theorem lines_in_literals_are_read_alike :
    (∃ tree, parse "CREATE TABLE t ( -- é\n a INT COMMENT 'x\\\ny'\n)\nENGINE=x\n;" = .ok tree ∧
      parse (Text.withReturns "CREATE TABLE t ( -- é\n a INT COMMENT 'x\\\ny'\n)\nENGINE=x\n;") =
        .ok tree.withReturns) ∧
    ∃ error before rest later, parse "-- é\nCREATE TABLE t (\n a)" = .error error ∧
      "-- é\nCREATE TABLE t (\n a)".toList = before ++ rest ∧ error.position = byteSize before ∧
      parse (Text.withReturns "-- é\nCREATE TABLE t (\n a)") = .error later ∧
      later.message = error.message ∧ later.position = error.position + before.count '\n' := by
  constructor
  · have parsed : (parse "CREATE TABLE t ( -- é\n a INT COMMENT 'x\\\ny'\n)\nENGINE=x\n;").toOption.isSome := by
      decide +kernel
    cases found : parse "CREATE TABLE t ( -- é\n a INT COMMENT 'x\\\ny'\n)\nENGINE=x\n;" with
    | ok tree => exact ⟨tree, rfl, ((windows_lines_are_read_alike (by decide)).1 _).mpr ⟨tree, found, rfl⟩⟩
    | error error => simp [found, Except.toOption] at parsed
  · have unparsed : (parse "-- é\nCREATE TABLE t (\n a)").toOption.isNone := by decide +kernel
    cases found : parse "-- é\nCREATE TABLE t (\n a)" with
    | ok tree => simp [found, Except.toOption] at unparsed
    | error error =>
      obtain ⟨before, rest, later, alike⟩ := (windows_lines_are_read_alike (by decide)).2 error found
      exact ⟨error, before, rest, later, rfl, alike⟩

end Sql

end DdlModels
