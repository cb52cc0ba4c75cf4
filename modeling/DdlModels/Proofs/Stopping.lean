import DdlModels.Proofs.Reads

/-!
# How reading ends

Reading goes on at an end of the text, and what went wrong is found at ends of it. A grammar without a
cut never fails. So the whole statement that creates a table decides a step through a script, although
only its first words are asked for (`Script.next_eq_step`).
-/

namespace DdlModels.Sql

/-- There is an error, all are at ends of the text, and only these names occur. -/
structure Errors.Within (errors : Errors) (text : List Char) (names : List String) : Prop where
  nonempty : errors ≠ []
  suffix : ∀ error ∈ errors, error.1 <:+ text
  names : ∀ error ∈ errors, ∀ what ∈ error.2.context?, what ∈ names

namespace Errors.Within

variable {errors : Errors} {text other place : List Char} {names : List String} {kind : ErrorKind}

theorem single (suffix : place <:+ text) (plain : kind.context? = none) :
    Errors.Within [(place, kind)] text names where
  nonempty := List.cons_ne_nil _ _
  suffix := by simpa using suffix
  names := by simp [plain]

theorem append (h : Errors.Within errors text names) (suffix : place <:+ text)
    (known : ∀ what ∈ kind.context?, what ∈ names) :
    Errors.Within (errors ++ [(place, kind)]) text names where
  nonempty := List.append_ne_nil_of_left_ne_nil h.nonempty _
  suffix := List.forall_mem_append.mpr ⟨h.suffix, by simpa using suffix⟩
  names := List.forall_mem_append.mpr ⟨h.names, by simpa using known⟩

theorem trans (h : Errors.Within errors other names) (suffix : other <:+ text) : Errors.Within errors text names where
  nonempty := h.nonempty
  suffix := fun error mem => (h.suffix error mem).trans suffix
  names := h.names

end Errors.Within

/-- A failure with errors, never for want of text. -/
def Failure.Within (failure : Failure) (text : List Char) (names : List String) : Prop :=
  ∃ errors, failure = .errors errors ∧ errors.Within text names

theorem Failure.Within.trans {failure : Failure} {text other : List Char} {names : List String}
    (h : failure.Within other names) (suffix : other <:+ text) : failure.Within text names := by
  obtain ⟨errors, rfl, within⟩ := h
  exact ⟨errors, rfl, within.trans suffix⟩

namespace Reply

/-- Reading ends in the text, with errors only of these names. -/
def StopsIn (text : List Char) (names : List String) : Reply → Prop :=
  Obeys (fun _ _ rest => rest <:+ text) (·.Within text names) (·.Within text names)

/-- The same for a lexeme, which never fails and has no names to tell. -/
def Halts (text : List Char) : Reply → Prop :=
  Obeys (fun _ _ rest => rest <:+ text) (·.Within text []) fun _ => False

theorem StopsIn.trans {reply : Reply} {text other : List Char} {names : List String} (h : reply.StopsIn other names)
    (suffix : other <:+ text) : reply.StopsIn text names :=
  h.mono (fun stops => stops.trans suffix) (fun _ within => within.trans suffix) fun _ within => within.trans suffix

theorem Halts.trans {reply : Reply} {text other : List Char} (h : reply.Halts other) (suffix : other <:+ text) :
    reply.Halts text :=
  h.mono (fun stops => stops.trans suffix) (fun _ within => within.trans suffix) fun _ => id

theorem Halts.after {reply : Reply} {text : List Char} (h : reply.Halts text) (nodes : List Node) (taken : List Char) :
    (reply.after nodes taken).Halts text :=
  Obeys.after h

end Reply

open Reply (Halts)

theorem readRun_halts {kind : ErrorKind} (plain : kind.context? = none) (member : Char → Bool) (text : List Char) :
    (readRun kind member text).Halts text := by
  rw [readRun]
  split
  · exact .single (List.suffix_refl text) plain
  · exact List.dropWhile_suffix member

theorem readSymbol_halts (c : Char) (text : List Char) : (readSymbol c text).Halts text := by
  fun_cases readSymbol c text with
  | case1 => exact .single (List.suffix_refl []) rfl
  | case2 d rest => exact List.suffix_cons d rest
  | case3 d rest => exact .single (List.suffix_refl _) rfl

theorem readKeyword_halts (keyword text : List Char) : (readKeyword keyword text).Halts text := by
  fun_cases readKeyword keyword text with
  | case1 _ taken rest found => exact .single ⟨taken, (Text.splitBytes?_append found).symm⟩ rfl
  | case2 _ taken rest found => exact ⟨taken, (Text.splitBytes?_append found).symm⟩
  | case3 | case4 => exact .single (List.suffix_refl text) rfl

theorem readWordAmong_halts (words : List String) (text : List Char) : (readWordAmong words text).Halts text := by
  have run : (readRun .takeWhile1 Text.isWordChar text).Halts text := readRun_halts rfl _ text
  fun_cases readWordAmong words text with
  | case1 nodes word rest found => rwa [found] at run
  | case2 => exact .single (List.suffix_refl text) rfl
  | case3 => exact run

theorem readToClose_halts (quote : Char) (text : List Char) : (readToClose quote text).Halts text := by
  fun_induction readToClose quote text with
  | case1 => exact .single (List.suffix_refl []) rfl
  | case2 c => exact List.nil_suffix
  | case3 c => exact .single (List.suffix_refl [c]) rfl
  | case4 c => exact .single List.nil_suffix rfl
  | case5 c d rest _ ih =>
    exact (ih.trans ((List.suffix_cons d rest).trans (List.suffix_cons c (d :: rest)))).after _ _
  | case6 c d rest => exact List.suffix_cons c (d :: rest)
  | case7 c d rest _ _ ih => exact (ih.trans (List.suffix_cons c (d :: rest))).after _ _

theorem readQuoted_halts (quote : Char) (text : List Char) : (readQuoted quote text).Halts text := by
  fun_cases readQuoted quote text with
  | case1 => exact .single (List.suffix_refl []) rfl
  | case2 c rest => exact ((readToClose_halts quote rest).trans (List.suffix_cons c rest)).after _ _
  | case3 c rest => exact .single (List.suffix_refl _) rfl

theorem readToLineEnd_halts (text : List Char) : (readToLineEnd text).Halts text := by
  rw [readToLineEnd]
  split
  · exact List.dropWhile_suffix _
  · exact .single (List.suffix_refl text) rfl

theorem readLineComment_halts (text : List Char) : (readLineComment text).Halts text := by
  fun_cases readLineComment text with
  | case1 rest => exact ((readToLineEnd_halts rest).trans ⟨['-', '-'], rfl⟩).after _ _
  | case2 rest => exact ((readToLineEnd_halts rest).trans (List.suffix_cons '#' rest)).after _ _
  | case3 =>
    have hash : Errors.Within [(text, .tag)] text [] := .single (List.suffix_refl text) rfl
    exact hash.append (List.suffix_refl text) (by simp [ErrorKind.context?])

theorem readToCommentClose_halts {start text : List Char} (suffix : text <:+ start) :
    (readToCommentClose start text).Halts start := by
  fun_induction readToCommentClose start text with
  | case1 => exact .single (List.suffix_refl start) rfl
  | case2 rest => exact List.IsSuffix.trans ⟨['*', '/'], rfl⟩ suffix
  | case3 c rest _ ih => exact (ih ((List.suffix_cons c rest).trans suffix)).after _ _

theorem readBlockComment_halts (text : List Char) : (readBlockComment text).Halts text := by
  fun_cases readBlockComment text with
  | case1 rest => exact ((readToCommentClose_halts (List.suffix_refl rest)).trans ⟨['/', '*'], rfl⟩).after _ _
  | case2 => exact .single (List.suffix_refl text) rfl

theorem Lexeme.read_halts (piece : Lexeme) (text : List Char) : (piece.read text).Halts text := by
  cases piece with
  | symbol c => exact readSymbol_halts c text
  | keyword name => exact readKeyword_halts name.toList text
  | wordAmong words => exact readWordAmong_halts words text
  | word | digits | spaces | run => exact readRun_halts rfl _ text
  | lineComment => exact readLineComment_halts text
  | blockComment => exact readBlockComment_halts text
  | quoted quote => exact readQuoted_halts quote text

namespace Grammar

def names : Grammar → List String
  | .lexeme _ | .group => []
  | .seq first second | .choice first second | .butNot first second | .branch _ first second =>
    first.names ++ second.names
  | .optional part | .many part | .cut part | .leaf _ part | .trimmedLeaf _ part => part.names
  | .context what part => what :: part.names

/-- Whether a grammar never fails: nothing is cut in it. -/
def calm : Grammar → Bool
  | .lexeme _ | .group => true
  | .seq first second | .choice first second | .butNot first second | .branch _ first second =>
    first.calm && second.calm
  | .optional part | .many part | .context _ part | .leaf _ part | .trimmedLeaf _ part => part.calm
  | .cut _ => false

variable {readGroup : List Char → Reply} {names : List String}

theorem readWith_stops (hgroup : ∀ text, (readGroup text).StopsIn text names) {grammar : Grammar}
    (known : grammar.names ⊆ names) (text : List Char) : (grammar.readWith readGroup text).StopsIn text names := by
  induction grammar generalizing text with
  | lexeme piece =>
    refine (piece.read_halts text).mono id ?_ fun _ => False.elim
    exact fun errors within => ⟨within.nonempty, within.suffix, fun error mem what named =>
      absurd (within.names error mem what named) List.not_mem_nil⟩
  | group => exact hgroup text
  | seq first second ihf ihs =>
    have both := List.append_subset.mp known
    exact (ihf both.1 text).andThen fun {_ _ between} stops => (ihs both.2 between).trans stops
  | choice first second ihf ihs =>
    have both := List.append_subset.mp known
    refine (ihf both.1 text).orElse ((ihs both.2 text).alt ?_)
    exact fun errors within => within.append (List.suffix_refl text) (by simp [ErrorKind.context?])
  | optional part ih => exact (ih known text).orElse (List.suffix_refl text)
  | many part ih =>
    apply readMany_obeys text fun text => (ih known text).mono id (fun _ _ => trivial) fun _ => id
    case none => exact List.suffix_refl
    case stuck => exact fun text => .single (List.suffix_refl text) rfl
    case join => exact fun stops others => Reply.StopsIn.trans others stops
  | butNot barred part ihb ihp =>
    have both := List.append_subset.mp known
    exact (ihb both.1 text).bar (.single (List.suffix_refl text) rfl) (ihp both.2 text)
  | cut part ih => exact (ih known text).cut fun errors within => ⟨errors, rfl, within⟩
  | context what part ih =>
    obtain ⟨fresh, known⟩ := List.cons_subset.mp known
    have name : ∀ same ∈ (ErrorKind.context what).context?, same ∈ names := by simpa [ErrorKind.context?] using fresh
    refine (ih known text).context (fun errors within => within.append (List.suffix_refl text) name) ?_
    rintro _ ⟨errors, rfl, within⟩
    exact ⟨_, rfl, within.append (List.suffix_refl text) name⟩
  | leaf kind part ih => exact (ih known text).gather id
  | trimmedLeaf kind part ih => exact (ih known text).gather id
  | branch kind name body ihn ihb =>
    have both := List.append_subset.mp known
    exact (ihn both.1 text).branch fun {_ _ between} stops => (ihb both.2 between).trans stops

private theorem readGroupWithin_stops (depth : Nat) (text : List Char) :
    (readGroupWithin depth text).StopsIn text names := by
  induction depth generalizing text with
  | zero => exact .single (List.suffix_refl text) rfl
  | succ depth ih => exact readWith_stops ih (show groupBody.names ⊆ names from List.nil_subset names) text

/-- Reading ends in the text, and tells only names of the grammar. -/
theorem read_stops {grammar : Grammar} (known : grammar.names ⊆ names) (text : List Char) :
    (grammar.read text).StopsIn text names :=
  readWith_stops (fun text => readGroupWithin_stops _ text) known text

theorem Reads.suffix {grammar : Grammar} {text rest : List Char} {nodes : List Node}
    (h : grammar.Reads text nodes rest) : rest <:+ text := by
  obtain ⟨taken, rfl⟩ := h.splits
  exact List.suffix_append taken rest

theorem readWith_calm (hgroup : ∀ text failure, readGroup text ≠ .fail failure) {grammar : Grammar}
    (h : grammar.calm) (text : List Char) :
    (grammar.readWith readGroup text).Obeys (fun _ _ _ => True) (fun _ => True) fun _ => False := by
  induction grammar generalizing text with
  | lexeme piece => exact (piece.read_halts text).mono (fun _ => trivial) (fun _ _ => trivial) fun _ => id
  | group =>
    cases found : readGroup text with
    | fail failure => exact absurd found (hgroup text failure)
    | _ => simp [readWith, found, Reply.Obeys]
  | seq first second ihf ihs =>
    have both := Bool.and_eq_true_iff.mp h
    exact (ihf both.1 text).andThen fun _ => ihs both.2 _
  | choice first second ihf ihs =>
    have both := Bool.and_eq_true_iff.mp h
    exact (ihf both.1 text).orElse ((ihs both.2 text).alt fun _ _ => trivial)
  | optional part ih => exact (ih h text).orElse trivial
  | many part ih =>
    apply readMany_obeys text (ih h)
    case none | stuck => exact fun _ => trivial
    case join => exact fun _ others => others
  | butNot barred part ihb ihp =>
    have both := Bool.and_eq_true_iff.mp h
    exact (ihb both.1 text).bar trivial (ihp both.2 text)
  | cut => contradiction
  | context what part ih => exact (ih h text).context (fun _ _ => trivial) fun _ => id
  | leaf kind part ih => exact (ih h text).gather id
  | trimmedLeaf kind part ih => exact (ih h text).gather id
  | branch kind name body ihn ihb =>
    have both := Bool.and_eq_true_iff.mp h
    exact (ihn both.1 text).branch fun _ => ihb both.2 _

private theorem readGroupWithin_ne_fail (depth : Nat) (text : List Char) (failure : Failure) :
    readGroupWithin depth text ≠ .fail failure := by
  induction depth generalizing text failure with
  | zero => nofun
  | succ depth ih =>
    intro failed
    have calm := readWith_calm ih (by decide : groupBody.calm) text
    rwa [show groupBody.readWith (readGroupWithin depth) text = _ from failed] at calm

theorem readGroup_ne_fail (text : List Char) (failure : Failure) : Sql.readGroup text ≠ .fail failure :=
  readGroupWithin_ne_fail _ text failure

theorem read_ne_fail {grammar : Grammar} (h : grammar.calm) (text : List Char) (failure : Failure) :
    grammar.read text ≠ .fail failure := by
  intro failed
  have calm := readWith_calm readGroup_ne_fail h text
  rwa [show grammar.readWith Sql.readGroup text = _ from failed] at calm

theorem reads_or_misses {grammar : Grammar} (calm : grammar.calm) (silent : grammar.silent) (text : List Char) :
    (∃ rest, grammar.Reads text [] rest) ∨ grammar.Misses text := by
  cases found : grammar.read text with
  | ok nodes taken rest =>
    obtain rfl := Reads.nodes_eq_nil ⟨taken, found⟩ silent
    exact .inl ⟨rest, taken, found⟩
  | miss errors => exact .inr ⟨errors, found⟩
  | fail failure => exact absurd found (read_ne_fail calm text failure)

end Grammar

/-- A fault is found in the text, and tells only these names. -/
def Fault.Within (fault : Fault) (text : List Char) (names : List String) : Prop :=
  match fault with
  | failed failure => failure.Within text names
  | unterminatedLiteral rest => rest <:+ text

theorem Fault.Within.cases {fault : Fault} {text : List Char} {names : List String} (h : fault.Within text names) :
    (∃ place kind outer, fault = .failed (.errors ((place, kind) :: outer)) ∧ place <:+ text) ∨
      ∃ rest, fault = .unterminatedLiteral rest ∧ rest <:+ text := by
  cases fault with
  | failed failure =>
    obtain ⟨errors, rfl, within⟩ := h
    obtain ⟨⟨place, kind⟩, outer, rfl⟩ := List.exists_cons_of_ne_nil within.nonempty
    exact .inl ⟨place, kind, outer, rfl, within.suffix _ List.mem_cons_self⟩
  | unterminatedLiteral rest => exact .inr ⟨rest, rfl, h⟩

theorem Fault.Within.trans {fault : Fault} {text other : List Char} {names : List String}
    (h : fault.Within other names) (suffix : other <:+ text) : fault.Within text names := by
  cases fault with
  | failed failure => exact Failure.Within.trans h suffix
  | unterminatedLiteral rest => exact List.IsSuffix.trans h suffix

namespace Script

open Grammar

theorem reads_of_sure {grammar : Grammar} (sure : grammar.sure) (calm : grammar.calm) (text : List Char) :
    ∃ nodes taken rest, grammar.read text = .ok nodes taken rest := by
  cases found : grammar.read text with
  | ok nodes taken rest => exact ⟨nodes, taken, rest, rfl⟩
  | miss errors => exact absurd ⟨errors, found⟩ (sure_not_misses sure)
  | fail failure => exact absurd found (read_ne_fail calm text failure)

theorem tableStatement_misses_iff {text : List Char} : tableStatement.Misses text ↔ tableHead.Misses text := by
  refine ⟨fun missed => ?_, fun missed => missed.seq_first.seq_first⟩
  rcases missed.of_seq with missed | ⟨_, between, -, missed⟩
  · rcases missed.of_seq with missed | ⟨_, between, -, missed⟩
    · exact missed
    · exact absurd missed (sure_not_misses (by decide))
  · exact absurd missed (sure_not_misses (by decide))

/-- Reads a statement or a separator, after blanks, by the whole of the statement that creates a table. -/
def step (text : List Char) : Next :=
  match skipBlanks text with
  | [] => .ended
  | ';' :: rest => .separator rest
  | start =>
    match tableStatement.read start with
    | .ok nodes _ rest => .statement (.ofTable nodes start) rest
    | .fail failure => .halted (.failed failure)
    | .miss _ =>
      match statementTail.read start with
      | .ok _ (c :: taken) rest => .statement (.skipped (c :: taken)) rest
      | _ => .halted (.unterminatedLiteral start)

theorem next_eq_step (text : List Char) : next text = step text := by
  rw [next, step]
  generalize skipBlanks text = start
  split
  case h_1 => rfl
  case h_2 => rfl
  case h_3 _ _ _ =>
    cases head : tableHead.read start with
    | ok nodes taken rest =>
      simp only [nextTable]
      cases table : tableStatement.read start with
      | ok | fail => rfl
      | miss errors =>
        obtain ⟨other, missed⟩ := tableStatement_misses_iff.mp ⟨errors, table⟩
        rw [head] at missed
        contradiction
    | miss errors =>
      obtain ⟨others, table⟩ := tableStatement_misses_iff.mpr ⟨errors, head⟩
      obtain ⟨nodes, taken, rest, tail⟩ := reads_of_sure (by decide : statementTail.sure) (by decide) start
      simp only [nextOther, table, tail]
      cases taken <;> rfl
    | fail failure => exact absurd head (read_ne_fail (by decide) start failure)

theorem next_ended {text : List Char} (skips : skipBlanks text = []) : next text = .ended := by
  simp only [next_eq_step, step, skips]

theorem next_separator {text rest : List Char} (skips : skipBlanks text = ';' :: rest) :
    next text = .separator rest := by
  simp only [next_eq_step, step, skips]

theorem reads_of_next_table {text rest : List Char} {node : Node} (h : next text = .statement (.table node) rest) :
    ∃ nodes, tableStatement.Reads (skipBlanks text) nodes rest ∧
      .ofTable nodes (skipBlanks text) = Statement.table node := by
  rw [next_eq_step] at h
  revert h
  fun_cases step text with
  | case3 nodes taken left _ _ found =>
    intro h
    obtain ⟨table, rfl⟩ := Next.statement.inj h
    exact ⟨nodes, ⟨taken, found⟩, table⟩
  | _ => simp

end Script

end DdlModels.Sql
