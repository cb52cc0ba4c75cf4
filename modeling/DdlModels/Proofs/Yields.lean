import DdlModels.Proofs.Characters
import DdlModels.Proofs.ReadEquations

/-!
# What a grammar yields

The lists of nodes that a grammar may yield are described by recursion on the grammar, without a text.
Whatever is read lies in this description (`Grammar.read_yields`).
-/

namespace DdlModels.Sql

namespace Grammar

/-- Whether what is taken is sure to begin with a letter, the first one of a keyword. -/
def bold : Grammar → Bool
  | .lexeme (.keyword name) => (name.toList.head?.map Char.isAlpha).getD false
  | .seq first _ => first.bold
  | .choice first second => first.bold && second.bold
  | _ => false

/-- The nodes that a grammar may yield. -/
def Yields : Grammar → List Node → Prop
  | .lexeme _, nodes | .group, nodes => nodes = []
  | .seq first second, nodes =>
    ∃ before after, first.Yields before ∧ second.Yields after ∧ nodes = before ++ after
  | .choice first second, nodes => first.Yields nodes ∨ second.Yields nodes
  | .optional part, nodes => nodes = [] ∨ part.Yields nodes
  | .many part, nodes =>
    ∃ turns : List (List Node), (∀ turn ∈ turns, part.Yields turn) ∧ nodes = turns.flatten
  | .butNot _ part, nodes | .cut part, nodes | .context _ part, nodes => part.Yields nodes
  | .leaf kind part, nodes => ∃ text, (part.advances → text ≠ "") ∧ nodes = [.leaf kind text]
  | .trimmedLeaf kind part, nodes =>
    (part.bold = false ∧ nodes = []) ∨ ∃ text, text ≠ "" ∧ nodes = [.leaf kind text]
  | .branch kind name body, nodes =>
    ∃ text children, (name.advances → text ≠ "") ∧ body.Yields children ∧
      nodes = [⟨kind, text, children⟩]

end Grammar

theorem readMany_holds {P Q : List Node → List Char → Prop} {read : List Char → Reply}
    (h : ∀ text, (read text).Holds fun nodes taken _ => P nodes taken) (none : Q [] [])
    (join : ∀ {before after taken more}, P before taken → Q after more → Q (before ++ after) (taken ++ more))
    (text : List Char) : (readMany read text).Holds fun nodes taken _ => Q nodes taken := by
  apply readMany_obeys text h
  case none => exact fun _ => none
  case stuck => exact fun _ => trivial
  case join => exact fun first others => Reply.Holds.mono others (join first)

/-- No node is made of what is read. -/
def Reply.Leafless : Reply → Prop := Reply.Holds fun nodes _ _ => nodes = []

theorem Reply.Leafless.after {reply : Reply} (h : reply.Leafless) (taken : List Char) :
    (reply.after [] taken).Leafless :=
  Holds.after h id

theorem readToClose_nodes (quote : Char) (text : List Char) :
    (readToClose quote text).Leafless := by
  fun_induction readToClose quote text with
  | case2 | case6 => rfl
  | case5 c d rest _ ih => exact ih.after _
  | case7 c d rest _ _ ih => exact ih.after _
  | _ => trivial

theorem readToCommentClose_nodes (start text : List Char) :
    (readToCommentClose start text).Leafless := by
  fun_induction readToCommentClose start text with
  | case1 => trivial
  | case2 => rfl
  | case3 c rest _ ih => exact ih.after _

theorem Lexeme.read_nodes (lexeme : Lexeme) (text : List Char) :
    (lexeme.read text).Leafless := by
  have run (kind : ErrorKind) (member : Char → Bool) : (readRun kind member text).Leafless := by
    fun_cases readRun kind member text with
    | case1 => trivial
    | case2 => rfl
  have line (text : List Char) : (readToLineEnd text).Leafless := by
    fun_cases readToLineEnd text with
    | case1 => rfl
    | case2 => trivial
  cases lexeme with
  | symbol c =>
    change (readSymbol c text).Holds _
    fun_cases readSymbol c text with
    | case2 => rfl
    | _ => trivial
  | keyword name =>
    change (readKeyword name.toList text).Holds _
    fun_cases readKeyword name.toList text with
    | case2 => rfl
    | _ => trivial
  | wordAmong words =>
    have whole := run .takeWhile1 Text.isWordChar
    change (readWordAmong words text).Holds _
    fun_cases readWordAmong words text with
    | case1 nodes word rest read => rwa [read] at whole
    | case2 => trivial
    | case3 => exact whole
  | word | digits | spaces | run => exact run _ _
  | lineComment =>
    change (readLineComment text).Holds _
    fun_cases readLineComment text with
    | case1 rest => exact (line rest).after _
    | case2 rest => exact (line rest).after _
    | case3 => trivial
  | blockComment =>
    change (readBlockComment text).Holds _
    fun_cases readBlockComment text with
    | case1 rest => exact (readToCommentClose_nodes rest rest).after _
    | case2 => trivial
  | quoted quote =>
    change (readQuoted quote text).Holds _
    fun_cases readQuoted quote text with
    | case2 c rest => exact (readToClose_nodes quote rest).after _
    | _ => trivial

private theorem head_of_agree {c k : Char} {text keyword : List Char}
    (h : agree (c :: text) (k :: keyword)) (letter : k.isAlpha) : Text.isBlank c = false := by
  by_contra blank
  have blank : Text.isBlank c := by simpa using blank
  have same : Text.lowerChar c = Text.lowerChar k := by
    simp only [agree, Bool.and_eq_true, beq_iff_eq] at h
    exact h.1
  have alpha := Text.isAlpha_lowerChar letter
  rw [← same, Text.lowerChar_of_isBlank blank, Text.isAlpha_of_isBlank blank] at alpha
  contradiction

private theorem readKeyword_visible {keyword : List Char}
    (h : (keyword.head?.map Char.isAlpha).getD false) (text : List Char) :
    (readKeyword keyword text).Holds fun _ taken _ => ∃ c ∈ taken, Text.isBlank c = false := by
  have nonempty : keyword ≠ [] := by
    intro empty
    simp [empty] at h
  have advances := readKeyword_advances nonempty text
  fun_cases readKeyword keyword text with
  | case2 agrees taken rest found =>
    obtain ⟨k, keyword, rfl⟩ : ∃ k more, keyword = k :: more := by
      cases keyword with
      | nil => simp at h
      | cons k more => exact ⟨k, more, rfl⟩
    obtain ⟨c, taken, rfl⟩ : ∃ c more, taken = c :: more := by
      cases taken with
      | nil => simp_all [readKeyword, Reply.Advances, Reply.Holds, Reply.Obeys]
      | cons c more => exact ⟨c, more, rfl⟩
    have split := Text.splitBytes?_append found
    subst split
    exact ⟨c, List.mem_cons_self, head_of_agree agrees (by simpa using h)⟩
  | _ => trivial

namespace Grammar

variable {readGroup : List Char → Reply}

private theorem readWith_visible {grammar : Grammar} (h : grammar.bold) (text : List Char) :
    (grammar.readWith readGroup text).Holds fun _ taken _ => ∃ c ∈ taken, Text.isBlank c = false := by
  induction grammar generalizing text with
  | lexeme piece =>
    cases piece with
    | keyword name => exact readKeyword_visible h text
    | _ => contradiction
  | seq first second ihf _ =>
    refine (ihf h text).andThen (Q := fun _ _ _ _ => True) ?_ ?_
    · intro rest
      cases second.readWith readGroup rest <;> trivial
    · rintro _ taken _ _ more _ ⟨c, hc, visible⟩ _
      exact ⟨c, List.mem_append_left more hc, visible⟩
  | choice first second ihf ihs =>
    have both := Bool.and_eq_true_iff.mp h
    exact (ihf both.1 text).orElse ((ihs both.2 text).alt _ text)
  | _ => contradiction

private theorem trimmedLeafOf_yields (kind : NodeKind) {part : Grammar} {taken : List Char}
    (visible : part.bold → ∃ c ∈ taken, Text.isBlank c = false) :
    (trimmedLeaf kind part).Yields (trimmedLeafOf kind taken) := by
  rw [trimmedLeafOf]
  split
  case h_1 blank =>
    refine .inl ⟨?_, rfl⟩
    by_contra bold
    obtain ⟨c, hc, hvisible⟩ := visible (by simpa using bold)
    exact Text.trim_ne_nil hc hvisible blank
  case h_2 nonblank =>
    refine .inr ⟨String.ofList (Text.trim taken), ?_, rfl⟩
    intro empty
    exact nonblank (String.ofList_eq_empty_iff.mp empty)

private theorem readWith_yields (hgroup : ∀ text, (readGroup text).Leafless)
    (hadvances : ∀ text, (readGroup text).Advances) (grammar : Grammar) (text : List Char) :
    (grammar.readWith readGroup text).Holds fun nodes _ _ => grammar.Yields nodes := by
  have nonempty (part : Grammar) (text : List Char) :
      (part.readWith readGroup text).Holds fun _ taken _ => part.advances → String.ofList taken ≠ "" := by
    refine .of_imp fun h => (readWith_advances hadvances h text).mono ?_
    intro _ taken _ advances empty
    exact advances (String.ofList_eq_empty_iff.mp empty)
  induction grammar generalizing text with
  | lexeme piece => exact piece.read_nodes text
  | group => exact hgroup text
  | seq first second ihf ihs =>
    exact (ihf text).andThen ihs fun hf hs => ⟨_, _, hf, hs, rfl⟩
  | choice first second ihf ihs =>
    exact ((ihf text).mono .inl).orElse (((ihs text).mono .inr).alt _ text)
  | optional part ih => exact ((ih text).mono .inr).orElse (.inl rfl)
  | many part ih =>
    refine readMany_holds ih ⟨[], by simp, rfl⟩ ?_ text
    rintro turn _ _ _ first ⟨turns, hturns, rfl⟩
    exact ⟨turn :: turns, List.forall_mem_cons.mpr ⟨first, hturns⟩, rfl⟩
  | butNot barred part _ ih => exact .bar fun _ => ih text
  | cut part ih => exact (ih text).cut
  | context what part ih => exact (ih text).context what text
  | leaf kind part => exact (nonempty part text).gather fun h => ⟨_, h, rfl⟩
  | trimmedLeaf kind part =>
    have visible : (part.readWith readGroup text).Holds fun _ taken _ =>
        part.bold → ∃ c ∈ taken, Text.isBlank c = false := .of_imp fun bold => readWith_visible bold text
    exact visible.gather (trimmedLeafOf_yields kind)
  | branch kind name body _ ihb =>
    exact (nonempty name text).branch ihb fun h below => ⟨_, _, h, below, rfl⟩

def silent : Grammar → Bool
  | .lexeme _ | .group => true
  | .seq first second | .choice first second => first.silent && second.silent
  | .optional part | .many part | .butNot _ part | .cut part | .context _ part => part.silent
  | .leaf .. | .trimmedLeaf .. | .branch .. => false

theorem eq_nil_of_silent {grammar : Grammar} (h : grammar.silent) {nodes : List Node}
    (yields : grammar.Yields nodes) : nodes = [] := by
  induction grammar generalizing nodes with
  | lexeme | group => exact yields
  | seq first second ihf ihs =>
    have both := Bool.and_eq_true_iff.mp h
    obtain ⟨before, after, hbefore, hafter, rfl⟩ := yields
    rw [ihf both.1 hbefore, ihs both.2 hafter, List.append_nil]
  | choice first second ihf ihs =>
    have both := Bool.and_eq_true_iff.mp h
    rcases yields with yields | yields
    · exact ihf both.1 yields
    · exact ihs both.2 yields
  | optional part ih =>
    rcases yields with yields | yields
    · exact yields
    · exact ih h yields
  | many part ih =>
    obtain ⟨turns, hturns, rfl⟩ := yields
    refine List.flatten_eq_nil_iff.mpr ?_
    intro turn hturn
    exact ih h (hturns turn hturn)
  | butNot barred part _ ih => exact ih h yields
  | cut part ih => exact ih h yields
  | context what part ih => exact ih h yields
  | leaf | trimmedLeaf | branch => contradiction

private theorem readGroupWithin_nodes (depth : Nat) (text : List Char) :
    (readGroupWithin depth text).Leafless := by
  induction depth generalizing text with
  | zero => trivial
  | succ depth ih =>
    exact (readWith_yields ih (readGroupWithin_advances depth) groupBody text).mono
      (eq_nil_of_silent (by decide))

theorem read_yields {grammar : Grammar} {text taken rest : List Char} {nodes : List Node}
    (h : grammar.read text = .ok nodes taken rest) : grammar.Yields nodes := by
  have groups (text : List Char) : (readGroup text).Leafless :=
    readGroupWithin_nodes _ text
  have holds := readWith_yields groups (fun text => readGroupWithin_advances _ text) grammar text
  rwa [show grammar.readWith readGroup text = _ from h] at holds

end Grammar

end DdlModels.Sql
