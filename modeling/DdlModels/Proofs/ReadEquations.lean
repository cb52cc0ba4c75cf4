import DdlModels.Sql.Script

/-!
# Equations of reading

A group is read by the grammar of its inside, with groups read the same way again: no depth has to be
named (`readGroup_eq`). Every combinator of a grammar then has one equation.
-/

namespace DdlModels.Sql

def Errors.move (place : List Char → List Char) (errors : Errors) : Errors := errors.map (Prod.map place id)

def Failure.move (place : List Char → List Char) : Failure → Failure
  | incomplete => incomplete
  | errors known => errors (known.move place)

theorem Errors.move_nil (place : List Char → List Char) : Errors.move place [] = [] := rfl

theorem Errors.move_append (place : List Char → List Char) (errors more : Errors) :
    (errors ++ more).move place = errors.move place ++ more.move place :=
  List.map_append

theorem Failure.move_within (place : List Char → List Char) (failure : Failure) (text : List Char) (kind : ErrorKind) :
    (failure.within text kind).move place = (failure.move place).within (place text) kind := by
  cases failure with
  | incomplete => rfl
  | errors errors => exact congrArg Failure.errors (errors.move_append place [(text, kind)])

def Fault.move (place : List Char → List Char) : Fault → Fault
  | failed failure => failed (failure.move place)
  | unterminatedLiteral text => unterminatedLiteral (place text)

theorem Errors.expected?_move (place : List Char → List Char) (errors : Errors) :
    Errors.expected? (errors.move place) = errors.expected? := by
  simp only [expected?, move, List.findSome?_map]
  rfl

theorem Reply.after_andThen (reply : Reply) (nodes : List Node) (taken : List Char) (next : List Char → Reply) :
    (reply.after nodes taken).andThen next = (reply.andThen next).after nodes taken := by
  cases reply with
  | ok more moreTaken rest =>
    simp only [after, andThen]
    cases next rest with
    | ok last lastTaken left => simp only [List.append_assoc]
    | miss | fail => rfl
  | miss | fail => rfl

theorem Reply.length_lt {reply : Reply} {nodes : List Node} {text taken rest : List Char}
    (found : reply = .ok nodes taken rest) (splits : reply.Splits text) (advances : reply.Advances) :
    rest.length < text.length := by
  subst found
  rw [show text = taken ++ rest from splits, List.length_append]
  exact Nat.lt_add_of_pos_left (List.length_pos_iff.mpr advances)

theorem readMany_congr {f g : List Char → Reply} {n : Nat}
    (h : ∀ text, text.length ≤ n → f text = g text)
    (text : List Char) (hn : text.length ≤ n) : readMany f text = readMany g text := by
  fun_induction readMany f text with
  | case1 text nodes taken rest found shorter ih =>
    rw [readMany.eq_def g, ← h text hn, found]
    simp only [shorter, if_true]
    rw [ih (by omega)]
  | case2 text nodes taken rest found shorter =>
    rw [readMany.eq_def g, ← h text hn, found]
    simp only [shorter, if_false]
  | case3 text errors found => rw [readMany.eq_def g, ← h text hn, found]
  | case4 text failure found => rw [readMany.eq_def g, ← h text hn, found]

namespace Grammar

theorem readWith_congr {f g : List Char → Reply} {n : Nat}
    (hf : ∀ text, (f text).Splits text) (h : ∀ text, text.length ≤ n → f text = g text)
    (grammar : Grammar) (text : List Char) (hn : text.length ≤ n) :
    grammar.readWith f text = grammar.readWith g text := by
  have within (part : Grammar) {text taken rest : List Char} {nodes : List Node}
      (hn : text.length ≤ n) (found : part.readWith f text = .ok nodes taken rest) :
      rest.length ≤ n := by
    have split := part.readWith_splits hf text
    rw [found] at split
    rw [show text = taken ++ rest from split, List.length_append] at hn
    omega
  induction grammar generalizing text with
  | lexeme piece => rfl
  | group => exact h text hn
  | seq first second ihf ihs =>
    rw [readWith, readWith, ← ihf text hn]
    cases found : first.readWith f text with
    | ok nodes taken rest =>
      simp only [Reply.andThen]
      rw [ihs rest (within first hn found)]
    | miss | fail => rfl
  | choice first second ihf ihs => rw [readWith, readWith, ihf text hn, ihs text hn]
  | optional part ih => rw [readWith, readWith, ih text hn]
  | many part ih =>
    exact readMany_congr ih text hn
  | butNot barred part ihb ihp => rw [readWith, readWith, ihb text hn, ihp text hn]
  | cut part ih => rw [readWith, readWith, ih text hn]
  | context what part ih => rw [readWith, readWith, ih text hn]
  | leaf kind part ih => rw [readWith, readWith, ih text hn]
  | trimmedLeaf kind part ih => rw [readWith, readWith, ih text hn]
  | branch kind name body ihn ihb =>
    rw [readWith, readWith, ← ihn text hn]
    cases found : name.readWith f text with
    | ok nodes taken rest =>
      simp only [Reply.branch]
      rw [ihb rest (within name hn found)]
    | miss | fail => rfl

end Grammar

private theorem groupBody_readWith_congr {f g : List Char → Reply} {c : Char} {text : List Char}
    (hf : ∀ text, (f text).Splits text) (h : ∀ inner, inner.length ≤ text.length → f inner = g inner) :
    Grammar.groupBody.readWith f (c :: text) = Grammar.groupBody.readWith g (c :: text) := by
  let inside : Grammar := .many (.group <|> Grammar.stringLiteral <|> Grammar.backquoted <|>
    Grammar.run ['(', ')', '\x27', '\x22', '\x60'])
  change ((readSymbol '(' (c :: text)).andThen (inside.readWith f)).andThen
      (readSymbol ')') =
    ((readSymbol '(' (c :: text)).andThen (inside.readWith g)).andThen (readSymbol ')')
  by_cases hc : c = '('
  · subst hc
    have inner := inside.readWith_congr hf h text (Nat.le_refl _)
    simp only [readSymbol, beq_self_eq_true, if_true, Reply.andThen]
    rw [inner]
  · simp [readSymbol, hc, Reply.andThen]

theorem readGroupWithin_eq_readGroup {depth : Nat} {text : List Char} (h : text.length ≤ depth) :
    readGroupWithin depth text = readGroup text := by
  -- on the length of the text: what is read inside a group is shorter than the group
  induction hn : text.length using Nat.strongRecOn generalizing depth text with
  | ind n ih =>
    cases text with
    | nil => cases depth <;> rfl
    | cons c rest =>
      obtain ⟨deeper, rfl⟩ : ∃ deeper, depth = deeper + 1 :=
        ⟨depth - 1, by simp only [List.length_cons] at h; omega⟩
      simp only [List.length_cons] at h hn
      have agree (inner : List Char) (hinner : inner.length ≤ rest.length) :
          readGroupWithin deeper inner = readGroupWithin rest.length inner := by
        rw [ih inner.length (by omega) (by omega) rfl, ih inner.length (by omega) hinner rfl]
      exact groupBody_readWith_congr (readGroupWithin_splits deeper) agree

theorem readGroup_eq (text : List Char) : readGroup text = Grammar.groupBody.read text := by
  cases text with
  | nil => rfl
  | cons c rest =>
    refine groupBody_readWith_congr (readGroupWithin_splits rest.length) ?_
    intro inner hinner
    exact readGroupWithin_eq_readGroup hinner

namespace Grammar

theorem read_lexeme (piece : Lexeme) (text : List Char) :
    (lexeme piece).read text = piece.read text := rfl

theorem read_group (text : List Char) : group.read text = groupBody.read text := readGroup_eq text

theorem read_seq (first second : Grammar) (text : List Char) :
    (first ++ second).read text = (first.read text).andThen second.read := rfl

theorem read_choice (first second : Grammar) (text : List Char) :
    (first <|> second).read text =
      (first.read text).orElse fun _ => (second.read text).alt (!second.isChoice) text := rfl

theorem read_optional (part : Grammar) (text : List Char) :
    (optional part).read text = (part.read text).orElse fun _ => .ok [] [] text := rfl

theorem read_many (part : Grammar) (text : List Char) :
    (many part).read text = readMany part.read text := rfl

theorem read_butNot (barred part : Grammar) (text : List Char) :
    (butNot barred part).read text = (barred.read text).bar text fun _ => part.read text := rfl

theorem read_cut (part : Grammar) (text : List Char) : (cut part).read text = (part.read text).cut := rfl

theorem read_context (what : String) (part : Grammar) (text : List Char) :
    (context what part).read text = (part.read text).context what text := rfl

theorem read_leaf (kind : NodeKind) (part : Grammar) (text : List Char) :
    (leaf kind part).read text = (part.read text).gather (leafOf kind) := rfl

theorem read_trimmedLeaf (kind : NodeKind) (part : Grammar) (text : List Char) :
    (trimmedLeaf kind part).read text = (part.read text).gather (trimmedLeafOf kind) := rfl

theorem read_branch (kind : NodeKind) (name body : Grammar) (text : List Char) :
    (branch kind name body).read text = (name.read text).branch kind body.read := rfl

end Grammar

namespace Script

theorem readFrom_eq (text : List Char) : readFrom text =
    match next text with
    | .ended => {}
    | .separator rest => readFrom rest
    | .statement statement rest => (readFrom rest).cons statement
    | .halted fault => halted fault := by
  rw [readFrom]
  cases next text <;> rfl

theorem tables_cons (statement : Statement) (script : Script) :
    (script.cons statement).tables = statement.node?.toList ++ script.tables := by
  simp only [tables, cons, List.filterMap_cons]
  cases statement.node? <;> rfl

end Script

end DdlModels.Sql
