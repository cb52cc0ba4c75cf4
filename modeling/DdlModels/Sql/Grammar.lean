import DdlModels.Sql.Lexeme

/-!
# Grammars

A grammar is made of lexemes by sequence, ordered choice and repetition, and says which pieces of the
text become nodes. Of two alternatives the first that fits is taken, and nothing is tried again later.
Main statements: what a grammar takes and what it leaves make up the text (`Grammar.read_splits`), and a
grammar with a lexeme that cannot be left out takes something (`Grammar.read_advances`).
-/

namespace DdlModels.Sql

/-- A description of texts and of the nodes that they are read into. -/
inductive Grammar where
  | lexeme (piece : Lexeme)
  /-- A group in parentheses, with groups and quoted texts inside it. -/
  | group
  | seq (first second : Grammar)
  | choice (first second : Grammar)
  | optional (part : Grammar)
  | many (part : Grammar)
  /-- `part`, where `barred` cannot be read. -/
  | butNot (barred part : Grammar)
  /-- `part`, a miss of which is a failure. -/
  | cut (part : Grammar)
  /-- `part`, with a name for errors. -/
  | context (what : String) (part : Grammar)
  /-- A node without children, with the text of `part`. -/
  | leaf (kind : NodeKind) (part : Grammar)
  /-- The same without the white space around the text, and no node if nothing else is there. -/
  | trimmedLeaf (kind : NodeKind) (part : Grammar)
  /-- A node with the text of `name` and with the nodes of `body`. -/
  | branch (kind : NodeKind) (name body : Grammar)

instance : Append Grammar := ⟨.seq⟩

instance : OrElse Grammar := ⟨fun first second => .choice first (second ())⟩

/-- Reads again and again until a miss. A turn that takes nothing is a miss of the whole. -/
def readMany (read : List Char → Reply) (text : List Char) : Reply :=
  match read text with
  | .ok nodes taken rest =>
    if rest.length < text.length then (readMany read rest).after nodes taken
    else .miss [(text, .many0)]
  | .miss _ => .ok [] [] text
  | .fail failure => .fail failure
termination_by text.length

namespace Grammar

def leafOf (kind : NodeKind) (text : List Char) : List Node := [.leaf kind (String.ofList text)]

/-- A leaf with what is left of a text when it is trimmed, if anything is. -/
def trimmedLeafOf (kind : NodeKind) (text : List Char) : List Node :=
  match Text.trim text with
  | [] => []
  | text => leafOf kind text

def isChoice : Grammar → Bool
  | .choice .. => true
  | _ => false

/-- Reads a text by a grammar, given how groups are read. -/
def readWith (readGroup : List Char → Reply) : Grammar → List Char → Reply
  | .lexeme piece, text => piece.read text
  | .group, text => readGroup text
  | .seq first second, text => (first.readWith readGroup text).andThen (second.readWith readGroup)
  | .choice first second, text =>
    (first.readWith readGroup text).orElse fun _ =>
      (second.readWith readGroup text).alt (!second.isChoice) text
  | .optional part, text => (part.readWith readGroup text).orElse fun _ => .ok [] [] text
  | .many part, text => readMany (part.readWith readGroup) text
  | .butNot barred part, text =>
    (barred.readWith readGroup text).bar text fun _ => part.readWith readGroup text
  | .cut part, text => (part.readWith readGroup text).cut
  | .context what part, text => (part.readWith readGroup text).context what text
  | .leaf kind part, text => (part.readWith readGroup text).gather (leafOf kind)
  | .trimmedLeaf kind part, text => (part.readWith readGroup text).gather (trimmedLeafOf kind)
  | .branch kind name body, text =>
    (name.readWith readGroup text).branch kind (body.readWith readGroup)

/-- Whether a grammar is sure to take something: it has a lexeme that cannot be left out. -/
def advances : Grammar → Bool
  | .lexeme piece => piece.advances
  | .group => true
  | .seq first second => first.advances || second.advances
  | .choice first second => first.advances && second.advances
  | .optional _ | .many _ => false
  | .butNot _ part | .cut part | .context _ part | .leaf _ part | .trimmedLeaf _ part => part.advances
  | .branch _ name body => name.advances || body.advances

end Grammar

theorem readMany_obeys {read : List Char → Reply} {P Q : List Char → List Node → List Char → List Char → Prop}
    {Missed : List Char → Errors → Prop} {Failed : List Char → Failure → Prop} (text : List Char)
    (h : ∀ text, (read text).Obeys (P text) (fun _ => True) (Failed text)) (none : ∀ text, Q text [] [] text)
    (stuck : ∀ text, Missed text [(text, .many0)])
    (join : ∀ {text nodes taken rest} {reply : Reply}, P text nodes taken rest →
      reply.Obeys (Q rest) (Missed rest) (Failed rest) →
      reply.Obeys (fun more read left => Q text (nodes ++ more) (taken ++ read) left) (Missed text) (Failed text)) :
    (readMany read text).Obeys (Q text) (Missed text) (Failed text) := by
  fun_induction readMany read text with
  | case1 text nodes taken rest found _ ih =>
    have turn := h text
    rw [found] at turn
    exact .after (join turn ih)
  | case2 text => exact stuck text
  | case3 text => exact none text
  | case4 text failure found =>
    have turn := h text
    rwa [found] at turn

theorem readMany_splits {read : List Char → Reply} (h : ∀ text, (read text).Splits text)
    (text : List Char) : (readMany read text).Splits text := by
  apply readMany_obeys text h
  case none => exact fun _ => rfl
  case stuck => exact fun _ => trivial
  case join =>
    intro _ _ _ _ _ first others
    exact Reply.Holds.mono others fun second => by rw [first, second, List.append_assoc]

namespace Grammar

variable {readGroup : List Char → Reply}

theorem readWith_splits (hgroup : ∀ text, (readGroup text).Splits text) (grammar : Grammar)
    (text : List Char) : (grammar.readWith readGroup text).Splits text := by
  induction grammar generalizing text with
  | lexeme piece => exact piece.read_splits text
  | group => exact hgroup text
  | seq first second ihf ihs => exact (ihf text).andThen ihs
  | choice first second ihf ihs => exact Reply.Holds.orElse (ihf text) ((ihs text).alt _ text)
  | optional part ih => exact Reply.Holds.orElse (ih text) rfl
  | many part ih => exact readMany_splits ih text
  | butNot barred part _ ih => exact Reply.Holds.bar fun _ => ih text
  | cut part ih => exact Reply.Holds.cut (ih text)
  | context what part ih => exact Reply.Holds.context (ih text) what text
  | leaf kind part ih => exact Reply.Holds.gather (ih text) id
  | trimmedLeaf kind part ih => exact Reply.Holds.gather (ih text) id
  | branch kind name body ihn ihb => exact (ihn text).branch ihb kind

theorem readWith_advances (hgroup : ∀ text, (readGroup text).Advances) {grammar : Grammar}
    (h : grammar.advances) (text : List Char) : (grammar.readWith readGroup text).Advances := by
  induction grammar generalizing text with
  | lexeme piece => exact piece.read_advances h text
  | group => exact hgroup text
  | seq first second ihf ihs =>
    exact .andThen ((Bool.or_eq_true_iff.mp h).imp (ihf · text) ihs)
  | choice first second ihf ihs =>
    have both := Bool.and_eq_true_iff.mp h
    exact Reply.Holds.orElse (ihf both.1 text) ((ihs both.2 text).alt _ text)
  | optional | many => contradiction
  | butNot barred part _ ih => exact Reply.Holds.bar fun _ => ih h text
  | cut part ih => exact Reply.Holds.cut (ih h text)
  | context what part ih => exact Reply.Holds.context (ih h text) what text
  | leaf kind part ih => exact Reply.Holds.gather (ih h text) id
  | trimmedLeaf kind part ih => exact Reply.Holds.gather (ih h text) id
  | branch kind name body ihn ihb =>
    exact .branch ((Bool.or_eq_true_iff.mp h).imp (ihn · text) ihb) kind

/-- `part`, which has to be there. -/
abbrev commit (what : String) (part : Grammar) : Grammar := .cut (.context what part)

def symbol (c : Char) : Grammar := .lexeme (.symbol c)

def keyword (name : String) : Grammar := .lexeme (.keyword name)

def wordAmong (words : List String) : Grammar := .lexeme (.wordAmong words)

def word : Grammar := .lexeme .word

def quoted (quote : Char) : Grammar := .lexeme (.quoted quote)

/-- Characters other than these. -/
def run (stops : List Char) : Grammar := .lexeme (.run stops)

def backquoted : Grammar := quoted '\x60'

def stringLiteral : Grammar := quoted '\x27' <|> quoted '\x22'

/-- White space and comments, perhaps none. -/
def blanks : Grammar :=
  .many (.lexeme .spaces <|> .lexeme .lineComment <|> .lexeme .blockComment)

def groupBody : Grammar :=
  symbol '(' ++
    .many (.group <|> stringLiteral <|> backquoted <|> run ['(', ')', '\x27', '\x22', '\x60']) ++
    symbol ')'

end Grammar

/-- Reads a group with at most that many groups around its innermost one. -/
def readGroupWithin : Nat → List Char → Reply
  | 0, text => .miss [(text, .char '(')]
  | depth + 1, text => Grammar.groupBody.readWith (readGroupWithin depth) text

/-- Reads a group. No group is nested more deeply than the text is long. -/
def readGroup (text : List Char) : Reply := readGroupWithin text.length text

theorem readGroupWithin_splits (depth : Nat) (text : List Char) :
    (readGroupWithin depth text).Splits text := by
  induction depth generalizing text with
  | zero => trivial
  | succ depth ih => exact Grammar.readWith_splits ih Grammar.groupBody text

theorem readGroupWithin_advances (depth : Nat) (text : List Char) :
    (readGroupWithin depth text).Advances := by
  induction depth generalizing text with
  | zero => trivial
  | succ depth ih => exact Grammar.readWith_advances ih (by decide) text

namespace Grammar

def read (grammar : Grammar) (text : List Char) : Reply := grammar.readWith readGroup text

/-- What a grammar takes and what it leaves make up the text. -/
theorem read_splits (grammar : Grammar) (text : List Char) : (grammar.read text).Splits text :=
  grammar.readWith_splits (fun text => readGroupWithin_splits _ text) text

/-- A grammar with a lexeme that cannot be left out takes something. -/
theorem read_advances {grammar : Grammar} (h : grammar.advances) (text : List Char) :
    (grammar.read text).Advances :=
  readWith_advances (fun text => readGroupWithin_advances _ text) h text

end Grammar

end DdlModels.Sql
