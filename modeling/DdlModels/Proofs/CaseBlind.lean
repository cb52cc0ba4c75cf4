import DdlModels.Proofs.Folding
import DdlModels.Proofs.ReadEquations

/-!
# Reading without regard to letter case

A grammar is blind to letter case if none of its symbols is a letter, but for a choice between the two forms of one.
Reading by such a grammar comes to the same before and after folding: what is read, what is left and what is
refused of a folded text is the folded form of what it is of the text itself.
-/

namespace DdlModels

open Text

namespace Node

mutual
def folded : Node → Node
  | ⟨kind, text, children⟩ => ⟨kind, Text.folded text, foldedAll children⟩
def foldedAll : List Node → List Node
  | [] => []
  | node :: nodes => folded node :: foldedAll nodes
end

theorem foldedAll_eq_map (nodes : List Node) : foldedAll nodes = nodes.map folded := by
  induction nodes with
  | nil => rfl
  | cons node nodes ih => rw [foldedAll, ih, List.map_cons]

theorem foldedAll_append (first second : List Node) :
    foldedAll (first ++ second) = foldedAll first ++ foldedAll second := by
  simp only [foldedAll_eq_map, List.map_append]

end Node

namespace Sql

namespace Reply

open Node (foldedAll)

def folded : Reply → Reply
  | ok nodes taken rest => ok (foldedAll nodes) (fold taken) (fold rest)
  | miss errors => miss (errors.move fold)
  | fail failure => fail (failure.move fold)

variable (reply : Reply)

theorem folded_after (nodes : List Node) (taken : List Char) :
    (reply.after nodes taken).folded = reply.folded.after (foldedAll nodes) (fold taken) := by
  cases reply with
  | ok more moreTaken rest => simp only [after, folded, Node.foldedAll_append, fold_append]
  | miss | fail => rfl

theorem folded_andThen {next next' : List Char → Reply} (h : ∀ rest, next' (fold rest) = (next rest).folded) :
    (reply.andThen next).folded = reply.folded.andThen next' := by
  cases reply with
  | ok nodes taken rest => rw [andThen, folded_after, folded, andThen, h]
  | miss | fail => rfl

theorem folded_orElse (other : Unit → Reply) :
    (reply.orElse other).folded = reply.folded.orElse fun _ => (other ()).folded := by
  cases reply <;> rfl

theorem folded_alt (last : Bool) (place : List Char) :
    (reply.alt last place).folded = reply.folded.alt last (fold place) := by
  cases reply with
  | miss errors =>
    cases last with
    | true => exact congrArg miss (errors.move_append fold [(place, .alt)])
    | false => rfl
  | _ => rfl

theorem folded_cut : reply.cut.folded = reply.folded.cut := by
  cases reply <;> rfl

theorem folded_context (what : String) (place : List Char) :
    (reply.context what place).folded = reply.folded.context what (fold place) := by
  cases reply with
  | ok => rfl
  | miss errors => exact congrArg miss (errors.move_append fold [(place, .context what)])
  | fail failure => exact congrArg fail (failure.move_within fold place (.context what))

theorem folded_gather {make : List Char → List Node} (h : ∀ text, make (fold text) = foldedAll (make text)) :
    (reply.gather make).folded = reply.folded.gather make := by
  cases reply with
  | ok nodes taken rest => rw [gather, folded, folded, gather, h]
  | miss | fail => rfl

theorem folded_branch (kind : NodeKind) {body body' : List Char → Reply}
    (h : ∀ rest, body' (fold rest) = (body rest).folded) :
    (reply.branch kind body).folded = reply.folded.branch kind body' := by
  cases reply with
  | ok nodes taken rest =>
    simp only [branch, folded, h]
    cases body rest with
    | ok children more left =>
      simp [foldedAll, Node.folded, fold_append, Text.folded]
    | miss | fail => rfl
  | miss | fail => rfl

theorem folded_bar (text : List Char) (other : Unit → Reply) :
    (reply.bar text other).folded = reply.folded.bar (fold text) fun _ => (other ()).folded := by
  cases reply <;> rfl

end Reply

theorem readSymbol_fold {c : Char} (mark : c.isAlpha = false) (text : List Char) :
    readSymbol c (fold text) = (readSymbol c text).folded := by
  cases text with
  | nil => rfl
  | cons d rest =>
    rw [fold_cons, readSymbol, readSymbol, toLower_beq mark]
    split <;> rfl

theorem readExponentMark_fold (text : List Char) :
    ((readSymbol 'e' (fold text)).orElse fun _ => (readSymbol 'E' (fold text)).alt true (fold text)) =
      ((readSymbol 'e' text).orElse fun _ => (readSymbol 'E' text).alt true text).folded := by
  have either (c : Char) (rest : List Char) :
      ((readSymbol 'e' (c :: rest)).orElse fun _ => (readSymbol 'E' (c :: rest)).alt true (c :: rest)) =
        if c == 'e' || c == 'E' then .ok [] [c] rest
        else .miss [(c :: rest, .char 'E'), (c :: rest, .alt)] := by
    simp only [readSymbol]
    cases c == 'e' <;> cases c == 'E' <;> rfl
  cases text with
  | nil => rfl
  | cons c rest =>
    have blind : (c.toLower == 'e' || c.toLower == 'E') = (c == 'e' || c == 'E') :=
      toLower_blind (f := fun c => c == 'e' || c == 'E') (by decide) c
    rw [fold_cons, either, either, blind]
    split <;> rfl

theorem readRun_fold {kind : ErrorKind} {member : Char → Bool} (blind : ∀ c : Char, member c.toLower = member c)
    (text : List Char) : readRun kind member (fold text) = (readRun kind member text).folded := by
  have empty : (fold (text.takeWhile member)).isEmpty = (text.takeWhile member).isEmpty := List.isEmpty_map
  rw [readRun, readRun, takeWhile_fold blind, dropWhile_fold blind, empty]
  split <;> rfl

theorem agree_fold (text keyword : List Char) : agree (fold text) keyword = agree text keyword := by
  induction text generalizing keyword with
  | nil => cases keyword <;> rfl
  | cons c text ih =>
    cases keyword with
    | nil => rfl
    | cons k keyword => rw [fold_cons, agree, agree, lowerChar_toLower, ih]

theorem readKeyword_fold (keyword text : List Char) :
    readKeyword keyword (fold text) = (readKeyword keyword text).folded := by
  have ends (rest : List Char) : continuesWord (fold rest) = continuesWord rest := by
    cases rest with
    | nil => rfl
    | cons c rest => exact isWordChar_toLower c
  rw [readKeyword, readKeyword, agree_fold, splitBytes?_fold]
  cases agree text keyword with
  | false => rfl
  | true =>
    cases splitBytes? (byteSize keyword) text with
    | none => rfl
    | some split =>
      simp only [if_true, Option.map_some, Prod.map, ends]
      split <;> rfl

theorem readWordAmong_fold (words : List String) (text : List Char) :
    readWordAmong words (fold text) = (readWordAmong words text).folded := by
  rw [readWordAmong, readWordAmong, readRun_fold isWordChar_toLower]
  cases readRun .takeWhile1 isWordChar text with
  | ok nodes word rest =>
    simp only [Reply.folded, map_toUpper_fold]
    split <;> rfl
  | miss | fail => rfl

theorem readToClose_fold {quote : Char} (mark : quote.isAlpha = false) (text : List Char) :
    readToClose quote (fold text) = (readToClose quote text).folded := by
  have quotes (c : Char) := toLower_beq mark c
  have slashes (c : Char) := toLower_beq (by decide : '\\'.isAlpha = false) c
  fun_induction readToClose quote text with
  | case1 => rfl
  | case2 c closed =>
    change readToClose quote [c.toLower] = _
    rw [readToClose, quotes, if_pos closed]
    rfl
  | case3 c opened escaped =>
    change readToClose quote [c.toLower] = _
    rw [readToClose, quotes, slashes, if_neg opened, if_pos escaped]
    rfl
  | case4 c opened plain =>
    change readToClose quote [c.toLower] = _
    rw [readToClose, quotes, slashes, if_neg opened, if_neg plain]
    rfl
  | case5 c d rest pair ih =>
    rw [fold_cons, fold_cons, readToClose, quotes, quotes, slashes, if_pos pair, ih, Reply.folded_after]
    rfl
  | case6 c d rest single closed =>
    rw [fold_cons, fold_cons, readToClose, quotes, quotes, slashes, if_neg single, if_pos closed]
    rfl
  | case7 c d rest single opened ih =>
    rw [fold_cons, fold_cons, readToClose, quotes, quotes, slashes, if_neg single, if_neg opened, ← fold_cons, ih,
      Reply.folded_after]
    rfl

theorem readQuoted_fold {quote : Char} (mark : quote.isAlpha = false) (text : List Char) :
    readQuoted quote (fold text) = (readQuoted quote text).folded := by
  cases text with
  | nil => rfl
  | cons c rest =>
    rw [fold_cons, readQuoted, readQuoted, toLower_beq mark, readToClose_fold mark]
    split
    · exact (Reply.folded_after _ [] [c]).symm
    · rfl

theorem atLineEnd_fold (text : List Char) : atLineEnd (fold text) = atLineEnd text := by
  have plain {c : Char} (h : c ≠ '\x0d') (rest : List Char) : atLineEnd (c :: rest) = true := by
    rw [atLineEnd.eq_def]
    split <;> simp_all
  cases text with
  | nil => rfl
  | cons c rest =>
    have kept := toLower_eq_iff (by decide : '\x0d'.isAlpha = false) c
    by_cases h : c = '\x0d'
    · subst h
      cases rest with
      | nil => rfl
      | cons d rest => exact toLower_beq (by decide : '\n'.isAlpha = false) d
    · rw [fold_cons, plain h, plain (kept.not.mpr h)]

theorem readToLineEnd_fold (text : List Char) : readToLineEnd (fold text) = (readToLineEnd text).folded := by
  have breaks (c : Char) : (!breaksLine c.toLower) = !breaksLine c :=
    toLower_blind (f := fun c => !breaksLine c) (by decide) c
  rw [readToLineEnd, readToLineEnd, takeWhile_fold breaks, dropWhile_fold breaks, atLineEnd_fold]
  split <;> rfl

theorem readLineComment_fold (text : List Char) : readLineComment (fold text) = (readLineComment text).folded := by
  fun_cases readLineComment text with
  | case1 rest =>
    change (readToLineEnd (fold rest)).after [] ['-', '-'] = _
    rw [readToLineEnd_fold, Reply.folded_after]
    rfl
  | case2 rest =>
    change (readToLineEnd (fold rest)).after [] ['#'] = _
    rw [readToLineEnd_fold, Reply.folded_after]
    rfl
  | case3 text dashes hash =>
    rw [readLineComment]
    · rfl
    · intro more found
      obtain ⟨rest, rfl⟩ := fold_eq_cons (by decide) found
      obtain ⟨rest, rfl⟩ := fold_eq_cons (by decide) (List.cons.inj found).2
      exact dashes rest rfl
    · intro more found
      obtain ⟨rest, rfl⟩ := fold_eq_cons (by decide) found
      exact hash rest rfl

theorem readToCommentClose_fold (start text : List Char) :
    readToCommentClose (fold start) (fold text) = (readToCommentClose start text).folded := by
  fun_induction readToCommentClose start text with
  | case1 | case2 => rfl
  | case3 c rest unclosed ih =>
    rw [fold_cons, readToCommentClose, ih, Reply.folded_after]
    · rfl
    · intro more star found
      obtain ⟨rest, rfl⟩ := fold_eq_cons (by decide) found
      exact unclosed rest ((toLower_eq_iff (by decide) c).mp star) rfl

theorem readBlockComment_fold (text : List Char) :
    readBlockComment (fold text) = (readBlockComment text).folded := by
  fun_cases readBlockComment text with
  | case1 rest =>
    change (readToCommentClose (fold rest) (fold rest)).after [] ['/', '*'] = _
    rw [readToCommentClose_fold, Reply.folded_after]
    rfl
  | case2 text mark =>
    rw [readBlockComment]
    · rfl
    · intro more found
      obtain ⟨rest, rfl⟩ := fold_eq_cons (by decide) found
      obtain ⟨rest, rfl⟩ := fold_eq_cons (by decide) (List.cons.inj found).2
      exact mark rest rfl

theorem contains_toLower {stops : List Char} (marks : stops.all fun c => !c.isAlpha) (c : Char) :
    stops.contains c.toLower = stops.contains c := by
  have mark {stop : Char} (h : stop ∈ stops) : stop.isAlpha = false := by
    simpa using List.all_eq_true.mp marks stop h
  rw [Bool.eq_iff_iff, List.contains_iff_mem, List.contains_iff_mem]
  constructor
  · intro found
    rwa [(toLower_eq_iff (mark found) c).mp rfl]
  · intro found
    rwa [(toLower_eq_iff (mark found) c).mpr rfl]

namespace Lexeme

def caseBlind : Lexeme → Bool
  | symbol c => !c.isAlpha
  | quoted quote => !quote.isAlpha
  | run stops => stops.all fun c => !c.isAlpha
  | _ => true

theorem read_fold {piece : Lexeme} (blind : piece.caseBlind) (text : List Char) :
    piece.read (fold text) = (piece.read text).folded := by
  cases piece with
  | symbol c => exact readSymbol_fold (by simpa [caseBlind] using blind) text
  | keyword name => exact readKeyword_fold name.toList text
  | wordAmong words => exact readWordAmong_fold words text
  | word => exact readRun_fold isWordChar_toLower text
  | digits => exact readRun_fold (toLower_blind (by decide)) text
  | spaces => exact readRun_fold (toLower_blind (by decide)) text
  | lineComment => exact readLineComment_fold text
  | blockComment => exact readBlockComment_fold text
  | quoted quote => exact readQuoted_fold (by simpa [caseBlind] using blind) text
  | run stops =>
    refine readRun_fold ?_ text
    intro c
    rw [contains_toLower blind]

end Lexeme

theorem readMany_fold {read : List Char → Reply} (h : ∀ text, read (fold text) = (read text).folded)
    (text : List Char) : readMany read (fold text) = (readMany read text).folded := by
  fun_induction readMany read text with
  | case1 text nodes taken rest found shorter ih =>
    rw [readMany.eq_def, h, found]
    rw [Reply.folded_after, ← ih]
    simp only [Reply.folded, length_fold, shorter, if_true]
  | case2 text nodes taken rest found shorter =>
    rw [readMany.eq_def, h, found]
    simp only [Reply.folded, length_fold, shorter, if_false]
    rfl
  | case3 text errors found =>
    rw [readMany.eq_def, h, found]
    rfl
  | case4 text failure found =>
    rw [readMany.eq_def, h, found]
    rfl

namespace Grammar

def isExponentMark : Grammar → Bool
  | .choice (.lexeme (.symbol 'e')) (.lexeme (.symbol 'E')) => true
  | _ => false

/-- Whether a grammar is made of lexemes that do without letters, and of marks of exponents. -/
def caseBlind : Grammar → Bool
  | .lexeme piece => piece.caseBlind
  | .group => true
  | .choice first second => isExponentMark (.choice first second) || first.caseBlind && second.caseBlind
  | .seq first second | .butNot first second | .branch _ first second => first.caseBlind && second.caseBlind
  | .optional part | .many part | .cut part | .context _ part | .leaf _ part | .trimmedLeaf _ part => part.caseBlind

theorem leafOf_fold (kind : NodeKind) (text : List Char) :
    leafOf kind (fold text) = Node.foldedAll (leafOf kind text) := by
  simp [leafOf, Node.leaf, Node.foldedAll, Node.folded, Text.folded]

theorem trimmedLeafOf_fold (kind : NodeKind) (text : List Char) :
    trimmedLeafOf kind (fold text) = Node.foldedAll (trimmedLeafOf kind text) := by
  rw [trimmedLeafOf, trimmedLeafOf, trim_fold]
  cases trim text with
  | nil => rfl
  | cons c rest => exact leafOf_fold kind (c :: rest)

theorem readWith_fold {readGroup : List Char → Reply}
    (hgroup : ∀ text, readGroup (fold text) = (readGroup text).folded) {grammar : Grammar}
    (blind : grammar.caseBlind) (text : List Char) :
    grammar.readWith readGroup (fold text) = (grammar.readWith readGroup text).folded := by
  induction grammar generalizing text with
  | lexeme piece => exact piece.read_fold blind text
  | group => exact hgroup text
  | seq first second ihf ihs =>
    obtain ⟨hf, hs⟩ := Bool.and_eq_true_iff.mp blind
    rw [readWith, readWith, ihf hf, ← Reply.folded_andThen _ (ihs hs)]
  | choice first second ihf ihs =>
    rcases Bool.or_eq_true_iff.mp blind with mark | both
    · unfold isExponentMark at mark
      split at mark
      · rename_i same
        obtain ⟨rfl, rfl⟩ := Grammar.choice.inj same
        exact readExponentMark_fold text
      · contradiction
    · obtain ⟨hf, hs⟩ := Bool.and_eq_true_iff.mp both
      rw [readWith, readWith, ihf hf, ihs hs, Reply.folded_orElse, Reply.folded_alt]
  | optional part ih => rw [readWith, readWith, ih blind, Reply.folded_orElse]; rfl
  | many part ih => exact readMany_fold (ih blind) text
  | butNot barred part ihb ihp =>
    obtain ⟨hb, hp⟩ := Bool.and_eq_true_iff.mp blind
    rw [readWith, readWith, ihb hb, ihp hp, Reply.folded_bar]
  | cut part ih => rw [readWith, readWith, ih blind, Reply.folded_cut]
  | context what part ih => rw [readWith, readWith, ih blind, Reply.folded_context]
  | leaf kind part ih => rw [readWith, readWith, ih blind, ← Reply.folded_gather _ (leafOf_fold kind)]
  | trimmedLeaf kind part ih =>
    rw [readWith, readWith, ih blind, ← Reply.folded_gather _ (trimmedLeafOf_fold kind)]
  | branch kind name body ihn ihb =>
    obtain ⟨hn, hb⟩ := Bool.and_eq_true_iff.mp blind
    rw [readWith, readWith, ihn hn, ← Reply.folded_branch _ kind (ihb hb)]

end Grammar

theorem readGroupWithin_fold (depth : Nat) (text : List Char) :
    readGroupWithin depth (fold text) = (readGroupWithin depth text).folded := by
  induction depth generalizing text with
  | zero => rfl
  | succ depth ih => exact Grammar.readWith_fold ih (by decide) text

/-- Reading by a grammar that is blind to letter case comes to the same before and after folding. -/
theorem Grammar.read_fold {grammar : Grammar} (blind : grammar.caseBlind) (text : List Char) :
    grammar.read (fold text) = (grammar.read text).folded := by
  refine readWith_fold ?_ blind text
  intro text
  rw [readGroup, length_fold, readGroupWithin_fold]
  rfl

end Sql

end DdlModels
