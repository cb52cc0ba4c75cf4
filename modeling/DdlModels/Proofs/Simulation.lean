import DdlModels.Proofs.Reads

/-!
# Two readings side by side

A grammar reads two texts alike if the pieces that it is made of do so wherever the reading comes to
them. Which texts, nodes and stopping places are alike is left open.
-/

namespace DdlModels.Sql

/-- When two readings are alike. -/
structure Likeness where
  texts : List Char → List Char → Prop
  errors : Errors → Errors → Prop
  taken : List Char → List Char → Prop
  nodes : List Node → List Node → Prop
  errors_nil : errors [] []
  errors_append {known known' : Errors} {text other : List Char} (kind : ErrorKind) :
    errors known known' → texts text other → errors (known ++ [(text, kind)]) (known' ++ [(other, kind)])
  taken_nil : taken [] []
  taken_append {before after before' after' : List Char} :
    taken before before' → taken after after' → taken (before ++ after) (before' ++ after')
  nodes_nil : nodes [] []
  nodes_append {before after before' after' : List Node} :
    nodes before before' → nodes after after' → nodes (before ++ after) (before' ++ after')
  nodes_leaf {text other : List Char} (kind : NodeKind) :
    taken text other → nodes (Grammar.leafOf kind text) (Grammar.leafOf kind other)
  nodes_branch {text other : List Char} {children others : List Node} (kind : NodeKind) :
    taken text other → nodes children others →
      nodes [⟨kind, String.ofList text, children⟩] [⟨kind, String.ofList other, others⟩]

/-- Two replies are alike: both read, both miss, or both fail. -/
inductive Reply.Alike (like : Likeness) : Reply → Reply → Prop where
  | ok {nodes nodes' : List Node} {taken taken' rest rest' : List Char} :
    like.nodes nodes nodes' → like.taken taken taken' → like.texts rest rest' →
      Alike like (.ok nodes taken rest) (.ok nodes' taken' rest')
  | miss {errors errors' : Errors} : like.errors errors errors' → Alike like (.miss errors) (.miss errors')
  | incomplete : Alike like (.fail .incomplete) (.fail .incomplete)
  | fail {errors errors' : Errors} :
    like.errors errors errors' → Alike like (.fail (.errors errors)) (.fail (.errors errors'))

namespace Reply.Alike

variable {like : Likeness} {reply other : Reply}

theorem after {nodes nodes' : List Node} {taken taken' : List Char} (h : Alike like reply other)
    (hnodes : like.nodes nodes nodes') (htaken : like.taken taken taken') :
    Alike like (reply.after nodes taken) (other.after nodes' taken') := by
  cases h with
  | ok more moreTaken rest =>
    exact .ok (like.nodes_append hnodes more) (like.taken_append htaken moreTaken) rest
  | miss errors => exact .miss errors
  | incomplete => exact .incomplete
  | fail errors => exact .fail errors

theorem andThen {next next' : List Char → Reply} (h : Alike like reply other)
    (hnext : ∀ nodes taken rest rest', reply = .ok nodes taken rest → like.texts rest rest' →
      Alike like (next rest) (next' rest')) :
    Alike like (reply.andThen next) (other.andThen next') := by
  cases h with
  | ok nodes taken rest => exact (hnext _ _ _ _ rfl rest).after nodes taken
  | miss errors => exact .miss errors
  | incomplete => exact .incomplete
  | fail errors => exact .fail errors

theorem orElse {f g : Unit → Reply} (h : Alike like reply other)
    (htry : (∃ errors, reply = .miss errors) → Alike like (f ()) (g ())) :
    Alike like (reply.orElse f) (other.orElse g) := by
  cases h with
  | ok nodes taken rest => exact .ok nodes taken rest
  | miss errors => exact htry ⟨_, rfl⟩
  | incomplete => exact .incomplete
  | fail errors => exact .fail errors

theorem alt {text text' : List Char} (h : Alike like reply other) (last : Bool) (texts : like.texts text text') :
    Alike like (reply.alt last text) (other.alt last text') := by
  cases h with
  | ok nodes taken rest => exact .ok nodes taken rest
  | miss errors =>
    cases last with
    | true => exact .miss (like.errors_append .alt errors texts)
    | false => exact .miss errors
  | incomplete => exact .incomplete
  | fail errors => exact .fail errors

theorem cut (h : Alike like reply other) : Alike like reply.cut other.cut := by
  cases h with
  | ok nodes taken rest => exact .ok nodes taken rest
  | miss errors => exact .fail errors
  | incomplete => exact .incomplete
  | fail errors => exact .fail errors

theorem context {text text' : List Char} (h : Alike like reply other) (what : String)
    (texts : like.texts text text') : Alike like (reply.context what text) (other.context what text') := by
  cases h with
  | ok nodes taken rest => exact .ok nodes taken rest
  | miss errors => exact .miss (like.errors_append (.context what) errors texts)
  | incomplete => exact .incomplete
  | fail errors => exact .fail (like.errors_append (.context what) errors texts)

theorem leaf (h : Alike like reply other) (kind : NodeKind) :
    Alike like (reply.gather (Grammar.leafOf kind)) (other.gather (Grammar.leafOf kind)) := by
  cases h with
  | ok nodes taken rest => exact .ok (like.nodes_leaf kind taken) taken rest
  | miss errors => exact .miss errors
  | incomplete => exact .incomplete
  | fail errors => exact .fail errors

theorem branch {body body' : List Char → Reply} (h : Alike like reply other) (kind : NodeKind)
    (hbody : ∀ nodes taken rest rest', reply = .ok nodes taken rest → like.texts rest rest' →
      Alike like (body rest) (body' rest')) :
    Alike like (reply.branch kind body) (other.branch kind body') := by
  cases h with
  | @ok nodes nodes' taken taken' rest rest' _ name texts =>
    have inner := hbody _ _ _ _ rfl texts
    simp only [Reply.branch]
    generalize body rest = left at inner
    generalize body' rest' = left' at inner
    cases inner with
    | ok children more texts =>
      exact .ok (like.nodes_branch kind name children) (like.taken_append name more) texts
    | miss errors => exact .miss errors
    | incomplete => exact .incomplete
    | fail errors => exact .fail errors
  | miss errors => exact .miss errors
  | incomplete => exact .incomplete
  | fail errors => exact .fail errors

theorem bar {text text' : List Char} {f g : Unit → Reply} (h : Alike like reply other)
    (texts : like.texts text text')
    (htry : (∃ errors, reply = .miss errors) → Alike like (f ()) (g ())) :
    Alike like (reply.bar text f) (other.bar text' g) := by
  cases h with
  | ok nodes taken rest => exact .miss (like.errors_append .not like.errors_nil texts)
  | miss errors => exact htry ⟨_, rfl⟩
  | incomplete => exact .incomplete
  | fail errors => exact .fail errors

end Reply.Alike

namespace Grammar

/-- Reading a text by a grammar comes to reading a part of it at some place. Certain pieces are not looked
into. -/
inductive Visits (piece : Grammar → Bool) : Grammar → List Char → Grammar → List Char → Prop where
  | here {grammar : Grammar} {text : List Char} : Visits piece grammar text grammar text
  | first {first second part : Grammar} {text place : List Char} : piece (first ++ second) = false →
    Visits piece first text part place → Visits piece (first ++ second) text part place
  | second {first second part : Grammar} {text between place : List Char} {nodes : List Node} :
    piece (first ++ second) = false → first.Reads text nodes between →
      Visits piece second between part place → Visits piece (first ++ second) text part place
  | either {first second part : Grammar} {text place : List Char} : piece (first <|> second) = false →
    Visits piece first text part place → Visits piece (first <|> second) text part place
  | other {first second part : Grammar} {text place : List Char} : piece (first <|> second) = false →
    first.Misses text → Visits piece second text part place → Visits piece (first <|> second) text part place
  | optional {inner part : Grammar} {text place : List Char} : piece (.optional inner) = false →
    Visits piece inner text part place → Visits piece (.optional inner) text part place
  | turn {inner part : Grammar} {text place : List Char} : piece (.many inner) = false →
    Visits piece inner text part place → Visits piece (.many inner) text part place
  | again {inner part : Grammar} {text between place : List Char} {nodes : List Node} :
    piece (.many inner) = false → inner.Reads text nodes between →
      Visits piece (.many inner) between part place → Visits piece (.many inner) text part place
  | barred {barred inner part : Grammar} {text place : List Char} : piece (.butNot barred inner) = false →
    Visits piece barred text part place → Visits piece (.butNot barred inner) text part place
  | unbarred {barred inner part : Grammar} {text place : List Char} :
    piece (.butNot barred inner) = false → barred.Misses text →
      Visits piece inner text part place → Visits piece (.butNot barred inner) text part place
  | cut {inner part : Grammar} {text place : List Char} : piece (.cut inner) = false →
    Visits piece inner text part place → Visits piece (.cut inner) text part place
  | context {inner part : Grammar} {text place : List Char} {what : String} :
    piece (.context what inner) = false →
      Visits piece inner text part place → Visits piece (.context what inner) text part place
  | leaf {inner part : Grammar} {text place : List Char} {kind : NodeKind} :
    piece (.leaf kind inner) = false →
      Visits piece inner text part place → Visits piece (.leaf kind inner) text part place
  | trimmedLeaf {inner part : Grammar} {text place : List Char} {kind : NodeKind} :
    piece (.trimmedLeaf kind inner) = false →
      Visits piece inner text part place → Visits piece (.trimmedLeaf kind inner) text part place
  | name {name body part : Grammar} {text place : List Char} {kind : NodeKind} :
    piece (.branch kind name body) = false →
      Visits piece name text part place → Visits piece (.branch kind name body) text part place
  | body {name body part : Grammar} {text between place : List Char} {nodes : List Node} {kind : NodeKind} :
    piece (.branch kind name body) = false → name.Reads text nodes between →
      Visits piece body between part place → Visits piece (.branch kind name body) text part place

theorem Visits.extend {piece other : Grammar → Bool} {grammar part unit : Grammar} {text place spot : List Char}
    (fewer : ∀ grammar, piece grammar = false → other grammar = false)
    (h : Visits piece grammar text part place) (inner : Visits other part place unit spot) :
    Visits other grammar text unit spot := by
  induction h with
  | here => exact inner
  | first closed _ ih => exact .first (fewer _ closed) (ih inner)
  | second closed reads _ ih => exact .second (fewer _ closed) reads (ih inner)
  | either closed _ ih => exact .either (fewer _ closed) (ih inner)
  | other closed missed _ ih => exact .other (fewer _ closed) missed (ih inner)
  | optional closed _ ih => exact .optional (fewer _ closed) (ih inner)
  | turn closed _ ih => exact .turn (fewer _ closed) (ih inner)
  | again closed reads _ ih => exact .again (fewer _ closed) reads (ih inner)
  | barred closed _ ih => exact .barred (fewer _ closed) (ih inner)
  | unbarred closed missed _ ih => exact .unbarred (fewer _ closed) missed (ih inner)
  | cut closed _ ih => exact .cut (fewer _ closed) (ih inner)
  | context closed _ ih => exact .context (fewer _ closed) (ih inner)
  | leaf closed _ ih => exact .leaf (fewer _ closed) (ih inner)
  | trimmedLeaf closed _ ih => exact .trimmedLeaf (fewer _ closed) (ih inner)
  | name closed _ ih => exact .name (fewer _ closed) (ih inner)
  | body closed reads _ ih => exact .body (fewer _ closed) reads (ih inner)

/-- What the turns of a repetition visit. -/
def visitMany (read : List Char → Reply) (visit : List Char → List (Grammar × List Char)) (text : List Char) :
    List (Grammar × List Char) :=
  visit text ++
    match read text with
    | .ok _ _ rest => if rest.length < text.length then visitMany read visit rest else []
    | _ => []
termination_by text.length

/-- The pieces that reading comes to, with the places. -/
def visited (piece : Grammar → Bool) (grammar : Grammar) (text : List Char) : List (Grammar × List Char) :=
  if piece grammar then [(grammar, text)]
  else
    match grammar with
    | .lexeme _ | .group => []
    | .seq first second =>
      first.visited piece text ++
        match first.read text with
        | .ok _ _ rest => second.visited piece rest
        | _ => []
    | .choice first second | .butNot first second =>
      first.visited piece text ++
        match first.read text with
        | .miss _ => second.visited piece text
        | _ => []
    | .optional part | .cut part | .context _ part | .leaf _ part | .trimmedLeaf _ part => part.visited piece text
    | .many part => visitMany part.read (part.visited piece) text
    | .branch _ name body =>
      name.visited piece text ++
        match name.read text with
        | .ok _ _ rest => body.visited piece rest
        | _ => []

private theorem mem_visitMany_again {read : List Char → Reply} {visit : List Char → List (Grammar × List Char)}
    {text taken rest : List Char} {nodes : List Node} {found : Grammar × List Char} (suffix : rest <:+ text)
    (turn : read text = .ok nodes taken rest) (h : found ∈ visitMany read visit rest) :
    found ∈ visitMany read visit text := by
  by_cases shorter : rest.length < text.length
  · rw [visitMany, turn]
    simp only [shorter, if_true]
    exact List.mem_append_right _ h
  · rw [← suffix.eq_of_length (Nat.le_antisymm suffix.length_le (Nat.le_of_not_lt shorter))]
    exact h

theorem visited_closed {piece : Grammar → Bool} {grammar : Grammar} (h : piece grammar) (text : List Char) :
    grammar.visited piece text = [(grammar, text)] := by
  rw [visited.eq_def, if_pos h]

theorem Visits.mem_visited {piece : Grammar → Bool} {grammar part : Grammar} {text place : List Char}
    (h : Visits piece grammar text part place) (hpiece : piece part) :
    (part, place) ∈ grammar.visited piece text := by
  induction h with
  | here =>
    rw [visited_closed hpiece]
    exact List.mem_singleton_self _
  | first closed _ ih | either closed _ ih | barred closed _ ih | name closed _ ih =>
    rw [visited.eq_def, closed]
    exact List.mem_append_left _ (ih hpiece)
  | second closed reads _ ih | body closed reads _ ih =>
    obtain ⟨taken, found⟩ := reads
    rw [visited.eq_def, closed]
    refine List.mem_append_right _ ?_
    rw [found]
    exact ih hpiece
  | other closed missed _ ih | unbarred closed missed _ ih =>
    obtain ⟨left, missed⟩ := missed
    rw [visited.eq_def, closed]
    refine List.mem_append_right _ ?_
    rw [missed]
    exact ih hpiece
  | optional closed _ ih | cut closed _ ih | context closed _ ih | leaf closed _ ih | trimmedLeaf closed _ ih =>
    rw [visited.eq_def, closed]
    exact ih hpiece
  | turn closed _ ih =>
    rw [visited.eq_def, closed]
    simp only [Bool.false_eq_true, if_false]
    rw [visitMany]
    exact List.mem_append_left _ (ih hpiece)
  | again closed reads _ ih =>
    obtain ⟨taken, split⟩ := reads.splits
    obtain ⟨taken', found⟩ := reads
    have inner := ih hpiece
    rw [visited.eq_def, closed] at inner ⊢
    exact mem_visitMany_again ⟨taken, split.symm⟩ found inner

/-- Whether a grammar is made of certain pieces. -/
def madeOf (piece : Grammar → Bool) (grammar : Grammar) : Bool :=
  piece grammar ||
    match grammar with
    | .lexeme _ | .group | .trimmedLeaf .. => false
    | .seq first second | .choice first second | .butNot first second | .branch _ first second =>
      first.madeOf piece && second.madeOf piece
    | .optional part | .cut part | .context _ part | .leaf _ part => part.madeOf piece
    | .many part => part.advances && part.madeOf piece

private theorem readMany_alike {like : Likeness} {part : Grammar} (advances : part.advances)
    {reached : List Char → Prop} {text other : List Char} (start : reached text)
    (texts : like.texts text other)
    (step : ∀ place nodes next, reached place → part.Reads place nodes next → reached next)
    (turns : ∀ place place', reached place → like.texts place place' →
      (part.read place).Alike like (part.read place')) :
    (readMany part.read text).Alike like (readMany part.read other) := by
  have shortens {text taken rest : List Char} {nodes : List Node}
      (found : part.read text = .ok nodes taken rest) : rest.length < text.length :=
    Reads.length_lt ⟨taken, found⟩ advances
  induction hn : text.length using Nat.strongRecOn generalizing text other with
  | ind n ih =>
    have turn := turns text other start texts
    rw [readMany.eq_def part.read text, readMany.eq_def part.read other]
    cases found : part.read text with
    | ok nodes taken rest =>
      rw [found] at turn
      cases found' : part.read other with
      | ok nodes' taken' rest' =>
        rw [found'] at turn
        cases turn with
        | ok hnodes htaken hrest =>
          simp only [shortens found, shortens found', if_true]
          have next := step text nodes rest start ⟨taken, found⟩
          have shorter : rest.length < n := hn ▸ shortens found
          exact (ih rest.length shorter next hrest rfl).after hnodes htaken
      | miss | fail =>
        rw [found'] at turn
        contradiction
    | miss errors =>
      rw [found] at turn
      cases found' : part.read other with
      | miss errors' => exact .ok like.nodes_nil like.taken_nil texts
      | ok | fail =>
        rw [found'] at turn
        contradiction
    | fail failure =>
      rw [found] at turn
      cases found' : part.read other with
      | fail failure' =>
        rw [found'] at turn
        cases turn with
        | incomplete => exact .incomplete
        | fail errors => exact .fail errors
      | ok | miss =>
        rw [found'] at turn
        contradiction

/-- Wherever the reading of a text comes to a piece, alike texts are read alike by it. -/
def PiecesAlike (like : Likeness) (piece : Grammar → Bool) (grammar : Grammar) (text : List Char) : Prop :=
  ∀ part place place', piece part → grammar.Visits piece text part place → like.texts place place' →
    (part.read place).Alike like (part.read place')

namespace PiecesAlike

variable {like : Likeness} {piece : Grammar → Bool} {grammar part : Grammar} {text other place : List Char}

theorem inside (h : PiecesAlike like piece grammar text)
    (visits : ∀ {unit : Grammar} {inner : List Char}, part.Visits piece place unit inner →
      grammar.Visits piece text unit inner) : PiecesAlike like piece part place :=
  fun unit inner inner' hpiece below => h unit inner inner' hpiece (visits below)

theorem by_parts (h : PiecesAlike like piece grammar text) (texts : like.texts text other)
    (parts : piece grammar = false → (grammar.read text).Alike like (grammar.read other)) :
    (grammar.read text).Alike like (grammar.read other) := by
  cases whole : piece grammar with
  | true => exact h grammar text other whole .here texts
  | false => exact parts whole

end PiecesAlike

theorem choice_alike {like : Likeness} {first second : Grammar} {text other : List Char}
    (hfirst : (first.read text).Alike like (first.read other)) (texts : like.texts text other)
    (hsecond : first.Misses text → (second.read text).Alike like (second.read other)) :
    ((first <|> second).read text).Alike like ((first <|> second).read other) := by
  rw [read_choice, read_choice]
  exact hfirst.orElse fun missed => (hsecond missed).alt _ texts

/-- A grammar reads two texts alike if its pieces do so at the places that the reading comes to. -/
theorem read_alike {like : Likeness} {piece : Grammar → Bool} {grammar : Grammar}
    (made : grammar.madeOf piece) {text other : List Char} (texts : like.texts text other)
    (pieces : PiecesAlike like piece grammar text) :
    (grammar.read text).Alike like (grammar.read other) := by
  induction grammar generalizing text other with
  | lexeme | group | trimmedLeaf =>
    refine pieces _ text other ?_ .here texts
    simpa [madeOf] using made
  | seq first second ihf ihs =>
    refine pieces.by_parts texts fun whole => ?_
    simp only [madeOf, whole, Bool.false_or, Bool.and_eq_true] at made
    refine (ihf made.1 texts (pieces.inside (.first whole))).andThen ?_
    intro nodes taken rest rest' found texts
    exact ihs made.2 texts (pieces.inside (.second whole ⟨taken, found⟩))
  | choice first second ihf ihs =>
    refine pieces.by_parts texts fun whole => ?_
    simp only [madeOf, whole, Bool.false_or, Bool.and_eq_true] at made
    refine choice_alike (ihf made.1 texts (pieces.inside (.either whole))) texts ?_
    intro missed
    exact ihs made.2 texts (pieces.inside (.other whole missed))
  | optional part ih =>
    refine pieces.by_parts texts fun whole => ?_
    simp only [madeOf, whole, Bool.false_or] at made
    rw [read_optional, read_optional]
    refine (ih made texts (pieces.inside (.optional whole))).orElse ?_
    intro _
    exact .ok like.nodes_nil like.taken_nil texts
  | many part ih =>
    refine pieces.by_parts texts fun whole => ?_
    simp only [madeOf, whole, Bool.false_or, Bool.and_eq_true] at made
    -- what is visited from a place between two turns is visited from the beginning
    let reached (place : List Char) : Prop := ∀ unit inner,
      (many part).Visits piece place unit inner → (many part).Visits piece text unit inner
    have start : reached text := fun _ _ visits => visits
    refine readMany_alike made.1 start texts ?_ ?_
    · intro place nodes next before turn unit inner visits
      exact before unit inner (.again whole turn visits)
    · intro place place' before texts
      exact ih made.2 texts (pieces.inside fun visits => before _ _ (.turn whole visits))
  | butNot barred part ihb ihp =>
    refine pieces.by_parts texts fun whole => ?_
    simp only [madeOf, whole, Bool.false_or, Bool.and_eq_true] at made
    rw [read_butNot, read_butNot]
    refine (ihb made.1 texts (pieces.inside (.barred whole))).bar texts ?_
    intro missed
    exact ihp made.2 texts (pieces.inside (.unbarred whole missed))
  | cut part ih =>
    refine pieces.by_parts texts fun whole => ?_
    simp only [madeOf, whole, Bool.false_or] at made
    exact (ih made texts (pieces.inside (.cut whole))).cut
  | context what part ih =>
    refine pieces.by_parts texts fun whole => ?_
    simp only [madeOf, whole, Bool.false_or] at made
    exact (ih made texts (pieces.inside (.context whole))).context what texts
  | leaf kind part ih =>
    refine pieces.by_parts texts fun whole => ?_
    simp only [madeOf, whole, Bool.false_or] at made
    exact (ih made texts (pieces.inside (.leaf whole))).leaf kind
  | branch kind name body ihn ihb =>
    refine pieces.by_parts texts fun whole => ?_
    simp only [madeOf, whole, Bool.false_or, Bool.and_eq_true] at made
    refine (ihn made.1 texts (pieces.inside (.name whole))).branch kind ?_
    intro nodes taken rest rest' found texts
    exact ihb made.2 texts (pieces.inside (.body whole ⟨taken, found⟩))

/-- Likeness of a text at certain places with itself. -/
private def stay (places : List Char → Prop) : Likeness where
  texts text other := places text ∧ other = text
  errors _ _ := True
  taken _ _ := True
  nodes _ _ := True
  errors_nil := trivial
  errors_append _ _ _ := trivial
  taken_nil := trivial
  taken_append _ _ := trivial
  nodes_nil := trivial
  nodes_append _ _ := trivial
  nodes_leaf _ _ := trivial
  nodes_branch _ _ _ := trivial

/-- What every piece preserves is preserved by reading. -/
theorem Reads.invariant {P : List Char → Prop} {piece : Grammar → Bool} {grammar : Grammar}
    (made : grammar.madeOf piece) {text rest : List Char} {nodes : List Node} (start : P text)
    (pieces : ∀ part place, piece part → P place →
      ∀ nodes rest, part.Reads place nodes rest → P rest)
    (h : grammar.Reads text nodes rest) : P rest := by
  obtain ⟨taken, found⟩ := h
  have alike : (grammar.read text).Alike (stay P) (grammar.read text) := by
    refine read_alike made ⟨start, rfl⟩ ?_
    intro part place other hpiece _ same
    rw [same.2]
    cases reply : part.read place with
    | ok nodes taken rest =>
      exact .ok trivial trivial ⟨pieces part place hpiece same.1 nodes rest ⟨taken, reply⟩, rfl⟩
    | miss errors => exact .miss trivial
    | fail failure =>
      cases failure with
      | incomplete => exact .incomplete
      | errors errors => exact .fail trivial
  rw [found] at alike
  cases alike with
  | ok _ _ texts => exact texts.1

end Grammar

end DdlModels.Sql
