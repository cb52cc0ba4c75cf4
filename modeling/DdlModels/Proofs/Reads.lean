import DdlModels.Proofs.Yields

/-!
# Reading and missing as relations

A grammar reads a text into nodes and leaves a rest, or misses it. One rule for each combinator derives
both.
-/

namespace DdlModels.Sql

theorem Reply.after_eq_ok {reply : Reply} {head taken rest : List Char} {nodes : List Node}
    (h : reply.after [] head = .ok nodes taken rest) :
    ∃ inner, reply = .ok nodes inner rest ∧ taken = head ++ inner := by
  cases reply with
  | ok more inner left =>
    simp only [Reply.after, List.nil_append, Reply.ok.injEq] at h
    obtain ⟨rfl, rfl, rfl⟩ := h
    exact ⟨inner, rfl, rfl⟩
  | miss | fail => contradiction

namespace Grammar

/-- A grammar reads a text into some nodes and leaves the rest. -/
def Reads (grammar : Grammar) (text : List Char) (nodes : List Node) (rest : List Char) : Prop :=
  ∃ taken, grammar.read text = .ok nodes taken rest

def Misses (grammar : Grammar) (text : List Char) : Prop := ∃ errors, grammar.read text = .miss errors

variable {first second part : Grammar} {text between rest : List Char} {nodes more : List Node}

theorem Reads.splits {grammar : Grammar} (h : grammar.Reads text nodes rest) :
    ∃ taken, text = taken ++ rest := by
  obtain ⟨taken, found⟩ := h
  have split := grammar.read_splits text
  rw [found] at split
  exact ⟨taken, split⟩

theorem Reads.length_le {grammar : Grammar} (h : grammar.Reads text nodes rest) :
    rest.length ≤ text.length := by
  obtain ⟨taken, rfl⟩ := h.splits
  rw [List.length_append]
  omega

theorem Reads.length_lt {grammar : Grammar} (h : grammar.Reads text nodes rest)
    (advances : grammar.advances) : rest.length < text.length := by
  obtain ⟨taken, found⟩ := h
  exact Reply.length_lt found (grammar.read_splits text) (read_advances advances text)

theorem Reads.yields {grammar : Grammar} (h : grammar.Reads text nodes rest) : grammar.Yields nodes := by
  obtain ⟨taken, found⟩ := h
  exact read_yields found

theorem Reads.nodes_eq_nil {grammar : Grammar} (h : grammar.Reads text nodes rest) (silent : grammar.silent) :
    nodes = [] :=
  eq_nil_of_silent silent h.yields

theorem Reads.read_eq {grammar : Grammar} {taken : List Char}
    (h : grammar.Reads (taken ++ rest) nodes rest) :
    grammar.read (taken ++ rest) = .ok nodes taken rest := by
  obtain ⟨other, found⟩ := h
  have split := grammar.read_splits (taken ++ rest)
  rw [found] at split
  rw [found, List.append_cancel_right (show taken ++ rest = other ++ rest from split)]

theorem Reads.seq (hfirst : first.Reads text nodes between) (hsecond : second.Reads between more rest) :
    (first ++ second).Reads text (nodes ++ more) rest := by
  obtain ⟨taken, found⟩ := hfirst
  obtain ⟨after, next⟩ := hsecond
  refine ⟨taken ++ after, ?_⟩
  rw [read_seq, found, Reply.andThen, next]
  rfl

theorem Reads.orElse (h : first.Reads text nodes rest) : (first <|> second).Reads text nodes rest := by
  obtain ⟨taken, found⟩ := h
  exact ⟨taken, by rw [read_choice, found]; rfl⟩

theorem Misses.orElse (hfirst : first.Misses text) (hsecond : second.Reads text nodes rest) :
    (first <|> second).Reads text nodes rest := by
  obtain ⟨errors, missed⟩ := hfirst
  obtain ⟨taken, found⟩ := hsecond
  exact ⟨taken, by rw [read_choice, missed, Reply.orElse, found]; rfl⟩

theorem Reads.optional (h : part.Reads text nodes rest) :
    (Grammar.optional part).Reads text nodes rest := by
  obtain ⟨taken, found⟩ := h
  exact ⟨taken, by rw [read_optional, found]; rfl⟩

theorem Misses.optional (h : part.Misses text) : (Grammar.optional part).Reads text [] text := by
  obtain ⟨left, missed⟩ := h
  exact ⟨[], by rw [read_optional, missed]; rfl⟩

theorem Reads.many (h : part.Reads text nodes between) (advances : part.advances)
    (hmany : (Grammar.many part).Reads between more rest) :
    (Grammar.many part).Reads text (nodes ++ more) rest := by
  have shorter := h.length_lt advances
  obtain ⟨taken, found⟩ := h
  obtain ⟨after, next⟩ := hmany
  refine ⟨taken ++ after, ?_⟩
  rw [read_many] at next ⊢
  rw [readMany, found]
  simp only [shorter, if_true, next]
  rfl

theorem Misses.many (h : part.Misses text) : (Grammar.many part).Reads text [] text := by
  obtain ⟨left, missed⟩ := h
  exact ⟨[], by rw [read_many, readMany, missed]⟩

theorem Reads.many_rest (h : (Grammar.many part).Reads text [] rest) (turn : part.Reads text [] between) :
    (Grammar.many part).Reads between [] rest := by
  obtain ⟨taken, found⟩ := h
  obtain ⟨head, first⟩ := turn
  rw [read_many, readMany, first] at found
  simp only at found
  split at found
  case isTrue =>
    cases reply : readMany part.read between with
    | ok nodes inner left =>
      rw [reply] at found
      simp only [Reply.after, List.nil_append, Reply.ok.injEq] at found
      obtain ⟨rfl, -, rfl⟩ := found
      exact ⟨inner, reply⟩
    | miss | fail => simp [reply, Reply.after] at found
  case isFalse => contradiction

theorem Reads.cut (h : part.Reads text nodes rest) : (Grammar.cut part).Reads text nodes rest := by
  obtain ⟨taken, found⟩ := h
  exact ⟨taken, by rw [read_cut, found]; rfl⟩

theorem Reads.context (h : part.Reads text nodes rest) (what : String) :
    (Grammar.context what part).Reads text nodes rest := by
  obtain ⟨taken, found⟩ := h
  exact ⟨taken, by rw [read_context, found]; rfl⟩

theorem Reads.commit (h : part.Reads text nodes rest) (what : String) :
    (Grammar.commit what part).Reads text nodes rest :=
  (h.context what).cut

theorem Reads.leaf {taken : List Char} (h : part.Reads (taken ++ rest) nodes rest) (kind : NodeKind) :
    (Grammar.leaf kind part).Reads (taken ++ rest) [.leaf kind (String.ofList taken)] rest :=
  ⟨taken, by rw [read_leaf, h.read_eq]; rfl⟩

theorem Reads.trimmedLeaf {taken : List Char} (h : part.Reads (taken ++ rest) nodes rest)
    (kind : NodeKind) :
    (Grammar.trimmedLeaf kind part).Reads (taken ++ rest) (trimmedLeafOf kind taken) rest :=
  ⟨taken, by rw [read_trimmedLeaf, h.read_eq]; rfl⟩

theorem Reads.branch {name body : Grammar} {taken : List Char}
    (hname : name.Reads (taken ++ between) nodes between) (hbody : body.Reads between more rest)
    (kind : NodeKind) : (Grammar.branch kind name body).Reads (taken ++ between)
      [⟨kind, String.ofList taken, more⟩] rest := by
  obtain ⟨after, next⟩ := hbody
  refine ⟨taken ++ after, ?_⟩
  rw [read_branch, hname.read_eq]
  simp only [Reply.branch, next]

theorem Misses.seq_first (h : first.Misses text) : (first ++ second).Misses text := by
  obtain ⟨left, missed⟩ := h
  exact ⟨left, by rw [read_seq, missed]; rfl⟩

theorem Reads.seq_misses (hfirst : first.Reads text nodes between) (hsecond : second.Misses between) :
    (first ++ second).Misses text := by
  obtain ⟨taken, found⟩ := hfirst
  obtain ⟨left, missed⟩ := hsecond
  exact ⟨left, by rw [read_seq, found, Reply.andThen, missed]; rfl⟩

theorem Misses.choice (hfirst : first.Misses text) (hsecond : second.Misses text) :
    (first <|> second).Misses text := by
  obtain ⟨errors, missed⟩ := hfirst
  obtain ⟨last, gone⟩ := hsecond
  exact ⟨_, by rw [read_choice, missed, Reply.orElse, gone]; rfl⟩

theorem Misses.context (h : part.Misses text) (what : String) : (Grammar.context what part).Misses text := by
  obtain ⟨errors, missed⟩ := h
  exact ⟨_, by rw [read_context, missed]; rfl⟩

theorem Misses.leaf (h : part.Misses text) (kind : NodeKind) :
    (Grammar.leaf kind part).Misses text := by
  obtain ⟨left, missed⟩ := h
  exact ⟨left, by rw [read_leaf, missed]; rfl⟩

theorem Misses.trimmedLeaf (h : part.Misses text) (kind : NodeKind) :
    (Grammar.trimmedLeaf kind part).Misses text := by
  obtain ⟨left, missed⟩ := h
  exact ⟨left, by rw [read_trimmedLeaf, missed]; rfl⟩

theorem Misses.branch {name body : Grammar} (h : name.Misses text) (kind : NodeKind) :
    (Grammar.branch kind name body).Misses text := by
  obtain ⟨left, missed⟩ := h
  exact ⟨left, by rw [read_branch, missed]; rfl⟩

theorem Reads.branch_misses {name body : Grammar} (hname : name.Reads text nodes between)
    (hbody : body.Misses between) (kind : NodeKind) : (Grammar.branch kind name body).Misses text := by
  obtain ⟨taken, found⟩ := hname
  obtain ⟨left, missed⟩ := hbody
  exact ⟨left, by rw [read_branch, found]; simp only [Reply.branch, missed]⟩

theorem Reads.of_seq (h : (first ++ second).Reads text nodes rest) :
    ∃ before after between, first.Reads text before between ∧ second.Reads between after rest ∧
      nodes = before ++ after := by
  obtain ⟨taken, found⟩ := h
  rw [read_seq] at found
  cases hfirst : first.read text with
  | ok before head between =>
    rw [hfirst] at found
    cases hsecond : second.read between with
    | ok after more left =>
      simp only [Reply.andThen, hsecond, Reply.after, Reply.ok.injEq] at found
      obtain ⟨rfl, -, rfl⟩ := found
      exact ⟨before, after, between, ⟨head, hfirst⟩, ⟨more, hsecond⟩, rfl⟩
    | miss | fail => simp [Reply.andThen, hsecond, Reply.after] at found
  | miss | fail => simp [hfirst, Reply.andThen] at found

theorem Reads.of_choice (h : (first <|> second).Reads text nodes rest) :
    first.Reads text nodes rest ∨ first.Misses text ∧ second.Reads text nodes rest := by
  obtain ⟨taken, found⟩ := h
  rw [read_choice] at found
  cases hfirst : first.read text with
  | ok before head between =>
    rw [hfirst] at found
    obtain ⟨rfl, rfl, rfl⟩ := Reply.ok.inj found
    exact .inl ⟨head, hfirst⟩
  | miss errors =>
    rw [hfirst] at found
    refine .inr ⟨⟨errors, hfirst⟩, taken, ?_⟩
    cases hsecond : second.read text <;> simp_all [Reply.orElse, Reply.alt]
  | fail => simp [hfirst, Reply.orElse] at found

theorem Reads.of_optional (h : (Grammar.optional part).Reads text nodes rest) :
    part.Reads text nodes rest ∨ part.Misses text ∧ nodes = [] ∧ rest = text := by
  obtain ⟨taken, found⟩ := h
  rw [read_optional] at found
  cases hpart : part.read text with
  | ok before head between =>
    rw [hpart] at found
    obtain ⟨rfl, rfl, rfl⟩ := Reply.ok.inj found
    exact .inl ⟨head, hpart⟩
  | miss left =>
    rw [hpart] at found
    obtain ⟨rfl, -, rfl⟩ := Reply.ok.inj found
    exact .inr ⟨⟨left, hpart⟩, rfl, rfl⟩
  | fail => simp [hpart, Reply.orElse] at found

theorem Reads.of_cut (h : (Grammar.cut part).Reads text nodes rest) : part.Reads text nodes rest := by
  obtain ⟨taken, found⟩ := h
  rw [read_cut] at found
  cases hpart : part.read text with
  | ok before head between =>
    rw [hpart] at found
    obtain ⟨rfl, rfl, rfl⟩ := Reply.ok.inj found
    exact ⟨head, hpart⟩
  | miss | fail => simp [hpart, Reply.cut] at found

theorem Reads.of_context {what : String} (h : (Grammar.context what part).Reads text nodes rest) :
    part.Reads text nodes rest := by
  obtain ⟨taken, found⟩ := h
  rw [read_context] at found
  cases hpart : part.read text with
  | ok before head between =>
    rw [hpart] at found
    obtain ⟨rfl, rfl, rfl⟩ := Reply.ok.inj found
    exact ⟨head, hpart⟩
  | miss | fail => simp [hpart, Reply.context] at found

theorem Reads.of_commit {what : String} (h : (Grammar.commit what part).Reads text nodes rest) :
    part.Reads text nodes rest :=
  h.of_cut.of_context

theorem Reads.of_many (h : (Grammar.many part).Reads text nodes rest) :
    (∃ before after between, part.Reads text before between ∧ between.length < text.length ∧
      (Grammar.many part).Reads between after rest ∧ nodes = before ++ after) ∨
    part.Misses text ∧ nodes = [] ∧ rest = text := by
  obtain ⟨taken, found⟩ := h
  rw [read_many, readMany] at found
  cases hpart : part.read text with
  | ok before head between =>
    simp only [hpart] at found
    split at found
    case isTrue shorter =>
      cases hmore : readMany part.read between with
      | ok after more left =>
        simp only [hmore, Reply.after, Reply.ok.injEq] at found
        obtain ⟨rfl, -, rfl⟩ := found
        exact .inl ⟨before, after, between, ⟨head, hpart⟩, shorter, ⟨more, hmore⟩, rfl⟩
      | miss | fail => simp [hmore, Reply.after] at found
    case isFalse => contradiction
  | miss left =>
    simp only [hpart] at found
    obtain ⟨rfl, -, rfl⟩ := Reply.ok.inj found
    exact .inr ⟨⟨left, hpart⟩, rfl, rfl⟩
  | fail => simp [hpart] at found

theorem Reads.of_branch {kind : NodeKind} {name body : Grammar}
    (h : (Grammar.branch kind name body).Reads text nodes rest) :
    ∃ taken before children between, text = taken ++ between ∧ name.Reads text before between ∧
      body.Reads between children rest ∧ nodes = [⟨kind, String.ofList taken, children⟩] := by
  obtain ⟨taken, found⟩ := h
  rw [read_branch] at found
  cases hname : name.read text with
  | ok before head between =>
    have split := name.read_splits text
    rw [hname] at found split
    cases hbody : body.read between with
    | ok children more left =>
      simp only [Reply.branch, hbody, Reply.ok.injEq] at found
      obtain ⟨rfl, -, rfl⟩ := found
      exact ⟨head, before, children, between, split, ⟨head, hname⟩, ⟨more, hbody⟩, rfl⟩
    | miss | fail => simp [Reply.branch, hbody] at found
  | miss | fail => simp [hname, Reply.branch] at found

private theorem reads_of_gather {make : List Char → List Node} {whole : List Char}
    (found : (part.read text).gather make = .ok nodes whole rest) :
    ∃ taken inner, text = taken ++ rest ∧ part.Reads text inner rest ∧ nodes = make taken := by
  cases hpart : part.read text with
  | ok inner head left =>
    have split := part.read_splits text
    rw [hpart] at found split
    obtain ⟨rfl, -, rfl⟩ := Reply.ok.inj found
    exact ⟨head, inner, split, ⟨head, hpart⟩, rfl⟩
  | miss | fail => simp [hpart, Reply.gather] at found

theorem Reads.of_trimmedLeaf {kind : NodeKind} (h : (Grammar.trimmedLeaf kind part).Reads text nodes rest) :
    ∃ taken inner, text = taken ++ rest ∧ part.Reads text inner rest ∧ nodes = trimmedLeafOf kind taken := by
  obtain ⟨_, found⟩ := h
  exact reads_of_gather found

theorem Reads.of_leaf {kind : NodeKind} (h : (Grammar.leaf kind part).Reads text nodes rest) :
    ∃ taken inner, text = taken ++ rest ∧ part.Reads text inner rest ∧ nodes = leafOf kind taken := by
  obtain ⟨_, found⟩ := h
  exact reads_of_gather found

theorem Reads.not_misses {grammar : Grammar} (h : grammar.Reads text nodes rest) : ¬ grammar.Misses text := by
  intro missed
  obtain ⟨taken, found⟩ := h
  obtain ⟨left, gone⟩ := missed
  rw [found] at gone
  contradiction

theorem Reads.unique {grammar : Grammar} {other : List Char} (h : grammar.Reads text nodes rest)
    (again : grammar.Reads text more other) : nodes = more ∧ rest = other := by
  obtain ⟨taken, found⟩ := h
  obtain ⟨retaken, refound⟩ := again
  rw [found] at refound
  obtain ⟨rfl, -, rfl⟩ := Reply.ok.inj refound
  exact ⟨rfl, rfl⟩

theorem reads_seq_iff : (first ++ second).Reads text nodes rest ↔
    ∃ before after between, nodes = before ++ after ∧ first.Reads text before between ∧
      second.Reads between after rest := by
  constructor
  · intro reads
    obtain ⟨before, after, between, hfirst, hsecond, same⟩ := reads.of_seq
    exact ⟨before, after, between, same, hfirst, hsecond⟩
  · rintro ⟨before, after, between, rfl, hfirst, hsecond⟩
    exact hfirst.seq hsecond

theorem reads_assoc {third : Grammar} :
    (first ++ second ++ third).Reads text nodes rest ↔ (first ++ (second ++ third)).Reads text nodes rest := by
  constructor
  · intro reads
    obtain ⟨_, _, _, front, hthird, rfl⟩ := reads.of_seq
    obtain ⟨_, _, _, hfirst, hsecond, rfl⟩ := front.of_seq
    rw [List.append_assoc]
    exact hfirst.seq (hsecond.seq hthird)
  · intro reads
    obtain ⟨_, _, _, hfirst, back, rfl⟩ := reads.of_seq
    obtain ⟨_, _, _, hsecond, hthird, rfl⟩ := back.of_seq
    rw [← List.append_assoc]
    exact (hfirst.seq hsecond).seq hthird

theorem reads_cut_iff : (cut part).Reads text nodes rest ↔ part.Reads text nodes rest :=
  ⟨Reads.of_cut, Reads.cut⟩

theorem reads_context_iff {what : String} :
    (context what part).Reads text nodes rest ↔ part.Reads text nodes rest :=
  ⟨Reads.of_context, fun reads => reads.context what⟩

theorem Reads.seq_iff {before : List Node} (h : first.Reads text before between) :
    (first ++ second).Reads text nodes rest ↔ ∃ after, nodes = before ++ after ∧ second.Reads between after rest := by
  constructor
  · intro reads
    obtain ⟨_, after, _, hfirst, hsecond, rfl⟩ := reads.of_seq
    obtain ⟨rfl, rfl⟩ := hfirst.unique h
    exact ⟨after, rfl, hsecond⟩
  · rintro ⟨after, rfl, hsecond⟩
    exact h.seq hsecond

theorem Reads.then_iff (h : first.Reads text [] between) :
    (first ++ second).Reads text nodes rest ↔ second.Reads between nodes rest := by
  simp [h.seq_iff]

theorem Misses.orElse_iff (h : first.Misses text) :
    (first <|> second).Reads text nodes rest ↔ second.Reads text nodes rest := by
  constructor
  · intro reads
    rcases reads.of_choice with reads | ⟨-, reads⟩
    · exact absurd h reads.not_misses
    · exact reads
  · exact h.orElse

theorem Reads.branch_iff {kind : NodeKind} {name body : Grammar} {taken : List Char}
    (h : name.Reads (taken ++ between) nodes between) {tree : List Node} :
    (Grammar.branch kind name body).Reads (taken ++ between) tree rest ↔
      ∃ children, tree = [⟨kind, String.ofList taken, children⟩] ∧ body.Reads between children rest := by
  constructor
  · intro reads
    obtain ⟨head, _, children, left, split, named, inner, rfl⟩ := reads.of_branch
    obtain ⟨-, rfl⟩ := named.unique h
    obtain rfl := List.append_cancel_right split
    exact ⟨children, rfl, inner⟩
  · rintro ⟨children, rfl, inner⟩
    exact h.branch inner kind

theorem Misses.of_seq (h : (first ++ second).Misses text) :
    first.Misses text ∨ ∃ before between, first.Reads text before between ∧ second.Misses between := by
  obtain ⟨left, missed⟩ := h
  rw [read_seq] at missed
  cases hfirst : first.read text with
  | ok before head between =>
    rw [hfirst] at missed
    cases hsecond : second.read between with
    | miss last => exact .inr ⟨before, between, ⟨head, hfirst⟩, ⟨last, hsecond⟩⟩
    | ok | fail => simp [Reply.andThen, hsecond, Reply.after] at missed
  | miss last => exact .inl ⟨last, hfirst⟩
  | fail => simp [hfirst, Reply.andThen] at missed

theorem Reads.then_misses_iff (h : first.Reads text nodes between) :
    (first ++ second).Misses text ↔ second.Misses between := by
  refine ⟨fun missed => ?_, h.seq_misses⟩
  rcases missed.of_seq with gone | ⟨_, left, again, gone⟩
  · exact absurd gone h.not_misses
  · obtain ⟨-, rfl⟩ := again.unique h
    exact gone

theorem Misses.of_choice (h : (first <|> second).Misses text) : first.Misses text ∧ second.Misses text := by
  obtain ⟨left, missed⟩ := h
  rw [read_choice] at missed
  cases hfirst : first.read text with
  | miss errors =>
    rw [hfirst] at missed
    refine ⟨⟨errors, hfirst⟩, ?_⟩
    cases hsecond : second.read text with
    | miss last => exact ⟨last, hsecond⟩
    | ok | fail => simp [hsecond, Reply.orElse, Reply.alt] at missed
  | ok | fail => simp [hfirst, Reply.orElse] at missed

theorem Misses.of_context {what : String} (h : (Grammar.context what part).Misses text) : part.Misses text := by
  obtain ⟨left, missed⟩ := h
  rw [read_context] at missed
  cases hpart : part.read text with
  | miss errors => exact ⟨errors, hpart⟩
  | ok | fail => simp [hpart, Reply.context] at missed

theorem Misses.of_trimmedLeaf {kind : NodeKind} (h : (Grammar.trimmedLeaf kind part).Misses text) :
    part.Misses text := by
  obtain ⟨left, missed⟩ := h
  rw [read_trimmedLeaf] at missed
  cases hpart : part.read text with
  | miss last => exact ⟨last, hpart⟩
  | ok | fail => simp [hpart, Reply.gather] at missed

theorem Misses.of_branch {kind : NodeKind} {name body : Grammar}
    (h : (Grammar.branch kind name body).Misses text) :
    name.Misses text ∨ ∃ before between, name.Reads text before between ∧ body.Misses between := by
  obtain ⟨left, missed⟩ := h
  rw [read_branch] at missed
  cases hname : name.read text with
  | ok before head between =>
    rw [hname] at missed
    cases hbody : body.read between with
    | miss last => exact .inr ⟨before, between, ⟨head, hname⟩, ⟨last, hbody⟩⟩
    | ok | fail => simp [Reply.branch, hbody] at missed
  | miss last => exact .inl ⟨last, hname⟩
  | fail => simp [hname, Reply.branch] at missed

/-- Whether a grammar never misses. -/
def sure : Grammar → Bool
  | .optional _ | .cut _ => true
  | .many part => part.advances
  | .seq first second => first.sure && second.sure
  | .choice first second => first.sure || second.sure
  | .context _ part | .leaf _ part | .trimmedLeaf _ part => part.sure
  | _ => false

/-- A repetition whose turns all take something never misses. -/
theorem readMany_not_miss {read : List Char → Reply}
    (shortens : ∀ {text nodes taken rest}, read text = .ok nodes taken rest → rest.length < text.length)
    (text : List Char) (errors : Errors) : readMany read text ≠ .miss errors := by
  fun_induction readMany read text with
  | case1 text nodes taken rest found shorter ih =>
    cases reply : readMany read rest with
    | miss last =>
      rw [reply] at ih
      exact ih
    | ok | fail => simp [Reply.after]
  | case2 text nodes taken rest found shorter => exact absurd (shortens found) shorter
  | case3 | case4 => simp

theorem sure_not_misses {grammar : Grammar} (h : grammar.sure) : ¬ grammar.Misses text := by
  induction grammar generalizing text with
  | seq first second ihf ihs =>
    have both := Bool.and_eq_true_iff.mp h
    intro missed
    rcases Misses.of_seq missed with missed | ⟨_, _, _, missed⟩
    · exact ihf both.1 missed
    · exact ihs both.2 missed
  | choice first second ihf ihs =>
    intro missed
    have both := Misses.of_choice missed
    rcases Bool.or_eq_true_iff.mp h with h | h
    · exact ihf h both.1
    · exact ihs h both.2
  | optional part =>
    rintro ⟨left, missed⟩
    rw [read_optional] at missed
    cases hpart : part.read text <;> simp [hpart, Reply.orElse] at missed
  | many part =>
    rintro ⟨left, missed⟩
    exact readMany_not_miss (fun found => Reads.length_lt ⟨_, found⟩ h) text left missed
  | cut part =>
    rintro ⟨left, missed⟩
    rw [read_cut] at missed
    cases hpart : part.read text <;> simp [hpart, Reply.cut] at missed
  | context what part ih => exact fun missed => ih h missed.of_context
  | leaf kind part ih =>
    rintro ⟨left, missed⟩
    rw [read_leaf] at missed
    cases hpart : part.read text with
    | miss last => exact ih h ⟨last, hpart⟩
    | ok | fail => simp [hpart, Reply.gather] at missed
  | trimmedLeaf kind part ih => exact fun missed => ih h missed.of_trimmedLeaf
  | lexeme | group | butNot | branch => contradiction

end Grammar

end DdlModels.Sql

namespace DdlModels

mutual

/-- Whether two trees are the same, node by node. -/
def Node.decideEq : (node other : Node) → Decidable (node = other)
  | ⟨kind, text, children⟩, ⟨otherKind, otherText, otherChildren⟩ =>
    have := Node.decideEqAll children otherChildren
    decidable_of_iff (kind = otherKind ∧ text = otherText ∧ children = otherChildren) (by rw [Node.mk.injEq])

def Node.decideEqAll : (nodes others : List Node) → Decidable (nodes = others)
  | [], others => inferInstanceAs (Decidable ([] = others))
  | node :: nodes, [] => inferInstanceAs (Decidable (node :: nodes = []))
  | node :: nodes, other :: others =>
    have := Node.decideEq node other
    have := Node.decideEqAll nodes others
    decidable_of_iff (node = other ∧ nodes = others) (by rw [List.cons.injEq])

end

instance : DecidableEq Node := Node.decideEq

deriving instance DecidableEq for Sql.Reply

end DdlModels
