import DdlModels.Proofs.Comments
import DdlModels.Proofs.Openings

/-!
# Swapping what follows

A grammar that reads a text up to some place reads it alike up to there when something else follows, unless it
has looked for something behind the place, in vain, that is there now. What it has looked for is computed, and
so is whether every other decision on the way is made by what stands before the place.
-/

namespace DdlModels.Sql

open Text

/-- Two texts to go on with that no word, number or text in quotes can tell apart which ends before them. -/
structure Swapped (rest other : List Char) : Prop where
  nonempty : rest ≠ []
  head : ∃ c, other.head? = some c ∧ (rest.head? = some c ∨ c = ' ')

variable {taken rest other : List Char} {nodes : List Node}

namespace Swapped

theorem append (h : Swapped rest other) (front : List Char) : Swapped (front ++ rest) (front ++ other) := by
  cases front with
  | nil => exact h
  | cons c front => exact ⟨List.cons_ne_nil _ _, c, rfl, .inl rfl⟩

theorem stop {member : Char → Bool} (h : Swapped rest other) (space : member ' ' = false)
    (stop : ∀ c ∈ rest.head?, member c = false) : ∀ c ∈ other.head?, member c = false := by
  obtain ⟨d, head, same⟩ := h.head
  intro c hc
  obtain rfl := Option.some.inj (head.symm.trans hc)
  rcases same with same | rfl
  · exact stop d same
  · exact space

theorem continuesWord (h : Swapped rest other) (ends : continuesWord rest = false) :
    continuesWord other = false := by
  have stop := h.stop (by decide) (head_of_continuesWord ends)
  cases other with
  | nil => rfl
  | cons c other => exact stop c rfl

theorem other_ne_nil (h : Swapped rest other) : other ≠ [] := by
  rintro rfl
  obtain ⟨c, head, -⟩ := h.head
  contradiction

end Swapped

theorem BeginsAlike.swap {name : String} {word : List Char} (h : BeginsAlike name word rest)
    (swapped : Swapped rest other) : BeginsAlike name word other :=
  ⟨h.chars, h.same, swapped.continuesWord h.ends, swapped.other_ne_nil⟩

/-- A grammar reads up to a place whatever follows, if nothing of what it looks for there appears. -/
def Swaps (sought : List Grammar) (grammar : Grammar) : Prop :=
  ∀ ⦃taken rest other nodes⦄, Swapped rest other → (∀ part ∈ sought, part.Misses rest → part.Misses other) →
    grammar.Reads (taken ++ rest) nodes rest → grammar.Reads (taken ++ other) nodes other

private theorem readRun_swap {kind : ErrorKind} {member : Char → Bool} (stop : ∀ c ∈ other.head?, member c = false)
    (h : readRun kind member (taken ++ rest) = .ok nodes taken rest) :
    readRun kind member (taken ++ other) = .ok nodes taken other := by
  obtain ⟨rfl, nonempty, all, -⟩ := readRun_eq_ok h
  exact readRun_until nonempty all stop

theorem readRun_misses_iff {kind : ErrorKind} {member : Char → Bool} {text : List Char} :
    (∃ errors, readRun kind member text = .miss errors) ↔ ∀ c ∈ text.head?, member c = false := by
  cases text with
  | nil => simp [readRun]
  | cons c text => by_cases h : member c <;> simp [readRun, h]

/-- What a lexeme has looked for where it ends. -/
def Lexeme.sought : Lexeme → List Grammar
  | .run stops => [.lexeme (.run stops)]
  | _ => []

/-- Whether nothing but what it looks for makes a lexeme go on. -/
def Lexeme.steady : Lexeme → Bool
  | .symbol _ | .wordAmong _ | .word | .digits | .run _ => true
  | .keyword name => name.toList.all isKeywordChar
  | .quoted quote => isQuote quote
  | .spaces | .lineComment | .blockComment => false

theorem Lexeme.swaps {piece : Lexeme} (steady : piece.steady) : Swaps piece.sought (.lexeme piece) := by
  intro taken rest other nodes swapped absent reads
  have found : piece.read (taken ++ rest) = .ok nodes taken rest := reads.read_eq
  refine ⟨taken, ?_⟩
  rw [Grammar.read_lexeme]
  cases piece with
  | symbol c =>
    obtain rfl : taken = [c] := List.append_cancel_right (reads_symbol reads)
    simpa [Lexeme.read, readSymbol, eq_comm] using found
  | keyword name =>
    have begins := BeginsAlike.of_keyword steady swapped.nonempty reads
    have open' : rest = [] ↔ other = [] := ⟨fun h => absurd h swapped.nonempty, fun h => absurd h swapped.other_ne_nil⟩
    rcases readKeyword_swap (List.all_eq_true.mp steady) begins.wordChars begins.ends
      (swapped.continuesWord begins.ends) open' with ⟨whole, whole'⟩ | ⟨missed, -⟩
    · obtain ⟨rfl, -⟩ := Reply.ok.inj (whole.symm.trans found)
      exact whole'
    · exact absurd missed reads.not_misses
  | wordAmong words =>
    obtain ⟨run, known⟩ := readWordAmong_eq_ok.mp found
    have stop := (readRun_eq_ok run).2.2.2
    exact readWordAmong_eq_ok.mpr ⟨readRun_swap (swapped.stop (by decide) stop) run, known⟩
  | word =>
    have stop := (readRun_eq_ok found).2.2.2
    exact readRun_swap (swapped.stop (by decide) stop) found
  | digits =>
    have stop := (readRun_eq_ok found).2.2.2
    exact readRun_swap (swapped.stop (by decide) stop) found
  | quoted quote =>
    obtain ⟨inner, split, closes⟩ := reads_quoted reads
    cases taken with
    | nil =>
      have shorter := reads.length_lt rfl
      simp at shorter
    | cons c taken =>
      obtain ⟨rfl, rfl⟩ := List.cons.inj split
      change readQuoted c (c :: (taken ++ rest)) = _ at found
      rw [readQuoted, if_pos (beq_self_eq_true c)] at found
      obtain ⟨more, closed, same⟩ := Reply.after_eq_ok found
      obtain rfl : taken = more := (List.cons.inj same).2
      obtain ⟨apart, swap⟩ := readToClose_swap (isQuote_ne_backslash steady) closed other
      have space : ' ' ≠ c := by
        rintro rfl
        contradiction
      have plain : ∀ d ∈ other.head?, (d == c) = false :=
        swapped.stop (beq_eq_false_iff_ne.mpr space) fun d hd => beq_eq_false_iff_ne.mpr fun same => apart (same ▸ hd)
      have again := swap fun head => absurd rfl (beq_eq_false_iff_ne.mp (plain c head))
      change readQuoted c (c :: (taken ++ other)) = _
      rw [readQuoted, if_pos (beq_self_eq_true c), again]
      rfl
  | run stops =>
    have missed : (Grammar.run stops).Misses rest := readRun_misses_iff.mpr (readRun_eq_ok found).2.2.2
    have missed' : (Grammar.run stops).Misses other := absent _ (List.mem_singleton_self _) missed
    exact readRun_swap (readRun_misses_iff.mp missed') found
  | spaces | lineComment | blockComment => contradiction

theorem group_swaps : Swaps [] .group := by
  intro taken rest other nodes _ _ reads
  have silent := reads.nodes_eq_nil (by decide)
  subst silent
  obtain ⟨inner, split, ends⟩ := Leap.groups_parts (Leap.groups_describes.over_eq reads)
  obtain rfl : taken = '(' :: (inner ++ [')']) := (List.append_left_inj rest).mp (by rw [split]; simp)
  refine (Leap.groups_describes _).reads (Nat.le_refl _) ?_
  rw [List.cons_append, List.append_assoc]
  exact ends other

private theorem readToLineEnd_eq_ok {text body : List Char} (h : readToLineEnd text = .ok nodes body rest) :
    nodes = [] ∧ (∀ c ∈ body, breaksLine c = false) ∧ (∀ c ∈ rest.head?, breaksLine c) ∧ atLineEnd rest := by
  rw [readToLineEnd] at h
  split at h
  case isFalse => contradiction
  case isTrue ends =>
    obtain ⟨rfl, rfl, rfl⟩ := Reply.ok.inj h
    refine ⟨rfl, fun c hc => by simpa using List.mem_takeWhile_imp hc, ?_, ends⟩
    intro c hc
    have stop := List.head?_dropWhile_not (!breaksLine ·) text
    rw [show (text.dropWhile (!breaksLine ·)).head? = some c from hc] at stop
    simpa using stop

private theorem readLineComment_eq_ok (h : readLineComment (taken ++ rest) = .ok nodes taken rest) :
    ∃ mark ∈ [['-', '-'], ['#']], ∃ body, taken = mark ++ body ∧ nodes = [] ∧ (∀ c ∈ body, breaksLine c = false) ∧
      (∀ c ∈ rest.head?, breaksLine c) ∧ atLineEnd rest := by
  have line {mark text : List Char} (marks : mark ∈ [['-', '-'], ['#']])
      (h : (readToLineEnd text).after [] mark = .ok nodes taken rest) :
      ∃ mark ∈ [['-', '-'], ['#']], ∃ body, taken = mark ++ body ∧ nodes = [] ∧ (∀ c ∈ body, breaksLine c = false) ∧
        (∀ c ∈ rest.head?, breaksLine c) ∧ atLineEnd rest := by
    obtain ⟨body, found, rfl⟩ := Reply.after_eq_ok h
    obtain ⟨rfl, plain, stop, ends⟩ := readToLineEnd_eq_ok found
    exact ⟨mark, marks, body, rfl, rfl, plain, stop, ends⟩
  revert h
  fun_cases readLineComment (taken ++ rest) with
  | case1 text => exact line (by decide)
  | case2 text => exact line (by decide)
  | case3 =>
    intro h
    contradiction

private theorem readLineComment_swap (h : readLineComment (taken ++ rest) = .ok nodes taken rest)
    (stop : ∀ c ∈ other.head?, breaksLine c) (ends : atLineEnd other) :
    readLineComment (taken ++ other) = .ok nodes taken other := by
  obtain ⟨mark, marks, body, rfl, rfl, plain, -, -⟩ := readLineComment_eq_ok h
  rw [List.append_assoc, readLineComment_mark marks, readToLineEnd_body plain stop, if_pos ends]
  rfl

private theorem readToCommentClose_ne_nil {start text : List Char}
    (h : readToCommentClose start text = .ok nodes taken rest) : taken ≠ [] := by
  fun_cases readToCommentClose start text with
  | case1 => contradiction
  | case2 rest' =>
    obtain ⟨-, rfl, -⟩ := Reply.ok.inj h
    exact List.cons_ne_nil _ _
  | case3 c text noclose =>
    rw [readToCommentClose] at h
    · obtain ⟨more, -, rfl⟩ := Reply.after_eq_ok h
      exact List.cons_ne_nil _ _
    · exact noclose

private theorem readToCommentClose_swap {start text : List Char}
    (h : readToCommentClose start text = .ok nodes taken rest) (start' other : List Char) :
    readToCommentClose start' (taken ++ other) = .ok nodes taken other := by
  fun_induction readToCommentClose start text generalizing taken with
  | case1 => contradiction
  | case2 rest' =>
    obtain ⟨rfl, rfl, -⟩ := Reply.ok.inj h
    rfl
  | case3 c text noclose ih =>
    obtain ⟨more, found, rfl⟩ := Reply.after_eq_ok h
    have split := readToCommentClose_splits start text
    rw [found] at split
    rw [List.cons_append, List.nil_append, List.cons_append, readToCommentClose, ih found]
    · rfl
    · rintro after rfl same
      cases more with
      | nil => exact readToCommentClose_ne_nil found rfl
      | cons d more =>
        obtain rfl := (List.cons.inj same).1
        exact noclose (more ++ rest) rfl split

private theorem readBlockComment_swap (h : readBlockComment (taken ++ rest) = .ok nodes taken rest)
    (other : List Char) :
    readBlockComment (taken ++ other) = .ok nodes taken other := by
  revert h
  generalize taken ++ rest = text
  fun_cases readBlockComment text with
  | case1 text =>
    intro h
    obtain ⟨more, found, rfl⟩ := Reply.after_eq_ok h
    change (readToCommentClose _ (more ++ other)).after [] ['/', '*'] = _
    rw [readToCommentClose_swap found]
    rfl
  | case2 =>
    intro h
    contradiction

theorem not_isSpace_of_visible {c : Char} {text : List Char} (visible : Grammar.blank.Misses (c :: text)) :
    isSpace c = false :=
  readRun_misses_iff.mp visible.of_choice.1 c rfl

private theorem atLineEnd_cons (c d : Char) (text : List Char) :
    atLineEnd (c :: d :: text) = (c != '\x0d' || d == '\n') := by
  by_cases back : c = '\x0d'
  · subst back
    rfl
  · rw [bne_iff_ne.mpr back, atLineEnd]
    · rfl
    · simp
    · simp
    · simp [back]

private theorem blank_swap {c : Char} {more more' front : List Char} (visible : Grammar.blank.Misses (c :: more))
    (reads : Grammar.blank.Reads (taken ++ (front ++ c :: more)) nodes (front ++ c :: more)) :
    Grammar.blank.Reads (taken ++ (front ++ c :: more')) nodes (front ++ c :: more') := by
  have head : (front ++ c :: more').head? = (front ++ c :: more).head? := by cases front <;> rfl
  have heads : (taken ++ (front ++ c :: more')).head? = (taken ++ (front ++ c :: more)).head? := by
    cases taken with
    | nil => exact head
    | cons d taken => rfl
  have space := not_isSpace_of_visible visible
  rcases reads.of_choice with spaces | ⟨nospaces, reads⟩
  · have found : readRun .multiSpace isSpace _ = _ := spaces.read_eq
    have stop := (readRun_eq_ok found).2.2.2
    exact Grammar.Reads.orElse ⟨taken, readRun_swap (head ▸ stop) found⟩
  have nospaces' : (Grammar.lexeme .spaces).Misses (taken ++ (front ++ c :: more')) :=
    readRun_misses_iff.mpr (heads ▸ readRun_misses_iff.mp nospaces)
  rcases reads.of_choice with line | ⟨-, block⟩
  · have found : readLineComment _ = _ := line.read_eq
    obtain ⟨-, -, -, -, -, -, stop, ends⟩ := readLineComment_eq_ok found
    have ends' : atLineEnd (front ++ c :: more') := by
      cases front with
      | nil =>
        have breaks : breaksLine c := stop c rfl
        simp only [breaksLine, Bool.or_eq_true, beq_iff_eq] at breaks
        rcases breaks with rfl | rfl <;> contradiction
      | cons d front =>
        cases front with
        | nil =>
          rw [List.cons_append, List.nil_append, atLineEnd_cons] at ends ⊢
          exact ends
        | cons e front =>
          rw [List.cons_append, List.cons_append, atLineEnd_cons] at ends ⊢
          exact ends
    exact nospaces'.orElse (Grammar.Reads.orElse ⟨taken, readLineComment_swap found (head ▸ stop) ends'⟩)
  · have found : readBlockComment _ = _ := block.read_eq
    have found' := readBlockComment_swap found (front ++ c :: more')
    have noline : (Grammar.lexeme .lineComment).Misses (taken ++ (front ++ c :: more')) := by
      generalize taken ++ (front ++ c :: more') = text at found'
      revert found'
      fun_cases readBlockComment text with
      | case1 => exact fun _ => Grammar.misses_of_blocked (refuses_at '/' _) (by decide)
      | case2 => simp
    exact nospaces'.orElse (noline.orElse ⟨taken, found'⟩)

theorem blanks_swaps : Swaps [Grammar.blank] Grammar.blanks := by
  intro taken rest other nodes swapped absent reads
  have silent := reads.nodes_eq_nil (by decide)
  subst silent
  have visible : Grammar.blank.Misses rest := by
    obtain ⟨whole, visible⟩ := blanks_read (taken ++ rest)
    obtain ⟨-, same⟩ := reads.unique whole
    rwa [same]
  have visible' := absent _ (List.mem_singleton_self _) visible
  -- no blank begins at either place, so that they begin alike
  obtain ⟨c, more, more', rfl, rfl⟩ : ∃ c more more', rest = c :: more ∧ other = c :: more' := by
    obtain ⟨c, head', head⟩ := swapped.head
    obtain ⟨more', rfl⟩ := List.head?_eq_some_iff.mp head'
    rcases head with head | rfl
    · obtain ⟨more, rfl⟩ := List.head?_eq_some_iff.mp head
      exact ⟨c, more, more', rfl, rfl⟩
    · exact absurd (not_isSpace_of_visible visible') (by decide)
  induction hn : taken.length using Nat.strongRecOn generalizing taken with
  | ind n ih =>
    rcases reads.of_many with ⟨before, after, between, turn, shorter, others, same⟩ | ⟨missed, -, same⟩
    · obtain ⟨rfl, rfl⟩ := List.append_eq_nil_iff.mp same.symm
      obtain ⟨front, rfl⟩ := others.splits
      obtain ⟨head, split⟩ := turn.splits
      obtain rfl : taken = head ++ front :=
        (List.append_left_inj (c :: more)).mp (by rw [split, List.append_assoc])
      rw [List.append_assoc] at turn ⊢
      have fewer : front.length < n := by
        rw [← hn]
        simpa using shorter
      exact (blank_swap visible turn).many rfl (ih _ fewer others rfl)
    · obtain rfl : taken = [] := (List.append_left_inj (c :: more)).mp same.symm
      exact visible'.many

theorem refuses_swap {piece : Lexeme} (reads : (Grammar.lexeme piece).Reads (taken ++ rest) nodes rest)
    (swapped : Swapped rest other) : Refuses (refusedWith piece) (taken ++ other) := by
  have found : piece.read (taken ++ rest) = .ok nodes taken rest := reads.read_eq
  have goes (advances : piece.advances) : taken ≠ [] := by
    rintro rfl
    exact absurd (reads.length_lt (show (Grammar.lexeme piece).advances from advances)) (Nat.lt_irrefl _)
  -- most lexemes are known by their first characters
  have first {c : Char} (marks : List Char) (head : (taken ++ rest).head? = some c) (goes : taken ≠ [])
      (mark : c ∈ marks) : Refuses (fun other => marks.all (refusedAt · other)) (taken ++ other) := by
    obtain ⟨d, taken, rfl⟩ := List.exists_cons_of_ne_nil goes
    obtain rfl := Option.some.inj head
    exact fun other refused => refuses_at d _ other (List.all_eq_true.mp refused d mark)
  have member {kind : ErrorKind} {accepts : Char → Bool}
      (found : readRun kind accepts (taken ++ rest) = .ok nodes taken rest) :
      ∃ c more, taken = c :: more ∧ accepts c := by
    obtain ⟨-, nonempty, all, -⟩ := readRun_eq_ok found
    obtain ⟨c, more, rfl⟩ := List.exists_cons_of_ne_nil nonempty
    exact ⟨c, more, rfl, all c List.mem_cons_self⟩
  intro lexeme refused
  cases piece with
  | symbol c =>
    obtain rfl : taken = [c] := List.append_cancel_right (reads_symbol reads)
    exact refuses_at c other lexeme refused
  | quoted quote =>
    obtain ⟨inner, split, -⟩ := reads_quoted reads
    exact first [quote] (by rw [split]; rfl) (goes rfl) List.mem_cons_self lexeme
      (by simpa [refusedWith] using refused)
  | keyword name =>
    obtain ⟨chars, refused⟩ := Bool.and_eq_true_iff.mp refused
    have begins := BeginsAlike.of_keyword chars swapped.nonempty reads
    exact (begins.swap swapped).refuses lexeme refused
  | wordAmong words =>
    have both (name : String) (hname : name ∈ words) := Bool.and_eq_true_iff.mp (List.all_eq_true.mp refused name hname)
    have chars : words.all (·.toList.all isKeywordChar) := List.all_eq_true.mpr fun name hname => (both name hname).1
    obtain ⟨name, hname, begins⟩ := BeginsAlike.of_wordAmong chars swapped.nonempty reads
    exact (begins.swap swapped).refuses lexeme (both name hname).2
  | word =>
    obtain ⟨c, more, rfl, word⟩ := member found
    exact refuses_wordChar word _ lexeme refused
  | digits =>
    obtain ⟨c, more, rfl, digit⟩ := member found
    exact first _ rfl (List.cons_ne_nil c more) (mem_digits_of_isDigit digit) lexeme refused
  | spaces =>
    obtain ⟨c, more, rfl, space⟩ := member found
    have mark : c ∈ " \t\n\x0d".toList := by
      simp only [isSpace, Bool.or_eq_true, beq_iff_eq] at space
      rcases space with ((rfl | rfl) | rfl) | rfl <;> decide
    exact first _ rfl (List.cons_ne_nil c more) mark lexeme refused
  | lineComment =>
    obtain ⟨mark, marks, body, rfl, -⟩ := readLineComment_eq_ok found
    obtain ⟨c, more, rfl, known⟩ := mark_head marks
    exact first _ rfl (List.cons_ne_nil c _) (show c ∈ "-#".toList from known) lexeme refused
  | blockComment =>
    have head : (taken ++ rest).head? = some '/' := by
      generalize taken ++ rest = text at found
      revert found
      change readBlockComment text = _ → _
      fun_cases readBlockComment text with
      | case1 => exact fun _ => rfl
      | case2 =>
        intro found
        contradiction
    exact first ['/'] head (goes rfl) List.mem_cons_self lexeme (by simpa [refusedWith] using refused)
  | run stops =>
    obtain ⟨c, more, rfl, accepted⟩ := member found
    have other {d : Char} (hd : stops.contains d) : c ≠ d := by
      rintro rfl
      rw [hd] at accepted
      contradiction
    cases lexeme with
    | symbol d | quoted d => exact refuses_at c _ _ (bne_iff_ne.mpr (other refused))
    | _ => contradiction

/-- Where a grammar reads something, whatever follows, another one that it misses there is still missed when
what follows is swapped. -/
def Excludes (sought : List Grammar) (grammar absent : Grammar) : Prop :=
  ∀ ⦃taken rest other nodes⦄, taken ≠ [] → Swapped rest other →
    (∀ part ∈ sought, part.Misses rest → part.Misses other) →
    grammar.Reads (taken ++ rest) nodes rest → absent.Misses (taken ++ rest) → absent.Misses (taken ++ other)

section Combinators

variable {first second part : Grammar} {sought more : List Grammar}

theorem Swaps.mono (h : Swaps sought part) (sub : sought ⊆ more) : Swaps more part :=
  fun _ _ _ _ swapped absent reads => h swapped (fun other hother => absent other (sub hother)) reads

theorem Excludes.mono {absent : Grammar} (h : Excludes sought part absent) (sub : sought ⊆ more) :
    Excludes more part absent :=
  fun _ _ _ _ goes swapped fits reads missed =>
    h goes swapped (fun other hother => fits other (sub hother)) reads missed

/-- What one grammar takes and another one after it. -/
private theorem split_between {between : List Char} {before after : List Node}
    (hfirst : first.Reads (taken ++ rest) before between) (hsecond : second.Reads between after rest) :
    ∃ front back, taken = front ++ back ∧ between = back ++ rest := by
  obtain ⟨front, split⟩ := hfirst.splits
  obtain ⟨back, rfl⟩ := hsecond.splits
  refine ⟨front, back, (List.append_left_inj rest).mp ?_, rfl⟩
  rw [split, List.append_assoc]

private theorem absent_between {back : List Char} {after : List Node} (swapped : Swapped rest other)
    (fits : ∀ part ∈ more ++ (if second.advances then [] else sought), part.Misses rest → part.Misses other)
    (hx : ∀ part ∈ sought, Excludes more second part) (reads : second.Reads (back ++ rest) after rest) :
    ∀ part ∈ sought, part.Misses (back ++ rest) → part.Misses (back ++ other) := by
  intro part hpart missed
  by_cases goes : back = []
  · subst goes
    have idle : ¬ second.advances := fun advances => absurd (reads.length_lt advances) (Nat.lt_irrefl _)
    exact fits part (List.mem_append_right _ (by rwa [if_neg idle])) missed
  · exact hx part hpart goes swapped (fun part hpart => fits part (List.mem_append_left _ hpart)) reads missed

theorem Swaps.seq (hf : Swaps sought first) (hs : Swaps more second) (hx : ∀ part ∈ sought, Excludes more second part) :
    Swaps (more ++ if second.advances then [] else sought) (first ++ second) := by
  intro taken rest other nodes swapped fits reads
  obtain ⟨_, _, between, hfirst, hsecond, rfl⟩ := reads.of_seq
  obtain ⟨front, back, rfl, rfl⟩ := split_between hfirst hsecond
  have hsecond' := hs swapped (fun part hpart => fits part (List.mem_append_left _ hpart)) hsecond
  have absent := absent_between swapped fits hx hsecond
  rw [List.append_assoc] at hfirst ⊢
  exact (hf (swapped.append back) absent hfirst).seq hsecond'

theorem Swaps.branch {kind : NodeKind} (hf : Swaps sought first) (hs : Swaps more second)
    (hx : ∀ part ∈ sought, Excludes more second part) :
    Swaps (more ++ if second.advances then [] else sought) (.branch kind first second) := by
  intro taken rest other nodes swapped fits reads
  obtain ⟨name, _, _, between, split, hfirst, hsecond, rfl⟩ := reads.of_branch
  obtain ⟨front, back, rfl, rfl⟩ := split_between hfirst hsecond
  obtain rfl : front = name := by
    rw [List.append_assoc] at split
    exact List.append_cancel_right split
  have hsecond' := hs swapped (fun part hpart => fits part (List.mem_append_left _ hpart)) hsecond
  have absent := absent_between swapped fits hx hsecond
  rw [List.append_assoc] at hfirst ⊢
  exact (hf (swapped.append back) absent hfirst).branch hsecond' kind

theorem Swaps.choice (hf : Swaps sought first) (hs : Swaps more second) (advances : second.advances)
    (hx : Excludes more second first) : Swaps (sought ++ more) (first <|> second) := by
  intro taken rest other nodes swapped fits reads
  rcases reads.of_choice with reads | ⟨missed, reads⟩
  · exact (hf swapped (fun part hpart => fits part (List.mem_append_left _ hpart)) reads).orElse
  · have fits' : ∀ part ∈ more, part.Misses rest → part.Misses other :=
      fun part hpart => fits part (List.mem_append_right _ hpart)
    have reads' := hs swapped fits' reads
    have goes : taken ≠ [] := by
      rintro rfl
      exact absurd (reads.length_lt advances) (Nat.lt_irrefl _)
    exact (hx goes swapped fits' reads missed).orElse reads'

theorem Swaps.optional (h : Swaps sought part) : Swaps (part :: sought) (.optional part) := by
  intro taken rest other nodes swapped fits reads
  rcases reads.of_optional with reads | ⟨missed, rfl, same⟩
  · exact (h swapped (fun other hother => fits other (List.mem_cons_of_mem _ hother)) reads).optional
  · obtain rfl : taken = [] := (List.append_left_inj rest).mp same.symm
    exact (fits part List.mem_cons_self missed).optional

theorem Swaps.butNot {barred : Grammar} (h : Swaps sought part) (advances : part.advances)
    (hx : Excludes sought part barred) : Swaps sought (.butNot barred part) := by
  intro taken rest other nodes swapped fits reads
  obtain ⟨missed, reads⟩ := reads.of_butNot
  have reads' := h swapped fits reads
  have goes : taken ≠ [] := by
    rintro rfl
    exact absurd (reads.length_lt advances) (Nat.lt_irrefl _)
  exact (hx goes swapped fits reads missed).butNot reads'

theorem Swaps.cut (h : Swaps sought part) : Swaps sought (.cut part) :=
  fun _ _ _ _ swapped fits reads => (h swapped fits reads.of_cut).cut

theorem Swaps.context {what : String} (h : Swaps sought part) : Swaps sought (.context what part) :=
  fun _ _ _ _ swapped fits reads => (h swapped fits reads.of_context).context what

theorem Swaps.leaf {kind : NodeKind} (h : Swaps sought part) : Swaps sought (.leaf kind part) := by
  intro taken rest other nodes swapped fits reads
  obtain ⟨text, _, split, inner, rfl⟩ := reads.of_leaf
  obtain rfl : taken = text := List.append_cancel_right split
  exact (h swapped fits inner).leaf kind

theorem Swaps.trimmedLeaf {kind : NodeKind} (h : Swaps sought part) : Swaps sought (.trimmedLeaf kind part) := by
  intro taken rest other nodes swapped fits reads
  obtain ⟨text, _, split, inner, rfl⟩ := reads.of_trimmedLeaf
  obtain rfl : taken = text := List.append_cancel_right split
  exact (h swapped fits inner).trimmedLeaf kind

/-- The alternatives that a grammar chooses from. -/
def Grammar.alternatives : Grammar → List Grammar
  | .choice first second => first.alternatives ++ second.alternatives
  | .leaf _ part => part.alternatives
  | grammar => [grammar]

theorem Excludes.leaf {absent : Grammar} (h : Excludes sought part absent) (kind : NodeKind) :
    Excludes sought (.leaf kind part) absent := by
  intro taken rest other nodes goes swapped fits reads missed
  obtain ⟨_, _, -, reads, -⟩ := reads.of_leaf
  exact h goes swapped fits reads missed

theorem Excludes.branch {absent : Grammar} (h : Excludes sought (first ++ second) absent) (kind : NodeKind) :
    Excludes sought (.branch kind first second) absent := by
  intro taken rest other nodes goes swapped fits reads missed
  obtain ⟨_, _, _, _, -, named, inner, -⟩ := reads.of_branch
  exact h goes swapped fits (named.seq inner) missed

theorem Excludes.commit {absent : Grammar} (h : Excludes sought part absent) (what : String) :
    Excludes sought (.commit what part) absent :=
  fun _ _ _ _ goes swapped fits reads missed => h goes swapped fits reads.of_commit missed

theorem Excludes.of_alternatives {absent : Grammar} (h : ∀ other ∈ part.alternatives, Excludes sought other absent) :
    Excludes sought part absent := by
  induction part with
  | choice first second ihf ihs =>
    intro taken rest other nodes goes swapped fits reads missed
    rcases Grammar.Reads.of_choice reads with reads | ⟨-, reads⟩
    · exact ihf (fun part hpart => h part (List.mem_append_left _ hpart)) goes swapped fits reads missed
    · exact ihs (fun part hpart => h part (List.mem_append_right _ hpart)) goes swapped fits reads missed
  | leaf kind part ih => exact (ih h).leaf kind
  | _ => exact h _ (List.mem_singleton_self _)

theorem Excludes.of_alternatives_seq {next absent : Grammar}
    (h : ∀ other ∈ part.alternatives, Excludes sought (other ++ next) absent) :
    Excludes sought (part ++ next) absent := by
  induction part with
  | choice first second ihf ihs =>
    intro taken rest other nodes goes swapped fits reads missed
    obtain ⟨_, _, between, chosen, hnext, -⟩ := reads.of_seq
    rcases Grammar.Reads.of_choice chosen with chosen | ⟨-, chosen⟩
    · exact ihf (fun part hpart => h part (List.mem_append_left _ hpart)) goes swapped fits (chosen.seq hnext) missed
    · exact ihs (fun part hpart => h part (List.mem_append_right _ hpart)) goes swapped fits (chosen.seq hnext) missed
  | leaf kind part ih =>
    intro taken rest other nodes goes swapped fits reads missed
    obtain ⟨_, _, between, leaf, hnext, -⟩ := reads.of_seq
    obtain ⟨_, _, -, inner, -⟩ := leaf.of_leaf
    exact ih h goes swapped fits (inner.seq hnext) missed
  | _ => exact h _ (List.mem_singleton_self _)

theorem Excludes.choice {absent other : Grammar} (h : Excludes sought part absent) (more : Excludes sought part other) :
    Excludes sought part (absent <|> other) :=
  fun _ _ _ _ goes swapped fits reads missed =>
    (h goes swapped fits reads missed.of_choice.1).choice (more goes swapped fits reads missed.of_choice.2)

theorem Excludes.assoc {start next absent : Grammar} (h : Excludes sought part (start ++ (next ++ absent))) :
    Excludes sought part (start ++ next ++ absent) :=
  fun _ _ _ _ goes swapped fits reads missed =>
    Grammar.misses_assoc.mpr (h goes swapped fits reads (Grammar.misses_assoc.mp missed))

theorem Excludes.leaves {absent : Grammar} {kind other : NodeKind} (h : Excludes sought part absent) :
    Excludes sought (.leaf kind part) (.leaf other absent) :=
  fun _ _ _ _ goes swapped fits reads missed => (h.leaf kind goes swapped fits reads missed.of_leaf).leaf other

theorem Excludes.followed {next absent : Grammar} (h : Excludes [] first absent) (advances : first.advances) :
    Excludes sought (first ++ next) absent := by
  intro taken rest other nodes _ swapped _ reads missed
  obtain ⟨_, _, between, hfirst, hnext, -⟩ := reads.of_seq
  obtain ⟨front, back, rfl, rfl⟩ := split_between hfirst hnext
  rw [List.append_assoc] at hfirst missed ⊢
  have goes : front ≠ [] := by
    rintro rfl
    exact absurd (hfirst.length_lt advances) (Nat.lt_irrefl _)
  exact h goes (swapped.append back) (by simp) hfirst missed

theorem Excludes.prefixed {next absent : Grammar} (hf : Swaps sought first)
    (hx : ∀ part ∈ sought, Excludes more next part) (excludes : Excludes more next absent) :
    Excludes (more ++ if next.advances then [] else absent :: sought) (first ++ next) (first ++ absent) := by
  intro taken rest other nodes goes swapped fits reads missed
  obtain ⟨_, _, between, hfirst, hnext, -⟩ := reads.of_seq
  obtain ⟨front, back, rfl, rfl⟩ := split_between hfirst hnext
  have later : ∀ part ∈ absent :: sought, part.Misses (back ++ rest) → part.Misses (back ++ other) :=
    absent_between swapped fits (List.forall_mem_cons.mpr ⟨excludes, hx⟩) hnext
  rw [List.append_assoc] at hfirst missed ⊢
  have hfirst' := hf (swapped.append back) (fun part hpart => later part (List.mem_cons_of_mem _ hpart)) hfirst
  exact hfirst'.seq_misses (later absent List.mem_cons_self (hfirst.then_misses_iff.mp missed))

theorem Excludes.extended {absent : Grammar} (hf : Swaps sought first) :
    Excludes (absent :: sought) first (first ++ absent) := by
  intro taken rest other nodes goes swapped fits reads missed
  have reads' := hf swapped (fun part hpart => fits part (List.mem_cons_of_mem _ hpart)) reads
  exact reads'.seq_misses (fits absent List.mem_cons_self (reads.then_misses_iff.mp missed))

theorem Excludes.keyworded {name : String} {next absent : Grammar} (chars : name.toList.all isKeywordChar)
    (h : Excludes more next absent) :
    Excludes (more ++ if next.advances then [] else [absent]) (Grammar.word ++ next)
      (Grammar.keyword name ++ absent) := by
  intro taken rest other nodes _ swapped fits reads missed
  obtain ⟨_, _, between, hword, hnext, -⟩ := reads.of_seq
  obtain ⟨word, back, rfl, rfl⟩ := split_between hword hnext
  have later := absent_between swapped fits (List.forall_mem_singleton.mpr h) hnext absent (List.mem_singleton_self _)
  rw [List.append_assoc] at hword missed ⊢
  have taken : readRun .takeWhile1 isWordChar (word ++ (back ++ rest)) = _ := hword.read_eq
  obtain ⟨-, -, run, stop⟩ := readRun_eq_ok taken
  have ends := continuesWord_of_head stop
  have swapped := swapped.append back
  have both : back ++ rest = [] ↔ back ++ other = [] :=
    ⟨fun h => absurd h swapped.nonempty, fun h => absurd h swapped.other_ne_nil⟩
  rcases readKeyword_swap (List.all_eq_true.mp chars) run ends (swapped.continuesWord ends) both with
    ⟨found, found'⟩ | ⟨-, missed'⟩
  · have reads : (Grammar.keyword name).Reads (word ++ (back ++ rest)) [] (back ++ rest) := ⟨_, found⟩
    have reads' : (Grammar.keyword name).Reads (word ++ (back ++ other)) [] (back ++ other) := ⟨_, found'⟩
    exact reads'.seq_misses (later (reads.then_misses_iff.mp missed))
  · exact Grammar.Misses.seq_first missed'

theorem Excludes.optional_seq {absent : Grammar} (h : Excludes sought (first ++ second) absent)
    (without : Excludes sought second absent) : Excludes sought (.optional first ++ second) absent := by
  intro taken rest other nodes goes swapped fits reads missed
  obtain ⟨_, _, between, optional, hsecond, rfl⟩ := reads.of_seq
  rcases optional.of_optional with hfirst | ⟨-, -, rfl⟩
  · exact h goes swapped fits (hfirst.seq hsecond) missed
  · exact without goes swapped fits hsecond missed

/-- Some turns of a repetition, one after another. -/
inductive Turns (part : Grammar) : List Char → List Node → List Char → Prop where
  | done {text : List Char} : Turns part text [] text
  | turn {text between rest : List Char} {nodes more : List Node} :
    part.Reads text nodes between → Turns part between more rest → Turns part text (nodes ++ more) rest

theorem Turns.splits {text : List Char} (turns : Turns part text nodes rest) : ∃ taken, text = taken ++ rest := by
  induction turns with
  | done => exact ⟨[], rfl⟩
  | turn reads _ ih =>
    obtain ⟨front, rfl⟩ := reads.splits
    obtain ⟨back, rfl⟩ := ih
    exact ⟨front ++ back, (List.append_assoc _ _ _).symm⟩

theorem Turns.append {text between : List Char} {after : List Node} (turns : Turns part text nodes between)
    (others : Turns part between after rest) : Turns part text (nodes ++ after) rest := by
  induction turns with
  | done => exact others
  | turn reads _ ih =>
    rw [List.append_assoc]
    exact .turn reads (ih others)

theorem reads_many_iff {text : List Char} (advances : part.advances) :
    (Grammar.many part).Reads text nodes rest ↔ Turns part text nodes rest ∧ part.Misses rest := by
  constructor
  · intro reads
    induction hn : text.length using Nat.strongRecOn generalizing text nodes with
    | ind n ih =>
      rcases reads.of_many with ⟨_, _, _, turn, shorter, others, rfl⟩ | ⟨missed, rfl, rfl⟩
      · obtain ⟨turns, missed⟩ := ih _ (hn ▸ shorter) others rfl
        exact ⟨.turn turn turns, missed⟩
      · exact ⟨.done, missed⟩
  · rintro ⟨turns, missed⟩
    induction turns with
    | done => exact missed.many
    | turn reads _ ih => exact reads.many advances (ih missed)

/-- Turns are swapped from the last to the first: each finds that nothing it has looked for is there, for the
turn after it. -/
theorem Turns.swap (h : Swaps sought part) (advances : part.advances)
    (hx : ∀ other ∈ sought, Excludes sought part other)
    (swapped : Swapped rest other) (fits : ∀ part ∈ sought, part.Misses rest → part.Misses other)
    (turns : Turns part (taken ++ rest) nodes rest) : Turns part (taken ++ other) nodes other ∧
      ∀ part ∈ sought, part.Misses (taken ++ rest) → part.Misses (taken ++ other) := by
  generalize whole : taken ++ rest = text at turns
  induction turns generalizing taken with
  | @done text =>
    obtain rfl : taken = [] := (List.append_left_inj text).mp whole
    exact ⟨.done, fits⟩
  | @turn text between last nodes more reads others ih =>
    subst whole
    obtain ⟨back, rfl⟩ := others.splits
    obtain ⟨front, split⟩ := reads.splits
    obtain rfl : taken = front ++ back := (List.append_left_inj last).mp (by rw [split, List.append_assoc])
    obtain ⟨turns, later⟩ := ih swapped fits rfl
    rw [List.append_assoc] at reads ⊢
    have reads' := h (swapped.append back) later reads
    have goes : front ≠ [] := by
      rintro rfl
      exact absurd (reads.length_lt advances) (Nat.lt_irrefl _)
    refine ⟨.turn reads' turns, fun other hother missed => ?_⟩
    rw [List.append_assoc] at missed
    exact hx other hother goes (swapped.append back) later reads missed

theorem Turns.excludes {absent : Grammar} (h : Swaps sought part) (advances : part.advances)
    (hx : ∀ other ∈ sought, Excludes sought part other) (apart : Excludes sought part absent) (goes : taken ≠ [])
    (swapped : Swapped rest other) (fits : ∀ part ∈ sought, part.Misses rest → part.Misses other)
    (turns : Turns part (taken ++ rest) nodes rest) (missed : absent.Misses (taken ++ rest)) :
    absent.Misses (taken ++ other) := by
  generalize whole : taken ++ rest = text at turns missed
  cases turns with
  | done => exact absurd ((List.append_left_inj rest).mp whole) goes
  | @turn _ between _ nodes more reads others =>
    obtain ⟨back, rfl⟩ := others.splits
    obtain ⟨front, rfl⟩ := reads.splits
    obtain rfl : taken = front ++ back := (List.append_left_inj rest).mp (by rw [whole, List.append_assoc])
    have later := (others.swap h advances hx swapped fits).2
    rw [List.append_assoc]
    refine apart ?_ (swapped.append back) later reads missed
    rintro rfl
    exact absurd (reads.length_lt advances) (Nat.lt_irrefl _)

theorem Turns.misses {absent : Grammar} (h : Swaps sought part) (advances : part.advances)
    (hx : ∀ other ∈ sought, Excludes sought part other) (apart : Excludes sought part absent)
    (swapped : Swapped rest other) (fits : ∀ part ∈ sought, part.Misses rest → part.Misses other)
    (direct : absent.Misses rest → absent.Misses other) (turns : Turns part (taken ++ rest) nodes rest)
    (missed : absent.Misses (taken ++ rest)) : absent.Misses (taken ++ other) := by
  by_cases goes : taken = []
  · subst goes
    exact direct missed
  · exact turns.excludes h advances hx apart goes swapped fits missed

theorem Excludes.many {absent : Grammar} (h : Swaps sought part) (advances : part.advances)
    (hx : ∀ other ∈ sought, Excludes sought part other) (apart : Excludes sought part absent) :
    Excludes sought (.many part) absent :=
  fun _ _ _ _ goes swapped fits reads missed =>
    ((reads_many_iff advances).mp reads).1.excludes h advances hx apart goes swapped fits missed

theorem Swaps.many (h : Swaps sought part) (advances : part.advances)
    (hx : ∀ other ∈ sought, Excludes sought part other) : Swaps (part :: sought) (.many part) := by
  intro taken rest other nodes swapped fits reads
  obtain ⟨turns, missed⟩ := (reads_many_iff advances).mp reads
  have fits' : ∀ part ∈ sought, part.Misses rest → part.Misses other :=
    fun part hpart => fits part (List.mem_cons_of_mem _ hpart)
  exact (reads_many_iff advances).mpr
    ⟨(turns.swap h advances hx swapped fits').1, fits part List.mem_cons_self missed⟩

end Combinators

/-- Whether a grammar misses what stands after blanks and is refused by these lexemes. -/
def Grammar.blockedAfterBlanks (refused : Lexeme → Bool) (grammar : Grammar) : Bool :=
  (grammar.blocked refused && blankStarts.all fun c => grammar.blocked (refusedAt c)) ||
    match grammar with
    | .seq first second => first = Grammar.blanks && second.blocked refused
    | _ => false

/-- Whether a grammar is another one, or has it as an alternative. -/
def Grammar.offers : Grammar → Grammar → Bool
  | .choice first second, unit => first.offers unit || second.offers unit
  | grammar, unit => grammar = unit

theorem misses_of_offers {unit part : Grammar} {text : List Char} (offers : part.offers unit)
    (missed : part.Misses text) :
    unit.Misses text := by
  induction part with
  | choice first second ihf ihs =>
    have both := missed.of_choice
    exact (Bool.or_eq_true_iff.mp offers).elim (ihf · both.1) (ihs · both.2)
  | _ => exact of_decide_eq_true offers ▸ missed

theorem Excludes.of_offers {sought : List Grammar} {part absent : Grammar} (offers : absent.offers part) :
    Excludes sought part absent :=
  fun _ _ _ _ _ _ _ reads missed => absurd (misses_of_offers offers missed) reads.not_misses

/-- Whether a grammar that is missed where there is such an opening is still missed when what follows is swapped:
the opening is read by it, or nothing that it begins with can be read there. -/
def Opening.bars (opening : Opening) (grammar : Grammar) : Bool :=
  grammar.offers opening.grammar ||
    if opening.spaced then
      Grammar.blank.blocked (refusedWith opening.first) && grammar.blockedAfterBlanks (refusedWith opening.first)
    else grammar.blocked (refusedWith opening.first)

/-- Whether all openings of a grammar bar another one. -/
def Grammar.bars (grammar absent : Grammar) : Bool := grammar.openings.all (·.bars absent)

theorem misses_of_blockedAfterBlanks {part : Grammar} {refused : Lexeme → Bool} {text between : List Char}
    (gap : Grammar.blanks.Reads text nodes between) (refuses : Refuses refused between)
    (blocks : part.blockedAfterBlanks refused) : part.Misses text := by
  rcases Bool.or_eq_true_iff.mp blocks with blocks | blocks
  · obtain ⟨direct, marks⟩ := Bool.and_eq_true_iff.mp blocks
    obtain ⟨front, rfl⟩ := gap.splits
    cases front with
    | nil => exact Grammar.misses_of_blocked refuses direct
    | cons c front =>
      have start : c ∈ blankStarts := by
        by_contra visible
        have same := (gap.unique (blank_misses visible (front ++ between)).many).2
        have longer := congrArg List.length same
        simp only [List.length_append, List.length_cons] at longer
        omega
      exact Grammar.misses_of_blocked (refuses_at c _) (List.all_eq_true.mp marks c start)
  · split at blocks
    case h_1 first second =>
      simp only [Bool.and_eq_true, decide_eq_true_eq] at blocks
      obtain ⟨rfl, blocks⟩ := blocks
      exact gap.seq_misses (Grammar.misses_of_blocked refuses blocks)
    case h_2 => contradiction

theorem excludes_of_bars {part absent : Grammar} (bars : part.bars absent) : Excludes [] part absent := by
  intro taken rest other nodes goes swapped _ reads missed
  have moved : rest.length < (taken ++ rest).length := by
    simpa [List.length_append] using List.length_pos_iff.mpr goes
  obtain ⟨opening, mem, _, between, found, fits⟩ := Grammar.opening_of_reads reads moved
  obtain ⟨head, split⟩ := found.splits
  obtain ⟨front, rfl⟩ : rest <:+ between :=
    List.suffix_of_suffix_length_le ⟨taken, rfl⟩ ⟨head, split.symm⟩ fits
  obtain rfl : taken = head ++ front := (List.append_left_inj rest).mp (by rw [split, List.append_assoc])
  rcases Bool.or_eq_true_iff.mp (List.all_eq_true.mp bars opening mem) with same | blocks
  · exact absurd (misses_of_offers same missed) found.not_misses
  rw [List.append_assoc] at found ⊢
  obtain ⟨spaced, piece⟩ := opening
  cases spaced with
  | false => exact Grammar.misses_of_blocked (refuses_swap found (swapped.append front)) blocks
  | true =>
    obtain ⟨visible, blocks⟩ := Bool.and_eq_true_iff.mp blocks
    obtain ⟨_, _, between, gap, lexeme, -⟩ := found.of_seq
    obtain ⟨spaces, word, rfl, rfl⟩ := split_between gap lexeme
    have refuses := refuses_swap lexeme (swapped.append front)
    rw [List.append_assoc] at gap ⊢
    have gap' := blanks_swaps ((swapped.append front).append word) (fun part hpart _ => by
      rw [List.mem_singleton.mp hpart]
      exact Grammar.misses_of_blocked refuses visible) gap
    exact misses_of_blockedAfterBlanks gap' refuses blocks

namespace Grammar

section Known

variable (known : List (Grammar × List Grammar))

/-- What a grammar looks for where it ends. -/
def sought (grammar : Grammar) : List Grammar :=
  (known.lookup grammar).getD <|
    match grammar with
    | .lexeme piece => piece.sought
    | .group => []
    | .seq first second | .branch _ first second => second.sought ++ if second.advances then [] else first.sought
    | .choice first second => first.sought ++ second.sought
    | .optional part | .many part => part :: part.sought
    | .butNot _ part | .cut part | .context _ part | .leaf _ part | .trimmedLeaf _ part => part.sought

/-- Whether all decisions on the way are seen from what is read next. -/
def steady (grammar : Grammar) : Bool :=
  (known.lookup grammar).isSome ||
    match grammar with
    | .lexeme piece => piece.steady
    | .group => true
    | .seq first second | .branch _ first second =>
      first.steady && second.steady && (first.sought known).all second.bars
    | .choice first second => first.steady && second.steady && second.advances && second.bars first
    | .optional part | .cut part | .context _ part | .leaf _ part | .trimmedLeaf _ part => part.steady
    | .many part => part.steady && part.advances && (part.sought known).all part.bars
    | .butNot barred part => part.steady && part.advances && part.bars barred

end Known

/-- A steady grammar swaps, if those do that it is made of and that are known otherwise. -/
theorem swaps_of_steady {known : List (Grammar × List Grammar)} (swaps : ∀ pair ∈ known, Swaps pair.2 pair.1)
    {grammar : Grammar} (steady : grammar.steady known) : Swaps (grammar.sought known) grammar := by
  have bar {absent part : Grammar} {more : List Grammar} (bars : part.bars absent) : Excludes more part absent :=
    (excludes_of_bars bars).mono (List.nil_subset _)
  have all {sought more : List Grammar} {part : Grammar} (bars : sought.all part.bars) :
      ∀ absent ∈ sought, Excludes more part absent :=
    fun absent habsent => bar (List.all_eq_true.mp bars absent habsent)
  -- what is known of a grammar goes before what it is made of
  have settle {grammar : Grammar} {own : List Grammar} {made : Bool}
      (steady : (known.lookup grammar).isSome || made) (reads : made → Swaps own grammar) :
      Swaps ((known.lookup grammar).getD own) grammar := by
    cases found : known.lookup grammar with
    | some sought =>
      obtain ⟨front, back, rfl, -⟩ := List.lookup_eq_some_iff.mp found
      exact swaps (grammar, sought) (by simp)
    | none =>
      rw [found] at steady
      exact reads steady
  induction grammar with
  | lexeme piece => exact settle steady piece.swaps
  | group => exact settle steady fun _ => group_swaps
  | seq first second ihf ihs =>
    refine settle steady fun steady => ?_
    simp only [Bool.and_eq_true] at steady
    exact (ihf steady.1.1).seq (ihs steady.1.2) (all steady.2)
  | choice first second ihf ihs =>
    refine settle steady fun steady => ?_
    simp only [Bool.and_eq_true] at steady
    exact (ihf steady.1.1.1).choice (ihs steady.1.1.2) steady.1.2 (bar steady.2)
  | optional part ih => exact settle steady fun steady => (ih steady).optional
  | many part ih =>
    refine settle steady fun steady => ?_
    simp only [Bool.and_eq_true] at steady
    exact (ih steady.1.1).many steady.1.2 (all steady.2)
  | butNot barred part _ ih =>
    refine settle steady fun steady => ?_
    simp only [Bool.and_eq_true] at steady
    exact (ih steady.1.1).butNot steady.1.2 (bar steady.2)
  | cut part ih => exact settle steady fun steady => (ih steady).cut
  | context what part ih => exact settle steady fun steady => (ih steady).context
  | leaf kind part ih => exact settle steady fun steady => (ih steady).leaf
  | trimmedLeaf kind part ih => exact settle steady fun steady => (ih steady).trimmedLeaf
  | branch kind name body ihn ihb =>
    refine settle steady fun steady => ?_
    simp only [Bool.and_eq_true] at steady
    exact (ihn steady.1.1).branch (ihb steady.1.2) (all steady.2)

end Grammar

end DdlModels.Sql
