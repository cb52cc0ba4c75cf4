import DdlModels.Proofs.ColumnEnds

/-!
# Openings

What a grammar reads begins with one of its openings: a lexeme, perhaps after blanks. Where this can be read,
other lexemes cannot, so that a grammar that can only begin with those is known to miss.
-/

namespace DdlModels.Sql

open Text

variable {text taken rest word : List Char} {nodes : List Node} {name other : String}

private theorem splitBytes?_length {count : Nat} (h : splitBytes? count text = some (taken, rest)) :
    taken.length ≤ count := by
  induction text generalizing count taken with
  | nil =>
    cases count with
    | zero => simp_all [splitBytes?]
    | succ count => simp [splitBytes?] at h
  | cons c text ih =>
    cases count with
    | zero => simp_all [splitBytes?]
    | succ count =>
      rw [splitBytes?] at h
      split at h
      case h_1 inner left found =>
        obtain ⟨rfl, rfl⟩ := Prod.mk.inj (Option.some.inj h)
        have positive := c.utf8Size_pos
        have shorter := ih found
        rw [List.length_cons]
        omega
      case h_2 => contradiction

private theorem map_lowerChar_of_agree {keyword : List Char} (same : word.length = keyword.length)
    (agrees : agree word keyword) : word.map lowerChar = keyword.map lowerChar := by
  induction keyword generalizing word with
  | nil => simpa using same
  | cons k keyword ih =>
    cases word with
    | nil => contradiction
    | cons c word =>
      obtain ⟨first, others⟩ := Bool.and_eq_true_iff.mp agrees
      rw [List.map_cons, List.map_cons, beq_iff_eq.mp first, ih (Nat.succ.inj same) others]

theorem toUpper_lowerChar {c : Char} (h : isKeywordChar c) : (lowerChar c).toUpper = c :=
  forall_ascii (P := fun c => isKeywordChar c → (lowerChar c).toUpper = c) (by decide)
    (keywordChar_ascii h) h

theorem head_of_continuesWord (h : continuesWord text = false) : ∀ c ∈ text.head?, isWordChar c = false := by
  intro c hc
  obtain ⟨text, rfl⟩ := List.head?_eq_some_iff.mp hc
  exact h

theorem continuesWord_of_head (stop : ∀ c ∈ text.head?, isWordChar c = false) : continuesWord text = false := by
  cases text with
  | nil => rfl
  | cons c text => exact stop c rfl

theorem readRun_eq_ok {kind : ErrorKind} {member : Char → Bool}
    (h : readRun kind member (taken ++ rest) = .ok nodes taken rest) :
    nodes = [] ∧ taken ≠ [] ∧ (∀ c ∈ taken, member c) ∧ ∀ c ∈ rest.head?, member c = false := by
  rw [readRun] at h
  split at h
  case isTrue => contradiction
  case isFalse nonempty =>
    obtain ⟨rfl, first, last⟩ := Reply.ok.inj h
    refine ⟨rfl, ?_, fun c hc => List.mem_takeWhile_imp (first ▸ hc), ?_⟩
    · rw [← first]
      simpa using nonempty
    · intro c hc
      rw [← last] at hc
      have stop := List.head?_dropWhile_not member (taken ++ rest)
      rw [hc] at stop
      simpa using stop

theorem readWordAmong_eq_ok {words : List String} : readWordAmong words text = .ok nodes taken rest ↔
    readRun .takeWhile1 isWordChar text = .ok nodes taken rest ∧
      (words.any fun candidate => candidate.toList == taken.map Char.toUpper) = true := by
  rw [readWordAmong]
  cases readRun .takeWhile1 isWordChar text with
  | ok inner word left =>
    simp only
    split
    case isTrue known =>
      refine ⟨fun same => ?_, fun both => both.1⟩
      obtain ⟨rfl, rfl, rfl⟩ := Reply.ok.inj same
      exact ⟨rfl, known⟩
    case isFalse unknown =>
      refine ⟨fun same => by contradiction, fun both => ?_⟩
      obtain ⟨rfl, rfl, rfl⟩ := Reply.ok.inj both.1
      exact absurd both.2 unknown
  | miss | fail => simp

/-- A text begins with a word that is the given one up to letter case, and goes on after it. -/
structure BeginsAlike (name : String) (word rest : List Char) : Prop where
  chars : name.toList.all isKeywordChar
  same : word.map lowerChar = name.toList.map lowerChar
  ends : continuesWord rest = false
  more : rest ≠ []

namespace BeginsAlike

theorem wordChars (h : BeginsAlike name word rest) : ∀ c ∈ word, isWordChar c := by
  intro c hc
  have lower : lowerChar c ∈ name.toList.map lowerChar := h.same ▸ List.mem_map_of_mem hc
  obtain ⟨k, hk, equal⟩ := List.mem_map.mp lower
  by_contra other
  exact lowerChar_ne_of_not_wordChar (by simpa using other) (List.all_eq_true.mp h.chars k hk) equal.symm

theorem of_keyword (chars : name.toList.all isKeywordChar) (more : rest ≠ [])
    (reads : (Grammar.keyword name).Reads (word ++ rest) nodes rest) : BeginsAlike name word rest := by
  have found : readKeyword name.toList (word ++ rest) = .ok nodes word rest := reads.read_eq
  have ends := continuesWord_of_reads found
  rw [readKeyword] at found
  split at found
  case isFalse => contradiction
  case isTrue agrees =>
    split at found
    case h_2 => contradiction
    case h_1 head left parts =>
      split at found
      case isTrue => contradiction
      case isFalse =>
        obtain ⟨-, rfl, rfl⟩ := Reply.ok.inj found
        have fits := splitBytes?_length parts
        rw [byteSize_ascii fun k hk => keywordChar_ascii (List.all_eq_true.mp chars k hk)] at fits
        -- a longer keyword would go on where no word does
        have long : name.toList.length ≤ head.length := by
          by_contra short
          obtain ⟨d, left, rfl⟩ := List.exists_cons_of_ne_nil more
          have other (k : Char) (hk : k ∈ name.toList) : lowerChar d ≠ lowerChar k :=
            lowerChar_ne_of_not_wordChar ends (List.all_eq_true.mp chars k hk)
          rw [not_agree_of_lt (Nat.lt_of_not_le short) other] at agrees
          contradiction
        rw [agree_append_of_le long] at agrees
        exact ⟨chars, map_lowerChar_of_agree (Nat.le_antisymm fits long) agrees, ends, more⟩

theorem of_wordAmong {words : List String} (chars : words.all (·.toList.all isKeywordChar)) (more : rest ≠ [])
    (reads : (Grammar.wordAmong words).Reads (word ++ rest) nodes rest) :
    ∃ name ∈ words, BeginsAlike name word rest := by
  obtain ⟨run, known⟩ := readWordAmong_eq_ok.mp (show readWordAmong words (word ++ rest) = _ from reads.read_eq)
  obtain ⟨-, -, -, stop⟩ := readRun_eq_ok run
  obtain ⟨name, hname, same⟩ := List.any_eq_true.mp known
  have spelled : word.map Char.toUpper = name.toList := (beq_iff_eq.mp same).symm
  have named := List.all_eq_true.mp chars name hname
  refine ⟨name, hname, named, ?_, continuesWord_of_head stop, more⟩
  rw [← spelled, List.map_map]
  refine List.map_congr_left fun c hc => ?_
  have letter : isKeywordChar c.toUpper := List.all_eq_true.mp named _ (spelled ▸ List.mem_map_of_mem hc)
  exact (lowerChar_eq_iff_toUpper_eq letter letter).mpr rfl

theorem unique (h : BeginsAlike name word rest) (again : BeginsAlike other word rest) : other = name := by
  have upper {keyword : List Char} (chars : ∀ k ∈ keyword, isKeywordChar k) :
      (keyword.map lowerChar).map Char.toUpper = keyword := by
    rw [List.map_map]
    exact (List.map_congr_left fun k hk => toUpper_lowerChar (chars k hk)).trans (List.map_id keyword)
  refine String.toList_injective ?_
  rw [← upper (List.all_eq_true.mp h.chars), ← upper (List.all_eq_true.mp again.chars), ← h.same, ← again.same]

theorem readRun_eq (h : BeginsAlike name word rest) (nonempty : word ≠ []) :
    readRun .takeWhile1 isWordChar (word ++ rest) = .ok [] word rest :=
  readRun_until nonempty h.wordChars (head_of_continuesWord h.ends)

end BeginsAlike

/-- The lexemes that cannot begin with a character of words. -/
def refusedAtWordChar : Lexeme → Bool
  | .symbol c | .quoted c => !isWordChar c
  | .spaces | .lineComment | .blockComment => true
  | _ => false

theorem refuses_wordChar {c : Char} (h : isWordChar c) (text : List Char) : Refuses refusedAtWordChar (c :: text) := by
  intro piece refused
  refine refuses_at c text piece ?_
  have other {d : Char} (hd : isWordChar d = false) : c ≠ d := by
    rintro rfl
    rw [h] at hd
    contradiction
  cases piece with
  | symbol d | quoted d =>
    have plain : isWordChar d = false := by
      rw [← Bool.not_eq_true']
      exact refused
    exact bne_iff_ne.mpr (other plain)
  | spaces =>
    have all : ∀ d ∈ [' ', '\t', '\n', '\x0d'], isWordChar d = false := forall_among (by decide)
    simpa [refusedAt, isSpace, and_assoc] using fun d hd => other (all d hd)
  | lineComment => simpa [refusedAt] using ⟨other (d := '-') (by decide), other (d := '#') (by decide)⟩
  | blockComment => simpa [refusedAt] using other (d := '/') (by decide)
  | keyword | wordAmong | word | digits | run => contradiction

/-- The lexemes that cannot begin with a word that is the given one up to letter case. -/
def refusedBeside (name : String) (piece : Lexeme) : Bool :=
  match name.toList with
  | [] => false
  | k :: _ =>
    refusedAtWordChar piece ||
      match piece with
      | .symbol d => lowerChar d != lowerChar k
      | .keyword other => other.toList.all isKeywordChar && other != name
      | .wordAmong words => words.all (·.toList.all isKeywordChar) && !words.contains name
      | .digits => !(lowerChar k).isDigit
      | _ => false

theorem BeginsAlike.refuses (h : BeginsAlike name word rest) : Refuses (refusedBeside name) (word ++ rest) := by
  intro piece refused
  rw [refusedBeside] at refused
  split at refused
  case h_1 => contradiction
  case h_2 k keyword spelled =>
    obtain ⟨c, others, rfl⟩ : ∃ c others, word = c :: others := by
      have same := h.same
      cases word with
      | nil => simp [spelled] at same
      | cons c others => exact ⟨c, others, rfl⟩
    have lower : lowerChar c = lowerChar k := by
      have same := h.same
      rw [spelled] at same
      exact (List.cons.inj same).1
    have start := refuses_at c (others ++ rest)
    rcases Bool.or_eq_true_iff.mp refused with refused | refused
    · exact refuses_wordChar (h.wordChars c List.mem_cons_self) _ piece refused
    cases piece with
    | symbol d =>
      refine start _ ?_
      simp only [refusedAt, bne_iff_ne] at refused ⊢
      rintro rfl
      exact refused lower
    | keyword other =>
      simp only [Bool.and_eq_true, bne_iff_ne] at refused
      rcases readKeyword_swap (List.all_eq_true.mp refused.1) h.wordChars h.ends h.ends Iff.rfl with
        ⟨found, -⟩ | ⟨missed, -⟩
      · exact absurd (h.unique (.of_keyword refused.1 h.more ⟨_, found⟩)) refused.2
      · exact missed
    | wordAmong words =>
      simp only [Bool.and_eq_true, Bool.not_eq_true', List.contains_eq_mem, decide_eq_false_iff_not] at refused
      have whole := h.readRun_eq (List.cons_ne_nil c others)
      cases reply : readWordAmong words (c :: others ++ rest) with
      | miss errors => exact ⟨errors, reply⟩
      | ok nodes taken left =>
        obtain ⟨-, rfl, rfl⟩ := Reply.ok.inj (whole.symm.trans (readWordAmong_eq_ok.mp reply).1)
        obtain ⟨other, hother, again⟩ := BeginsAlike.of_wordAmong refused.1 h.more ⟨_, reply⟩
        exact absurd (h.unique again ▸ hother) refused.2
      | fail failure =>
        rw [readWordAmong, whole] at reply
        simp only at reply
        split at reply <;> contradiction
    | digits =>
      refine start _ ?_
      simp only [refusedAt, Bool.not_eq_true'] at refused ⊢
      by_contra digit
      have digit : c.isDigit := by simpa using digit
      have plain : ∀ c ∈ "0123456789".toList, lowerChar c = c := forall_among (by decide)
      rw [← lower, plain c (mem_digits_of_isDigit digit), digit] at refused
      contradiction
    | word | spaces | lineComment | blockComment | quoted | run => contradiction

/-- The lexemes that cannot be read where the given one is. -/
def refusedWith : Lexeme → Lexeme → Bool
  | .symbol c, piece | .quoted c, piece => refusedAt c piece
  | .keyword name, piece => name.toList.all isKeywordChar && refusedBeside name piece
  | .wordAmong words, piece => words.all fun name => name.toList.all isKeywordChar && refusedBeside name piece
  | .word, piece => refusedAtWordChar piece
  | .digits, piece => "0123456789".toList.all (refusedAt · piece)
  | .spaces, piece => " \t\n\x0d".toList.all (refusedAt · piece)
  | .lineComment, piece => "-#".toList.all (refusedAt · piece)
  | .blockComment, piece => refusedAt '/' piece
  | .run stops, .symbol c | .run stops, .quoted c => stops.contains c
  | .run _, _ => false

/-- A lexeme, perhaps after blanks. -/
structure Opening where
  spaced : Bool
  first : Lexeme

def Opening.grammar (opening : Opening) : Grammar :=
  if opening.spaced then Grammar.blanks ++ .lexeme opening.first else .lexeme opening.first

def Opening.afterBlanks (opening : Opening) : Opening := { opening with spaced := true }

namespace Grammar

/-- What may stand first where a grammar reads something. -/
def openings : Grammar → List Opening
  | .lexeme piece => [⟨false, piece⟩]
  | .group => [⟨false, .symbol '('⟩]
  | .seq first second =>
    if first = blanks ∧ second.advances then second.openings.map Opening.afterBlanks
    else first.openings ++ if first.advances then [] else second.openings
  | .choice first second => first.openings ++ second.openings
  | .optional part | .many part | .butNot _ part | .cut part | .context _ part | .leaf _ part | .trimmedLeaf _ part =>
    part.openings
  | .branch _ name body => name.openings ++ if name.advances then [] else body.openings

theorem Reads.of_butNot {barred part : Grammar} (h : (Grammar.butNot barred part).Reads text nodes rest) :
    barred.Misses text ∧ part.Reads text nodes rest := by
  obtain ⟨taken, found⟩ := h
  rw [read_butNot] at found
  cases missed : barred.read text with
  | miss left =>
    rw [missed] at found
    exact ⟨⟨left, missed⟩, taken, found⟩
  | ok | fail => simp [missed, Reply.bar] at found

theorem Misses.butNot {barred part : Grammar} (h : barred.Misses text) (reads : part.Reads text nodes rest) :
    (Grammar.butNot barred part).Reads text nodes rest := by
  obtain ⟨left, missed⟩ := h
  obtain ⟨taken, found⟩ := reads
  exact ⟨taken, by rw [read_butNot, missed]; exact found⟩

theorem Reads.butNot_misses {barred part : Grammar} (h : barred.Reads text nodes rest) :
    (Grammar.butNot barred part).Misses text := by
  obtain ⟨taken, found⟩ := h
  exact ⟨_, by rw [read_butNot, found]; rfl⟩

theorem Misses.of_leaf {kind : NodeKind} {part : Grammar} (h : (Grammar.leaf kind part).Misses text) :
    part.Misses text := by
  obtain ⟨left, missed⟩ := h
  rw [read_leaf] at missed
  cases hpart : part.read text with
  | miss last => exact ⟨last, hpart⟩
  | ok | fail => simp [hpart, Reply.gather] at missed

theorem blanks_twice {between : List Char} (gap : blanks.Reads text nodes between) :
    blanks.Reads between [] between := by
  obtain ⟨whole, visible⟩ := blanks_read text
  obtain ⟨-, rfl⟩ := gap.unique whole
  exact visible.many

variable {between start : List Char} {more : List Node}

theorem reads_afterBlanks {opening : Opening} (gap : blanks.Reads text nodes start)
    (reads : opening.grammar.Reads start more between) :
    ∃ more, opening.afterBlanks.grammar.Reads text more between := by
  obtain ⟨spaced, first⟩ := opening
  cases spaced with
  | false => exact ⟨_, gap.seq reads⟩
  | true =>
    obtain ⟨_, _, _, again, lexeme, -⟩ := reads.of_seq
    obtain ⟨-, rfl⟩ := again.unique (blanks_twice gap)
    exact ⟨_, gap.seq lexeme⟩

/-- Of two grammars one after the other, the one that takes something first shows its opening. -/
private theorem opening_of_either {first second : Grammar} {nodes more : List Node}
    (ihf : between.length < text.length → ∃ opening ∈ first.openings, ∃ more start,
      opening.grammar.Reads text more start ∧ between.length ≤ start.length)
    (ihs : rest.length < between.length → ∃ opening ∈ second.openings, ∃ more start,
      opening.grammar.Reads between more start ∧ rest.length ≤ start.length)
    (hfirst : first.Reads text nodes between) (hsecond : second.Reads between more rest)
    (moved : rest.length < text.length) :
    ∃ opening ∈ first.openings ++ (if first.advances then [] else second.openings), ∃ more start,
      opening.grammar.Reads text more start ∧ rest.length ≤ start.length := by
  by_cases shorter : between.length < text.length
  · obtain ⟨opening, mem, more, start, found, fits⟩ := ihf shorter
    exact ⟨opening, List.mem_append_left _ mem, more, start, found, hsecond.length_le.trans fits⟩
  · obtain ⟨taken, rfl⟩ := hfirst.splits
    obtain rfl : taken = [] := by
      rw [List.length_append] at shorter
      exact List.eq_nil_of_length_eq_zero (by omega)
    obtain ⟨opening, mem, found⟩ := ihs moved
    have idle : ¬ first.advances := fun advances => absurd (hfirst.length_lt advances) (Nat.lt_irrefl _)
    refine ⟨opening, List.mem_append_right _ ?_, found⟩
    rwa [if_neg idle]

/-- A grammar that takes something begins with one of its openings. -/
theorem opening_of_reads {grammar : Grammar} (reads : grammar.Reads text nodes rest)
    (moved : rest.length < text.length) :
    ∃ opening ∈ grammar.openings, ∃ more between, opening.grammar.Reads text more between ∧
      rest.length ≤ between.length := by
  induction grammar generalizing text nodes rest with
  | lexeme piece => exact ⟨_, List.mem_singleton_self _, nodes, rest, reads, Nat.le_refl _⟩
  | group =>
    -- a group begins with its parenthesis
    have jump := Leap.groups_describes.over_eq reads
    simp only [Leap.groups] at jump
    split at jump
    case h_1 inner =>
      exact ⟨_, List.mem_singleton_self _, [], inner, symbol_reads '(' inner, (groupEnd?_length jump).le⟩
    case h_2 => contradiction
  | seq first second ihf ihs =>
    obtain ⟨_, _, between, hfirst, hsecond, rfl⟩ := Reads.of_seq reads
    rw [openings]
    -- blanks in front are told apart, for what is behind them decides
    split
    case isTrue spaced =>
      obtain ⟨rfl, advances⟩ := spaced
      obtain ⟨opening, mem, more, start, found, fits⟩ := ihs hsecond (hsecond.length_lt advances)
      obtain ⟨more, found⟩ := reads_afterBlanks hfirst found
      exact ⟨_, List.mem_map_of_mem mem, more, start, found, fits⟩
    case isFalse =>
      exact opening_of_either (ihf hfirst) (ihs hsecond) hfirst hsecond moved
  | choice first second ihf ihs =>
    rcases Reads.of_choice reads with reads | ⟨-, reads⟩
    · obtain ⟨opening, mem, found⟩ := ihf reads moved
      exact ⟨opening, List.mem_append_left _ mem, found⟩
    · obtain ⟨opening, mem, found⟩ := ihs reads moved
      exact ⟨opening, List.mem_append_right _ mem, found⟩
  | optional part ih =>
    rcases reads.of_optional with reads | ⟨-, -, rfl⟩
    · exact ih reads moved
    · exact absurd moved (Nat.lt_irrefl _)
  | many part ih =>
    rcases reads.of_many with ⟨_, _, between, turn, shorter, others, -⟩ | ⟨-, -, rfl⟩
    · obtain ⟨opening, mem, more, start, found, fits⟩ := ih turn shorter
      exact ⟨opening, mem, more, start, found, others.length_le.trans fits⟩
    · exact absurd moved (Nat.lt_irrefl _)
  | butNot barred part _ ih => exact ih reads.of_butNot.2 moved
  | cut part ih => exact ih reads.of_cut moved
  | context what part ih => exact ih reads.of_context moved
  | leaf kind part ih =>
    obtain ⟨_, _, -, inner, -⟩ := reads.of_leaf
    exact ih inner moved
  | trimmedLeaf kind part ih =>
    obtain ⟨_, _, -, inner, -⟩ := reads.of_trimmedLeaf
    exact ih inner moved
  | branch kind name body ihn ihb =>
    obtain ⟨_, _, _, between, -, named, inner, -⟩ := reads.of_branch
    exact opening_of_either (ihn named) (ihb inner) named inner moved

end Grammar

end DdlModels.Sql
