import DdlModels.Proofs.Stopping

/-!
# Words in any case

A word spells a keyword if its ASCII letters agree with it up to case. Where a word ends, such a keyword
is read whole, and every other keyword is refused.
-/

namespace DdlModels.Text

def isKeywordChar (c : Char) : Bool := c.isUpper || c.isDigit || c == '_'

/-- A word is a keyword up to the case of ASCII letters. -/
def Spells (name : String) (word : List Char) : Prop := word.map Char.toUpper = name.toList

instance (name : String) (word : List Char) : Decidable (Spells name word) :=
  inferInstanceAs (Decidable (_ = _))

theorem Spells.keywordChars {name : String} {word : List Char} (h : Spells name word)
    (chars : name.toList.all isKeywordChar) : ∀ c ∈ word, isKeywordChar c.toUpper := by
  intro c hc
  have spelled : c.toUpper ∈ word.map Char.toUpper := List.mem_map_of_mem hc
  rw [show word.map Char.toUpper = name.toList from h] at spelled
  exact List.all_eq_true.mp chars _ spelled

/-- No word goes on at the beginning of a text, in ASCII. -/
def WordEnds (text : List Char) : Prop := ∀ c ∈ text.head?, c.toNat < 128 ∧ isWordChar c = false

theorem toUpper_toNat_lt {c : Char} (h : c.toUpper.toNat < 128) : c.toNat < 128 := by
  by_cases lower : c.isLower
  · exact ascii_of_isLower lower
  · have same : c.toUpper = c := by
      refine dif_neg ?_
      intro between
      exact lower (isLower_iff.mpr between)
    rwa [same] at h

theorem keywordChar_ascii {c : Char} (h : isKeywordChar c) : c.toNat < 128 := by
  simp only [isKeywordChar, Bool.or_eq_true, beq_iff_eq] at h
  rcases h with (h | h) | rfl
  · exact ascii_of_isUpper h
  · exact ascii_of_isDigit h
  · decide

variable {c k : Char}

private theorem spelled_ascii (h : isKeywordChar c.toUpper) : c.toNat < 128 :=
  toUpper_toNat_lt (keywordChar_ascii h)

private theorem spelled_facts (h : isKeywordChar c.toUpper) :
    isWordChar c ∧ lowerChar c = lowerChar c.toUpper ∧ (lowerChar c).toUpper = c.toUpper := by
  have all : isKeywordChar c.toUpper →
      isWordChar c ∧ lowerChar c = lowerChar c.toUpper ∧ (lowerChar c).toUpper = c.toUpper :=
    forall_ascii (P := fun c => isKeywordChar c.toUpper →
      isWordChar c ∧ lowerChar c = lowerChar c.toUpper ∧ (lowerChar c).toUpper = c.toUpper)
      (by decide) (spelled_ascii h)
  exact all h

private theorem keywordChar_facts (h : isKeywordChar k) :
    isWordChar (lowerChar k) ∧ (lowerChar k).toUpper = k := by
  have all : isKeywordChar k → isWordChar (lowerChar k) ∧ (lowerChar k).toUpper = k :=
    forall_ascii (P := fun k => isKeywordChar k → isWordChar (lowerChar k) ∧ (lowerChar k).toUpper = k)
      (by decide) (keywordChar_ascii h)
  exact all h

private theorem lowerChar_of_not_word (ascii : c.toNat < 128) (h : isWordChar c = false) :
    lowerChar c = c := by
  have all : isWordChar c = false → lowerChar c = c :=
    forall_ascii (P := fun c => isWordChar c = false → lowerChar c = c) (by decide) ascii
  exact all h

theorem isWordChar_of_spelled (h : isKeywordChar c.toUpper) : isWordChar c := (spelled_facts h).1

theorem lowerChar_eq_iff_toUpper_eq (hc : isKeywordChar c.toUpper) (hk : isKeywordChar k) :
    lowerChar c = lowerChar k ↔ c.toUpper = k := by
  have spelled := spelled_facts hc
  have named := keywordChar_facts hk
  constructor
  · intro h
    rw [← spelled.2.2, h, named.2]
  · intro h
    rw [spelled.2.1, h]

theorem lowerChar_ne_of_not_word (ascii : c.toNat < 128) (h : isWordChar c = false)
    (hk : isKeywordChar k) : lowerChar c ≠ lowerChar k := by
  intro same
  have word := (keywordChar_facts hk).1
  rw [← same, lowerChar_of_not_word ascii h, h] at word
  contradiction

/-- No capital but the Kelvin sign has an ASCII letter as its lower-case form. -/
private theorem caseRuns_beyond_ascii :
    ∀ run ∈ caseRuns, 128 ≤ run.target ∨ run.first = 0x212A ∧ run.last = 0x212A := by decide +kernel

theorem lowerChar_of_not_ascii (foreign : 128 ≤ c.toNat) (kelvin : c ≠ '\u212A') :
    128 ≤ (lowerChar c).toNat ∨ lowerChar c = '\x00' := by
  rw [lowerChar, if_neg (Nat.not_lt.mpr foreign)]
  cases found : caseRuns.find? (·.covers c.toNat) with
  | none => exact .inl foreign
  | some run =>
    have covers := List.find?_some found
    simp only [CaseRun.covers, Bool.and_eq_true, decide_eq_true_eq] at covers
    have beyond : 128 ≤ run.target := by
      rcases caseRuns_beyond_ascii run (List.mem_of_find?_eq_some found) with h | ⟨first, last⟩
      · exact h
      · have code : c.toNat = 0x212A := by omega
        exact absurd (Char.toNat_inj.mp code) kelvin
    simp only
    by_cases valid : (run.target + (c.toNat - run.first)).isValidChar
    · left
      have code : Char.ofNat (run.target + (c.toNat - run.first)) = Char.ofNatAux _ valid := dif_pos valid
      rw [code]
      change 128 ≤ run.target + (c.toNat - run.first)
      omega
    · exact .inr (dif_neg valid)

theorem ascii_of_lowerChar_eq (h : lowerChar c = lowerChar k) (hk : isKeywordChar k)
    (kelvin : c ≠ '\u212A') : c.toNat < 128 := by
  by_contra foreign
  have named : isKeywordChar k → (lowerChar k).toNat < 128 ∧ lowerChar k ≠ '\x00' :=
    forall_ascii (P := fun k => isKeywordChar k → (lowerChar k).toNat < 128 ∧ lowerChar k ≠ '\x00')
      (by decide) (keywordChar_ascii hk)
  have ascii := named hk
  rcases lowerChar_of_not_ascii (Nat.not_lt.mp foreign) kelvin with far | null
  · rw [h] at far
    omega
  · exact ascii.2 (h ▸ null)

theorem lowerChar_ne_of_not_wordChar {c k : Char} (h : isWordChar c = false) (hk : isKeywordChar k) :
    lowerChar c ≠ lowerChar k := by
  intro same
  have kelvin : c ≠ '\u212A' := by
    rintro rfl
    have word : isWordChar '\u212A' = true := by decide +kernel
    rw [word] at h
    contradiction
  exact lowerChar_ne_of_not_word (ascii_of_lowerChar_eq same hk kelvin) h hk same

theorem splitBytes?_longer {count : Nat} {text : List Char} (h : count ≤ byteSize text) (more : List Char) :
    splitBytes? count (text ++ more) = (splitBytes? count text).map fun split => (split.1, split.2 ++ more) := by
  induction text generalizing count with
  | nil =>
    obtain rfl : count = 0 := Nat.le_zero.mp h
    simp [splitBytes?]
  | cons c text ih =>
    cases count with
    | zero => rfl
    | succ count =>
      have fits : count + 1 - c.utf8Size ≤ byteSize text := by
        rw [byteSize] at h
        omega
      rw [List.cons_append, splitBytes?, splitBytes?, ih fits]
      cases splitBytes? (count + 1 - c.utf8Size) text <;> rfl

theorem length_le_byteSize (text : List Char) : text.length ≤ byteSize text := by
  induction text with
  | nil => exact Nat.le_refl 0
  | cons c text ih =>
    have positive := c.utf8Size_pos
    simp only [byteSize, List.length_cons]
    omega

theorem utf8Size_of_ascii {c : Char} (h : c.toNat < 128) : c.utf8Size = 1 := by
  have small : c.val ≤ 0x7F := by
    rw [UInt32.le_iff_toNat_le]
    exact Nat.le_of_lt_succ h
  simp [Char.utf8Size, small]

theorem byteSize_ascii {text : List Char} (h : ∀ c ∈ text, c.toNat < 128) : byteSize text = text.length := by
  induction text with
  | nil => rfl
  | cons c text ih =>
    have size := utf8Size_of_ascii (h c List.mem_cons_self)
    have inner := ih fun d hd => h d (List.mem_cons_of_mem c hd)
    simp only [byteSize, List.length_cons, size]
    omega

end DdlModels.Text

namespace DdlModels.Sql

open Text

theorem readKeyword_cons_eq_ok {c k : Char} {keyword text taken rest : List Char} {nodes : List Node}
    (hc : c.toNat < 128) (hk : k.toNat < 128) :
    readKeyword (k :: keyword) (c :: text) = .ok nodes taken rest ↔
      lowerChar c = lowerChar k ∧
        ∃ more, taken = c :: more ∧ readKeyword keyword text = .ok nodes more rest := by
  have total : byteSize (k :: keyword) = byteSize keyword + 1 := by
    simp [byteSize, utf8Size_of_ascii hk, Nat.add_comm]
  by_cases same : lowerChar c = lowerChar k
  · simp only [readKeyword, agree, same, beq_self_eq_true, Bool.true_and, total, splitBytes?,
      utf8Size_of_ascii hc,
      Nat.add_sub_cancel, true_and]
    by_cases agrees : agree text keyword
    · simp only [agrees, if_true]
      cases found : splitBytes? (byteSize keyword) text with
      | none => simp
      | some split =>
        obtain ⟨more, left⟩ := split
        by_cases continues : continuesWord left
        · simp [continues]
        · simp only [continues, Bool.false_eq_true, if_false, Reply.ok.injEq]
          constructor
          · rintro ⟨rfl, rfl, rfl⟩
            exact ⟨more, rfl, rfl, rfl, rfl⟩
          · rintro ⟨_, rfl, rfl, rfl, rfl⟩
            exact ⟨rfl, rfl, rfl⟩
    · simp [agrees]
  · simp [readKeyword, agree, same]

theorem readKeyword_ok_or_miss (keyword text : List Char) :
    (∃ taken rest, readKeyword keyword text = .ok [] taken rest) ∨
      ∃ errors, readKeyword keyword text = .miss errors := by
  fun_cases readKeyword keyword text with
  | case2 _ taken rest found continues => exact .inl ⟨taken, rest, rfl⟩
  | case1 | case3 | case4 => exact .inr ⟨_, rfl⟩

private theorem continuesWord_of_wordEnds {text : List Char} (h : WordEnds text) :
    continuesWord text = false := by
  cases text with
  | nil => rfl
  | cons c text => exact (h c rfl).2

theorem readKeyword_word {keyword word rest : List Char} (hkeyword : ∀ k ∈ keyword, isKeywordChar k)
    (hword : ∀ c ∈ word, isKeywordChar c.toUpper) (hrest : WordEnds rest) :
    (word.map Char.toUpper = keyword → readKeyword keyword (word ++ rest) = .ok [] word rest) ∧
      (word.map Char.toUpper ≠ keyword → ∃ errors, readKeyword keyword (word ++ rest) = .miss errors) := by
  suffices h : (word.map Char.toUpper = keyword → readKeyword keyword (word ++ rest) = .ok [] word rest) ∧
      ∀ nodes taken left, readKeyword keyword (word ++ rest) = .ok nodes taken left →
        word.map Char.toUpper = keyword by
    refine ⟨h.1, ?_⟩
    intro other
    rcases readKeyword_ok_or_miss keyword (word ++ rest) with ⟨taken, left, found⟩ | missed
    · exact absurd (h.2 _ _ _ found) other
    · exact missed
  -- on the keyword, along with the word: their characters have to agree one by one
  induction keyword generalizing word with
  | nil =>
    cases word with
    | nil =>
      refine ⟨?_, by simp⟩
      intro _
      have ends := continuesWord_of_wordEnds hrest
      cases rest <;> simp [readKeyword, agree, byteSize, splitBytes?, ends]
    | cons c word =>
      refine ⟨by simp, ?_⟩
      have goes := isWordChar_of_spelled (hword c List.mem_cons_self)
      simp [readKeyword, agree, byteSize, splitBytes?, continuesWord, goes]
  | cons k keyword ih =>
    have hk := hkeyword k List.mem_cons_self
    have hkeyword' : ∀ k ∈ keyword, isKeywordChar k :=
      fun other hother => hkeyword other (List.mem_cons_of_mem k hother)
    cases word with
    | nil =>
      refine ⟨by simp, ?_⟩
      intro nodes taken left found
      cases rest with
      | nil =>
        have positive : byteSize (k :: keyword) ≠ 0 := by
          have := k.utf8Size_pos
          simp [byteSize]
          omega
        obtain ⟨count, hcount⟩ := Nat.exists_eq_succ_of_ne_zero positive
        simp [readKeyword, agree, hcount, splitBytes?] at found
      | cons d rest =>
        have hd := hrest d rfl
        have same := ((readKeyword_cons_eq_ok hd.1 (keywordChar_ascii hk)).mp found).1
        exact absurd same (lowerChar_ne_of_not_word hd.1 hd.2 hk)
    | cons c word =>
      have hc := hword c List.mem_cons_self
      have step := @ih word hkeyword' fun other hother => hword other (List.mem_cons_of_mem c hother)
      have ascii := toUpper_toNat_lt (keywordChar_ascii hc)
      rw [List.cons_append]
      refine ⟨?_, ?_⟩
      · intro same
        obtain ⟨hsame, htail⟩ := List.cons.inj same
        exact (readKeyword_cons_eq_ok ascii (keywordChar_ascii hk)).mpr
          ⟨(lowerChar_eq_iff_toUpper_eq hc hk).mpr hsame, word, rfl, step.1 htail⟩
      · intro nodes taken left found
        obtain ⟨same, more, rfl, next⟩ :=
          (readKeyword_cons_eq_ok ascii (keywordChar_ascii hk)).mp found
        rw [List.map_cons, (lowerChar_eq_iff_toUpper_eq hc hk).mp same, step.2 _ _ _ next]

theorem agree_append_of_le {keyword word : List Char} (h : keyword.length ≤ word.length) (rest : List Char) :
    agree (word ++ rest) keyword = agree word keyword := by
  induction keyword generalizing word with
  | nil => cases word <;> cases rest <;> rfl
  | cons k keyword ih =>
    cases word with
    | nil => contradiction
    | cons c word =>
      rw [List.cons_append, agree, agree, ih (Nat.le_of_succ_le_succ h)]

theorem not_agree_of_lt {keyword word : List Char} {c : Char} (h : word.length < keyword.length)
    (other : ∀ k ∈ keyword, lowerChar c ≠ lowerChar k) (rest : List Char) :
    agree (word ++ c :: rest) keyword = false := by
  induction keyword generalizing word with
  | nil => contradiction
  | cons k keyword ih =>
    cases word with
    | nil => simp [agree, other k List.mem_cons_self]
    | cons d word =>
      have inner := ih (Nat.lt_of_succ_lt_succ h) fun k hk => other k (List.mem_cons_of_mem _ hk)
      rw [List.cons_append, agree, inner, Bool.and_false]

theorem continuesWord_of_reads {keyword text taken rest : List Char} {nodes : List Node}
    (h : readKeyword keyword text = .ok nodes taken rest) : continuesWord rest = false := by
  rw [readKeyword] at h
  split at h
  case isTrue =>
    split at h
    case h_1 =>
      split at h
      case isTrue => contradiction
      case isFalse ends =>
        obtain ⟨-, -, rfl⟩ := Reply.ok.inj h
        simpa using ends
    case h_2 => contradiction
  case isFalse => contradiction

private theorem readKeyword_within {keyword word rest : List Char} (chars : ∀ k ∈ keyword, isKeywordChar k)
    (hword : ∀ c ∈ word, isWordChar c) (long : keyword.length ≤ word.length) (hrest : continuesWord rest = false) :
    readKeyword keyword (word ++ rest) =
      if agree word keyword then
        match splitBytes? (byteSize keyword) word with
        | some (_, []) => .ok [] word rest
        | some (_, c :: left) => .miss [(c :: left ++ rest, .not)]
        | none => .miss [(word ++ rest, .tag)]
      else .miss [(word ++ rest, .tag)] := by
  have size : byteSize keyword = keyword.length := byteSize_ascii fun k hk => keywordChar_ascii (chars k hk)
  have fits := length_le_byteSize word
  rw [readKeyword, agree_append_of_le long, splitBytes?_longer (by omega)]
  cases found : splitBytes? (byteSize keyword) word with
  | none => rfl
  | some split =>
    obtain ⟨taken, left⟩ := split
    have parts := splitBytes?_append found
    cases left with
    | nil =>
      rw [List.append_nil] at parts
      simp [parts, hrest]
    | cons c left =>
      have goes : isWordChar c := hword c (by rw [parts]; simp)
      simp [continuesWord, goes]

private theorem readKeyword_beyond {keyword word : List Char} {c : Char} (chars : ∀ k ∈ keyword, isKeywordChar k)
    (short : word.length < keyword.length) (hc : isWordChar c = false) (rest : List Char) :
    ∃ errors, readKeyword keyword (word ++ c :: rest) = .miss errors := by
  have disagree := not_agree_of_lt short (fun k hk => lowerChar_ne_of_not_wordChar hc (chars k hk)) rest
  exact ⟨_, by rw [readKeyword, disagree]; rfl⟩

private theorem readKeyword_whole {keyword word : List Char} (hword : ∀ c ∈ word, isWordChar c) :
    readKeyword keyword word = .ok [] word [] ∨ ∃ errors, readKeyword keyword word = .miss errors := by
  rcases readKeyword_ok_or_miss keyword word with ⟨taken, left, found⟩ | missed
  · have split := readKeyword_splits keyword word
    rw [found] at split
    have parts : word = taken ++ left := split
    have stops := continuesWord_of_reads found
    cases left with
    | nil =>
      rw [List.append_nil] at parts
      exact .inl (parts ▸ found)
    | cons c left =>
      have goes : isWordChar c := hword c (by rw [parts]; simp)
      simp [continuesWord, goes] at stops
  · exact .inr missed

/-- Whether a keyword is read up to the end of a word does not depend on what stands there. -/
theorem readKeyword_swap {keyword word rest other : List Char} (chars : ∀ k ∈ keyword, isKeywordChar k)
    (hword : ∀ c ∈ word, isWordChar c) (hrest : continuesWord rest = false)
    (hother : continuesWord other = false) (ends : rest = [] ↔ other = []) :
    (readKeyword keyword (word ++ rest) = .ok [] word rest ∧
        readKeyword keyword (word ++ other) = .ok [] word other) ∨
      (∃ errors, readKeyword keyword (word ++ rest) = .miss errors) ∧
        ∃ errors, readKeyword keyword (word ++ other) = .miss errors := by
  by_cases long : keyword.length ≤ word.length
  · rw [readKeyword_within chars hword long hrest, readKeyword_within chars hword long hother]
    split
    · cases splitBytes? (byteSize keyword) word with
      | none => exact .inr ⟨⟨_, rfl⟩, ⟨_, rfl⟩⟩
      | some split =>
        obtain ⟨taken, left⟩ := split
        cases left with
        | nil => exact .inl ⟨rfl, rfl⟩
        | cons c left => exact .inr ⟨⟨_, rfl⟩, ⟨_, rfl⟩⟩
    · exact .inr ⟨⟨_, rfl⟩, ⟨_, rfl⟩⟩
  · have short : word.length < keyword.length := Nat.lt_of_not_le long
    cases rest with
    | nil =>
      obtain rfl := ends.mp rfl
      rw [List.append_nil]
      exact (readKeyword_whole hword).imp (fun found => ⟨found, found⟩) fun missed => ⟨missed, missed⟩
    | cons d rest =>
      cases other with
      | nil => exact absurd (ends.mpr rfl) (List.cons_ne_nil d rest)
      | cons e other =>
        exact .inr ⟨readKeyword_beyond chars short hrest rest, readKeyword_beyond chars short hother other⟩

end DdlModels.Sql
