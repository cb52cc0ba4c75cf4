import DdlModels.Proofs.Words

/-!
# Looking ahead

If a text is refused by every lexeme that a grammar may begin with, then the grammar misses it, or reads
nothing of it. This is computed for a grammar from the lexemes that are refused, and a word or a single
character tells which these are.
-/

namespace DdlModels.Sql

namespace Grammar

mutual
/-- Whether a grammar misses every text that these lexemes refuse. -/
def blocked (refused : Lexeme → Bool) : Grammar → Bool
  | .lexeme piece => refused piece
  | .group => refused (.symbol '(')
  | .seq first second => first.blocked refused || first.idle refused && second.blocked refused
  | .choice first second => first.blocked refused && second.blocked refused
  | .optional _ | .many _ | .butNot _ _ | .cut _ => false
  | .context _ part | .leaf _ part | .trimmedLeaf _ part => part.blocked refused
  | .branch _ name _ => name.blocked refused
/-- Whether a grammar reads nothing of every text that these lexemes refuse. -/
def idle (refused : Lexeme → Bool) : Grammar → Bool
  | .seq first second => first.idle refused && second.idle refused
  | .choice first second => first.blocked refused && second.idle refused
  | .optional part | .many part => part.blocked refused
  | _ => false
end

end Grammar

/-- None of these lexemes can be read at the beginning of a text. -/
def Refuses (refused : Lexeme → Bool) (text : List Char) : Prop :=
  ∀ piece, refused piece → ∃ errors, piece.read text = .miss errors

namespace Grammar

variable {refused : Lexeme → Bool} {text : List Char}

private theorem lookahead (h : Refuses refused text) (grammar : Grammar) :
    (grammar.blocked refused → grammar.Misses text) ∧
      (grammar.idle refused → grammar.Reads text [] text) := by
  induction grammar with
  | lexeme piece => exact ⟨h piece, by simp [idle]⟩
  | group =>
    refine ⟨?_, by simp [idle]⟩
    intro open_refused
    obtain ⟨left, missed⟩ := h _ open_refused
    have body : groupBody.Misses text :=
      Misses.seq_first (Misses.seq_first ⟨left, missed⟩)
    obtain ⟨last, gone⟩ := body
    exact ⟨last, by rw [read_group, gone]⟩
  | seq first second ihf ihs =>
    refine ⟨?_, ?_⟩
    · intro blocks
      rcases Bool.or_eq_true_iff.mp blocks with blocks | blocks
      · exact (ihf.1 blocks).seq_first
      · have both := Bool.and_eq_true_iff.mp blocks
        exact (ihf.2 both.1).seq_misses (ihs.1 both.2)
    · intro idles
      have both := Bool.and_eq_true_iff.mp idles
      exact (ihf.2 both.1).seq (ihs.2 both.2)
  | choice first second ihf ihs =>
    refine ⟨?_, ?_⟩
    · intro blocks
      have both := Bool.and_eq_true_iff.mp blocks
      exact (ihf.1 both.1).choice (ihs.1 both.2)
    · intro idles
      have both := Bool.and_eq_true_iff.mp idles
      exact (ihf.1 both.1).orElse (ihs.2 both.2)
  | optional part ih =>
    refine ⟨by simp [blocked], ?_⟩
    intro idles
    exact (ih.1 idles).optional
  | many part ih =>
    refine ⟨by simp [blocked], ?_⟩
    intro idles
    exact (ih.1 idles).many
  | butNot | cut => simp [blocked, idle]
  | context what part ih => exact ⟨fun blocks => (ih.1 blocks).context what, by simp [idle]⟩
  | leaf kind part ih => exact ⟨fun blocks => (ih.1 blocks).leaf kind, by simp [idle]⟩
  | trimmedLeaf kind part ih => exact ⟨fun blocks => (ih.1 blocks).trimmedLeaf kind, by simp [idle]⟩
  | branch kind name body ih _ => exact ⟨fun blocks => (ih.1 blocks).branch kind, by simp [idle]⟩

theorem misses_of_blocked {grammar : Grammar} (h : Refuses refused text)
    (blocks : grammar.blocked refused) : grammar.Misses text :=
  (lookahead h grammar).1 blocks

theorem reads_of_idle {grammar : Grammar} (h : Refuses refused text)
    (idles : grammar.idle refused) : grammar.Reads text [] text :=
  (lookahead h grammar).2 idles

end Grammar

/-- The lexemes that cannot begin with a character. -/
def refusedAt (c : Char) : Lexeme → Bool
  | .symbol d => c != d
  | .keyword name =>
    match name.toList with
    | [] => false
    | k :: _ => Text.lowerChar c != Text.lowerChar k
  | .wordAmong _ | .word => !Text.isWordChar c
  | .digits => !c.isDigit
  | .spaces => !isSpace c
  | .lineComment => c != '-' && c != '#'
  | .blockComment => c != '/'
  | .quoted quote => c != quote
  | .run stops => stops.contains c

theorem readRun_until {kind : ErrorKind} {member : Char → Bool} {before rest : List Char} (nonempty : before ≠ [])
    (all : ∀ c ∈ before, member c) (stop : ∀ c ∈ rest.head?, member c = false) :
    readRun kind member (before ++ rest) = .ok [] before rest := by
  obtain ⟨take, drop⟩ := Text.span_until all stop
  simp [readRun, take, drop, nonempty]

private theorem readRun_miss {kind : ErrorKind} {member : Char → Bool} {c : Char} (h : member c = false)
    (text : List Char) : readRun kind member (c :: text) = .miss [(c :: text, kind)] := by
  simp [readRun, h]

theorem refuses_at (c : Char) (text : List Char) : Refuses (refusedAt c) (c :: text) := by
  intro piece refused
  cases piece with
  | symbol d =>
    simp only [refusedAt, bne_iff_ne] at refused
    exact ⟨[(c :: text, .char d)], by simp [Lexeme.read, readSymbol, refused]⟩
  | keyword name =>
    cases hname : name.toList with
    | nil => simp [refusedAt, hname] at refused
    | cons k keyword =>
      simp only [refusedAt, hname, bne_iff_ne] at refused
      exact ⟨[(c :: text, .tag)], by simp [Lexeme.read, hname, readKeyword, agree, refused]⟩
  | wordAmong words =>
    have missed : readRun .takeWhile1 Text.isWordChar (c :: text) = _ :=
      readRun_miss (by simpa [refusedAt] using refused) text
    exact ⟨_, by rw [Lexeme.read, readWordAmong, missed]⟩
  | word => exact ⟨_, readRun_miss (by simpa [refusedAt] using refused) text⟩
  | digits => exact ⟨_, readRun_miss (by simpa [refusedAt] using refused) text⟩
  | spaces => exact ⟨_, readRun_miss (by simpa [refusedAt] using refused) text⟩
  | run stops => exact ⟨_, readRun_miss (by simpa [refusedAt] using refused) text⟩
  | lineComment =>
    simp only [refusedAt, Bool.and_eq_true, bne_iff_ne] at refused
    refine ⟨[(c :: text, .tag), (c :: text, .alt)], ?_⟩
    change readLineComment (c :: text) = _
    rw [readLineComment]
    · rintro rest ⟨rfl, -⟩
      exact refused.1 rfl
    · rintro rest ⟨rfl, -⟩
      exact refused.2 rfl
  | blockComment =>
    simp only [refusedAt, bne_iff_ne] at refused
    refine ⟨[(c :: text, .tag)], ?_⟩
    change readBlockComment (c :: text) = _
    rw [readBlockComment]
    rintro rest ⟨rfl, -⟩
    exact refused rfl
  | quoted quote =>
    simp only [refusedAt, bne_iff_ne] at refused
    exact ⟨[(c :: text, .char quote)], by simp [Lexeme.read, readQuoted, refused]⟩

/-- The lexemes that cannot begin with a word that spells a keyword. -/
def refusedAtWord (spelled : String) : Lexeme → Bool
  | .symbol d => !Text.isWordChar d
  | .keyword name => name.toList.all Text.isKeywordChar && name != spelled
  | .wordAmong words => !words.contains spelled
  | .spaces | .lineComment | .blockComment => true
  | .quoted quote => !Text.isWordChar quote
  | .word | .digits | .run _ => false

/-- A word that spells a keyword is what a text begins with. -/
structure BeginsWithWord (name : String) (word rest : List Char) : Prop where
  spells : Text.Spells name word
  nonempty : name ≠ ""
  chars : name.toList.all Text.isKeywordChar
  ends : Text.WordEnds rest

namespace BeginsWithWord

variable {name : String} {word rest : List Char}

theorem keywordChars (h : BeginsWithWord name word rest) : ∀ c ∈ word, Text.isKeywordChar c.toUpper :=
  h.spells.keywordChars h.chars

theorem wordChars (h : BeginsWithWord name word rest) : ∀ c ∈ word, Text.isWordChar c :=
  fun c hc => Text.isWordChar_of_spelled (h.keywordChars c hc)

theorem word_ne_nil (h : BeginsWithWord name word rest) : word ≠ [] := by
  rintro rfl
  have empty : name.toList = [] := h.spells.symm
  exact h.nonempty (by simpa using empty)

theorem readRun_eq (h : BeginsWithWord name word rest) :
    readRun .takeWhile1 Text.isWordChar (word ++ rest) = .ok [] word rest :=
  readRun_until h.word_ne_nil h.wordChars fun c hc => (h.ends c hc).2

theorem readKeyword_eq (h : BeginsWithWord name word rest) :
    readKeyword name.toList (word ++ rest) = .ok [] word rest :=
  (readKeyword_word (List.all_eq_true.mp h.chars) h.keywordChars h.ends).1 h.spells

theorem readWordAmong_eq (h : BeginsWithWord name word rest) {words : List String}
    (hname : name ∈ words) : readWordAmong words (word ++ rest) = .ok [] word rest := by
  have known : (words.any fun candidate => candidate.toList == word.map Char.toUpper) = true := by
    refine List.any_eq_true.mpr ⟨name, hname, ?_⟩
    rw [show word.map Char.toUpper = name.toList from h.spells]
    exact beq_self_eq_true _
  simp [readWordAmong, h.readRun_eq, known]

theorem refuses (h : BeginsWithWord name word rest) : Refuses (refusedAtWord name) (word ++ rest) := by
  obtain ⟨c, more, rfl⟩ := List.exists_cons_of_ne_nil h.word_ne_nil
  have hc := h.wordChars c List.mem_cons_self
  have start := refuses_at c (more ++ rest)
  intro piece refused
  cases piece with
  | symbol d =>
    refine start _ ?_
    simp only [refusedAtWord, Bool.not_eq_true'] at refused
    simp only [refusedAt, bne_iff_ne]
    rintro rfl
    simp [refused] at hc
  | keyword other =>
    simp only [refusedAtWord, Bool.and_eq_true, bne_iff_ne] at refused
    refine (readKeyword_word (List.all_eq_true.mp refused.1) h.keywordChars h.ends).2 ?_
    intro same
    rw [show (c :: more).map Char.toUpper = name.toList from h.spells] at same
    exact refused.2 (String.toList_injective same.symm)
  | wordAmong words =>
    simp only [refusedAtWord, Bool.not_eq_true', List.contains_eq_mem, decide_eq_false_iff_not] at refused
    have unknown : (words.any fun candidate => candidate.toList == (c :: more).map Char.toUpper) = false := by
      rw [show (c :: more).map Char.toUpper = name.toList from h.spells]
      refine List.any_eq_false.mpr ?_
      intro candidate hcandidate
      simp only [beq_iff_eq]
      intro same
      exact refused (String.toList_injective same ▸ hcandidate)
    refine ⟨[((c :: more) ++ rest, .tag)], ?_⟩
    change readWordAmong words (c :: more ++ rest) = _
    rw [readWordAmong, h.readRun_eq]
    simp only [unknown, Bool.false_eq_true, if_false]
  | spaces =>
    refine start _ ?_
    simp only [refusedAt, Bool.not_eq_true', isSpace, Bool.or_eq_false_iff, beq_eq_false_iff_ne]
    refine ⟨⟨⟨?_, ?_⟩, ?_⟩, ?_⟩ <;> rintro rfl <;> exact absurd hc (by decide)
  | lineComment =>
    refine start _ ?_
    simp only [refusedAt, Bool.and_eq_true, bne_iff_ne]
    refine ⟨?_, ?_⟩ <;> rintro rfl <;> exact absurd hc (by decide)
  | blockComment =>
    refine start _ ?_
    simp only [refusedAt, bne_iff_ne]
    rintro rfl
    exact absurd hc (by decide)
  | quoted quote =>
    refine start _ ?_
    simp only [refusedAtWord, Bool.not_eq_true'] at refused
    simp only [refusedAt, bne_iff_ne]
    rintro rfl
    simp [refused] at hc
  | word | digits | run => contradiction

theorem keyword_reads (h : BeginsWithWord name word rest) :
    (Grammar.keyword name).Reads (word ++ rest) [] rest :=
  ⟨word, h.readKeyword_eq⟩

theorem wordAmong_reads (h : BeginsWithWord name word rest) {words : List String}
    (hname : name ∈ words) : (Grammar.wordAmong words).Reads (word ++ rest) [] rest :=
  ⟨word, h.readWordAmong_eq hname⟩

theorem anyKeyword_reads {first : String} {others : List String} (h : BeginsWithWord name word rest)
    (known : name ∈ first :: others) (proper : ∀ other ∈ first :: others, other.toList.all Text.isKeywordChar) :
    (Grammar.anyKeyword first others).Reads (word ++ rest) [] rest := by
  induction others generalizing first with
  | nil =>
    obtain rfl := List.mem_singleton.mp known
    exact h.keyword_reads
  | cons next others ih =>
    by_cases same : name = first
    · subst same
      exact h.keyword_reads.orElse
    · have blocked : (Grammar.keyword first).blocked (refusedAtWord name) :=
        Bool.and_eq_true_iff.mpr ⟨proper first List.mem_cons_self, bne_iff_ne.mpr (Ne.symm same)⟩
      exact (Grammar.misses_of_blocked h.refuses blocked).orElse
        (ih ((List.mem_cons.mp known).resolve_left same) fun other hother =>
          proper other (List.mem_cons_of_mem first hother))

end BeginsWithWord

end DdlModels.Sql
