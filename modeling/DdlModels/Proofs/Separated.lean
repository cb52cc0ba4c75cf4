import DdlModels.Proofs.Longer
import DdlModels.Proofs.Simulation
import DdlModels.Proofs.Words

/-!
# Texts with more after a space

Words, numbers and most symbols are read alike when a space and more text follow. So are blanks, as long
as something else stands after them.
-/

namespace DdlModels.Sql

open Text Grammar

/-- The same reply with more text after the place where it stops. -/
def Reply.followedBy (more : List Char) : Reply → Reply
  | .ok nodes taken rest => .ok nodes taken (rest ++ more)
  | .miss errors => .miss (errors.move (· ++ more))
  | .fail failure => .fail (failure.move (· ++ more))

/-- What a grammar replies to a text does not change when more follows. -/
def Grammar.Continues (grammar : Grammar) (more text : List Char) : Prop :=
  grammar.read (text ++ more) = (grammar.read text).followedBy more

namespace Grammar.Continues

variable {grammar : Grammar} {text more rest : List Char} {nodes : List Node}

theorem reads (h : grammar.Continues more text) (found : grammar.Reads text nodes rest) :
    grammar.Reads (text ++ more) nodes (rest ++ more) := by
  obtain ⟨taken, found⟩ := found
  refine ⟨taken, ?_⟩
  rw [h, found]
  rfl

theorem of_reads (found : grammar.Reads text nodes rest)
    (again : grammar.Reads (text ++ more) nodes (rest ++ more)) : grammar.Continues more text := by
  obtain ⟨taken, split⟩ := found.splits
  subst split
  have same : grammar.read (taken ++ (rest ++ more)) = .ok nodes taken (rest ++ more) := by
    rw [List.append_assoc] at again
    exact again.read_eq
  rw [Continues, found.read_eq, List.append_assoc, same]
  rfl

theorem misses (h : grammar.Continues more text) (missed : grammar.Misses text) :
    grammar.Misses (text ++ more) := by
  obtain ⟨errors, missed⟩ := missed
  refine ⟨errors.move (· ++ more), ?_⟩
  rw [h, missed]
  rfl

end Grammar.Continues

/-- Likeness of texts at certain places with the same texts continued. -/
def Likeness.continued (places : List Char → Prop) (more : List Char) : Likeness where
  texts text other := places text ∧ other = text ++ more
  errors known known' := known' = known.move (· ++ more)
  taken text other := other = text
  nodes nodes others := others = nodes
  errors_nil := rfl
  errors_append := by
    rintro known _ text _ kind rfl ⟨-, rfl⟩
    exact (known.move_append _ [(text, kind)]).symm
  taken_nil := rfl
  taken_append := by
    rintro _ _ _ _ rfl rfl
    rfl
  nodes_nil := rfl
  nodes_append := by
    rintro _ _ _ _ rfl rfl
    rfl
  nodes_leaf := by
    rintro _ _ _ rfl
    rfl
  nodes_branch := by
    rintro _ _ _ _ _ rfl rfl
    rfl

theorem Reply.Alike.eq_followedBy {places : List Char → Prop} {more : List Char} {reply other : Reply}
    (h : Alike (.continued places more) reply other) : other = reply.followedBy more := by
  cases h with
  | ok nodes taken rest =>
    obtain ⟨-, rfl⟩ := rest
    obtain rfl := nodes
    obtain rfl := taken
    rfl
  | miss errors | fail errors =>
    obtain rfl := errors
    rfl
  | incomplete => rfl

/-- A grammar continues if its pieces do so at all places that reading may come to. -/
theorem Grammar.Continues.of_pieces {P : List Char → Prop} {piece : Grammar → Bool}
    {grammar : Grammar} {text more : List Char} (made : grammar.madeOf piece) (start : P text)
    (continues : ∀ part place, piece part → P place → part.Continues more place)
    (stays : ∀ part place, piece part → P place →
      ∀ nodes rest, part.Reads place nodes rest → P rest) : grammar.Continues more text := by
  have alike : Reply.Alike (.continued P more) (grammar.read text) (grammar.read (text ++ more)) := by
    refine read_alike made ⟨start, rfl⟩ ?_
    intro part place other hpiece _ texts
    rw [texts.2, continues part place hpiece texts.1]
    cases found : part.read place with
    | ok nodes taken rest =>
      exact .ok rfl rfl ⟨stays part place hpiece texts.1 nodes rest ⟨taken, found⟩, rfl⟩
    | miss errors => exact .miss rfl
    | fail failure =>
      cases failure with
      | incomplete => exact .incomplete
      | errors errors => exact .fail rfl
  exact alike.eq_followedBy

variable {text more : List Char}

theorem takeWhile_separated {member : Char → Bool} (text more : List Char) (apart : member ' ' = false) :
    (text ++ ' ' :: more).takeWhile member = text.takeWhile member ∧
      (text ++ ' ' :: more).dropWhile member = text.dropWhile member ++ ' ' :: more := by
  induction text with
  | nil => simp [apart]
  | cons c text ih =>
    cases hc : member c with
    | false => simp [hc]
    | true => simp [hc, ih]

theorem readRun_separated {kind : ErrorKind} {member : Char → Bool} (apart : member ' ' = false) :
    readRun kind member (text ++ ' ' :: more) = (readRun kind member text).followedBy (' ' :: more) := by
  have parts := takeWhile_separated text more apart
  rw [readRun, readRun, parts.1, parts.2]
  split <;> rfl

theorem readWordAmong_separated (words : List String) :
    readWordAmong words (text ++ ' ' :: more) = (readWordAmong words text).followedBy (' ' :: more) := by
  have run : readRun .takeWhile1 isWordChar (text ++ ' ' :: more) = _ := readRun_separated rfl
  rw [readWordAmong, readWordAmong, run]
  cases readRun .takeWhile1 isWordChar text with
  | ok nodes word rest =>
    simp only [Reply.followedBy]
    split <;> rfl
  | miss | fail => rfl

/-- Where a keyword ends, if the text agrees with it. -/
private def keywordEnd? (keyword text : List Char) : Option (List Char × List Char) :=
  if agree text keyword then splitBytes? (byteSize keyword) text else none

private theorem readKeyword_eq_end (keyword text : List Char) :
    readKeyword keyword text =
      match keywordEnd? keyword text with
      | some (taken, rest) => if continuesWord rest then .miss [(rest, .not)] else .ok [] taken rest
      | none => .miss [(text, .tag)] := by
  rw [readKeyword, keywordEnd?]
  by_cases agrees : agree text keyword
  · cases found : splitBytes? (byteSize keyword) text <;> simp [agrees]
  · simp [agrees]

private theorem keywordEnd?_cons {c k : Char} {keyword text : List Char} (hc : c.toNat < 128)
    (hk : k.toNat < 128) (same : lowerChar c = lowerChar k) :
    keywordEnd? (k :: keyword) (c :: text) =
      (keywordEnd? keyword text).map fun split => (c :: split.1, split.2) := by
  have total : byteSize (k :: keyword) = byteSize keyword + 1 := by
    simp [byteSize, utf8Size_of_ascii hk, Nat.add_comm]
  simp only [keywordEnd?, agree, same, beq_self_eq_true, Bool.true_and, total, splitBytes?,
    utf8Size_of_ascii hc, Nat.add_sub_cancel]
  split
  case isTrue => cases splitBytes? (byteSize keyword) text <;> rfl
  case isFalse => rfl

private theorem keywordEnd?_of_ne {c k : Char} {keyword text : List Char}
    (other : lowerChar c ≠ lowerChar k) : keywordEnd? (k :: keyword) (c :: text) = none := by
  simp [keywordEnd?, agree, other]

private theorem keywordEnd?_nil_right {k : Char} {keyword : List Char} :
    keywordEnd? (k :: keyword) [] = none := by
  have positive : byteSize (k :: keyword) ≠ 0 := by
    have := k.utf8Size_pos
    simp [byteSize]
    omega
  obtain ⟨count, hcount⟩ := Nat.exists_eq_succ_of_ne_zero positive
  simp [keywordEnd?, agree, hcount, splitBytes?]

private theorem keywordEnd?_separated {keyword : List Char} (chars : ∀ k ∈ keyword, isKeywordChar k)
    (kelvin : '\u212A' ∉ text) :
    keywordEnd? keyword (text ++ ' ' :: more) =
      (keywordEnd? keyword text).map fun split => (split.1, split.2 ++ ' ' :: more) := by
  induction keyword generalizing text with
  | nil => cases text <;> simp [keywordEnd?, agree, byteSize, splitBytes?]
  | cons k keyword ih =>
    have hk := chars k List.mem_cons_self
    cases text with
    | nil =>
      have space := lowerChar_ne_of_not_word (c := ' ') (by decide) (by decide) hk
      rw [List.nil_append, keywordEnd?_of_ne space, keywordEnd?_nil_right]
      rfl
    | cons c text =>
      rw [List.cons_append]
      by_cases same : lowerChar c = lowerChar k
      · have hc : c ≠ '\u212A' := fun h => kelvin (h ▸ List.mem_cons_self)
        have inner := ih (fun d hd => chars d (List.mem_cons_of_mem k hd))
          fun h => kelvin (List.mem_cons_of_mem c h)
        have ascii := ascii_of_lowerChar_eq same hk hc
        rw [keywordEnd?_cons ascii (keywordChar_ascii hk) same,
          keywordEnd?_cons ascii (keywordChar_ascii hk) same, inner]
        cases keywordEnd? keyword text <;> rfl
      · rw [keywordEnd?_of_ne same, keywordEnd?_of_ne same]
        rfl

theorem readKeyword_separated {keyword : List Char} (chars : ∀ k ∈ keyword, isKeywordChar k)
    (kelvin : '\u212A' ∉ text) :
    readKeyword keyword (text ++ ' ' :: more) = (readKeyword keyword text).followedBy (' ' :: more) := by
  rw [readKeyword_eq_end, readKeyword_eq_end, keywordEnd?_separated chars kelvin]
  cases keywordEnd? keyword text with
  | none => rfl
  | some split =>
    obtain ⟨taken, rest⟩ := split
    have ends : continuesWord (rest ++ ' ' :: more) = continuesWord rest := by
      cases rest <;> rfl
    simp only [Option.map_some, ends]
    split <;> rfl

theorem readSymbol_separated {c : Char} (apart : c ≠ ' ') :
    readSymbol c (text ++ ' ' :: more) = (readSymbol c text).followedBy (' ' :: more) := by
  cases text with
  | nil => simp [readSymbol, apart.symm, Reply.followedBy, Errors.move]
  | cons d text =>
    rw [List.cons_append, readSymbol, readSymbol]
    split <;> rfl

/-- Whether a lexeme is a word, digits or a symbol, none of which goes on over a space. -/
def Lexeme.plain : Lexeme → Bool
  | .symbol c => c != ' '
  | .keyword name => name.toList.all isKeywordChar
  | .wordAmong _ | .word | .digits => true
  | _ => false

theorem Lexeme.continues {piece : Lexeme} (plain : piece.plain) (kelvin : '\u212A' ∉ text) :
    (lexeme piece).Continues (' ' :: more) text := by
  cases piece with
  | symbol c => exact readSymbol_separated (by simpa [Lexeme.plain] using plain)
  | keyword name => exact readKeyword_separated (List.all_eq_true.mp plain) kelvin
  | wordAmong words => exact readWordAmong_separated words
  | word => exact readRun_separated rfl
  | digits => exact readRun_separated rfl
  | _ => contradiction

def Grammar.plainPiece : Grammar → Bool
  | .lexeme piece => piece.plain
  | _ => false

theorem Grammar.continues_of_plain {grammar : Grammar} (made : grammar.madeOf plainPiece)
    (kelvin : '\u212A' ∉ text) (more : List Char) : grammar.Continues (' ' :: more) text := by
  have stays {part : Grammar} {place rest : List Char} {nodes : List Node} (kelvin : '\u212A' ∉ place)
      (reads : part.Reads place nodes rest) : '\u212A' ∉ rest := by
    obtain ⟨taken, rfl⟩ := reads.splits
    exact fun inside => kelvin (List.mem_append_right taken inside)
  refine .of_pieces made kelvin ?_ fun _ _ _ kelvin _ _ reads => stays kelvin reads
  intro part place hpiece kelvin
  cases part with
  | lexeme piece => exact Lexeme.continues hpiece kelvin
  | _ => contradiction

theorem number_continues (kelvin : '\u212A' ∉ text) (more : List Char) :
    number.Continues (' ' :: more) text :=
  continues_of_plain (by decide) kelvin more

end DdlModels.Sql
