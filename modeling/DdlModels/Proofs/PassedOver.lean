import DdlModels.Proofs.Closing
import DdlModels.Proofs.Steps

/-!
# Statements that are passed over

A statement that begins with a word other than `CREATE` ends at its own semicolon, whatever stands inside
of its literals: what follows is read as if it stood alone, and only the places of errors move.
-/

namespace DdlModels.Sql

open Script Grammar Text

/-- If what is at the end of a script has the same tables and the same fault, then the trees are the same, and
an error is found as many bytes later as there are in front. -/
theorem parse_of_readFrom {script source : String} (ends : source.toList <:+ script.toList)
    (tables : (readFrom script.toList).tables = (readFrom source.toList).tables)
    (fault : (readFrom script.toList).fault = (readFrom source.toList).fault) :
    parse script = (parse source).mapError (·.later (byteSize script.toList - byteSize source.toList)) := by
  rw [parse, parse, readScript, readScript, Script.tree, Script.tree, fault, tables]
  cases found : (readFrom source.toList).fault with
  | none => rfl
  | some fault => exact congrArg Except.error ((fault_within found).report_later ends)

theorem Script.Foregoing.parse {front : List Char} (h : Foregoing front []) {script source : String}
    (split : script.toList = front ++ source.toList) :
    Sql.parse script = (Sql.parse source).mapError (·.later (byteSize front)) := by
  obtain ⟨tables, fault⟩ := h source.toList
  have size : byteSize script.toList - byteSize source.toList = byteSize front := by
    rw [split, byteSize_append]
    exact Nat.add_sub_cancel _ _
  rw [← split] at tables fault
  rw [← size]
  exact parse_of_readFrom (split ▸ List.suffix_append _ _) tables fault

variable {text rest after taken : List Char} {quote c : Char}

theorem next_of_plain (plain : c ∉ statementStops) (skips : skipBlanks text = c :: rest)
    (missed : tableStatement.Misses (c :: rest)) :
    ∃ taken, next text = .statement (.skipped taken) (scan Leap.literals statementStops (c :: rest)) := by
  have visible : ∀ left, c :: rest ≠ ';' :: left := by
    intro left same
    obtain rfl := (List.cons.inj same).1
    exact plain (by decide)
  have step : scan Leap.literals statementStops (c :: rest) = scan Leap.literals statementStops rest := by
    rw [scan_char (statementStops_quiet c plain rest), if_neg plain]
  have tail := statementTail_reads (c :: rest)
  obtain ⟨taken, split⟩ := (statementTail_reads rest).splits
  have whole : c :: rest = (c :: taken) ++ scan Leap.literals statementStops rest := by
    rw [List.cons_append, ← split]
  rw [step] at tail ⊢
  have found : statementTail.read (c :: rest) = .ok [] (c :: taken) (scan Leap.literals statementStops rest) := by
    rw [whole] at tail ⊢
    exact tail.read_eq
  exact ⟨c :: taken, next_of_skipped skips visible missed found⟩

/-- A statement that is passed over adds nothing. -/
theorem readFrom_of_skipped (step : next text = .statement (.skipped taken) rest) :
    (readFrom text).tables = (readFrom rest).tables ∧ (readFrom text).fault = (readFrom rest).fault := by
  rw [readFrom_eq, step]
  exact ⟨tables_cons _ _, rfl⟩

/-- Characters other than semicolons and quotes, and literals that are closed. -/
inductive Prose : List Char → Prop
  | nil : Prose []
  | plain {c : Char} {rest : List Char} : c ∉ statementStops → Prose rest → Prose (c :: rest)
  /-- A literal, which is not followed by its own quote. -/
  | literal {quote : Char} {text rest : List Char} : isQuote quote → ClosesBefore quote text rest →
      Prose rest → Prose (quote :: text)

theorem ClosesBefore.append (h : ClosesBefore quote text rest) (apart : after.head? ≠ some quote) :
    ClosesBefore quote (text ++ after) (rest ++ after) := by
  obtain ⟨single, pieces, inside, rfl⟩ := h
  refine ⟨?_, pieces, inside, by simp⟩
  cases rest with
  | nil => exact apart
  | cons c rest => exact single

theorem literals_over {quote : Char} (hquote : isQuote quote) (closes : ClosesBefore quote text rest) :
    Leap.literals.over? (quote :: text) = some rest := by
  have other : quote ≠ '\\' := by
    rintro rfl
    contradiction
  change literalRest? (quote :: text) = some rest
  rw [literalRest?, if_pos hquote, closes.readToClose other]

theorem Prose.scan (prose : Prose text) (plain : ∀ c ∈ after.head?, isQuote c = false) :
    scan Leap.literals statementStops (text ++ after) = scan Leap.literals statementStops after := by
  induction prose with
  | nil => rfl
  | plain hc _ ih => rw [List.cons_append, scan_char (statementStops_quiet _ hc _), if_neg hc, ih]
  | @literal quote text rest hquote closes _ ih =>
    have apart : after.head? ≠ some quote := by
      intro same
      rw [plain quote same] at hquote
      contradiction
    rw [List.cons_append, scan_leap (literals_over hquote (closes.append apart)), ih]

/-- These are the texts that a scan for the end of a statement goes through. -/
theorem prose_iff_scan : Prose text ↔ scan Leap.literals statementStops text = [] := by
  constructor
  · intro prose
    have through : scan Leap.literals statementStops (text ++ []) = scan Leap.literals statementStops [] :=
      prose.scan (by simp)
    rwa [List.append_nil, scan_nil] at through
  · intro through
    fun_induction DdlModels.Sql.scan Leap.literals statementStops text with
    | case1 => exact .nil
    | case2 c rest after jump ih =>
      change literalRest? (c :: rest) = some after at jump
      rw [literalRest?] at jump
      split at jump
      case isTrue quote => exact .literal quote (closesBefore_of_readToClose jump) (ih through)
      case isFalse => contradiction
    | case3 => contradiction
    | case4 c rest _ plain ih => exact .plain plain (ih through)

/-- Where a keyword is read, it is the first word. The letter that the Kelvin sign is a form of does not
stand in the keyword. -/
theorem firstWord_of_readKeyword {keyword taken : List Char} {nodes : List Node}
    (chars : ∀ k ∈ keyword, isKeywordChar k) (kelvin : 'K' ∉ keyword)
    (h : readKeyword keyword text = .ok nodes taken rest) :
    taken = text.takeWhile isWordChar ∧ taken.map Char.toUpper = keyword := by
  induction keyword generalizing text taken with
  | nil =>
    have agrees : agree text [] = true := by cases text <;> rfl
    have split : splitBytes? (byteSize []) text = some ([], text) := by cases text <;> rfl
    have ends := continuesWord_of_reads h
    rw [readKeyword, if_pos agrees, split] at h
    obtain ⟨rfl, rfl⟩ : [] = taken ∧ text = rest := by
      simp only at h
      split at h
      case isTrue => cases h
      case isFalse => exact (Reply.ok.inj h).2
    cases text with
    | nil => exact ⟨rfl, rfl⟩
    | cons c text =>
      have other : isWordChar c = false := ends
      simp [other]
  | cons k keyword ih =>
    have hk := chars k List.mem_cons_self
    cases text with
    | nil =>
      have moves := readKeyword_advances (List.cons_ne_nil k keyword) []
      have split := readKeyword_splits (k :: keyword) []
      rw [h] at moves split
      exact absurd (List.append_eq_nil_iff.mp (show [] = taken ++ rest from split).symm).1 moves
    | cons c text =>
      have same : lowerChar c = lowerChar k := by
        by_contra other
        simp [readKeyword, agree, other] at h
      have upper : (lowerChar k).toUpper = k :=
        forall_ascii (P := fun k => isKeywordChar k → (lowerChar k).toUpper = k) (by decide)
          (keywordChar_ascii hk) hk
      -- the only other character with such a lower-case form is the Kelvin sign
      have foreign : c ≠ '\u212A' := by
        rintro rfl
        have sign : (lowerChar '\u212A').toUpper = 'K' := by decide
        exact kelvin (by rw [← sign, same, upper]; exact List.mem_cons_self)
      have ascii := ascii_of_lowerChar_eq same hk foreign
      have spelled : c.toUpper = k := by
        have back : (lowerChar c).toUpper = c.toUpper :=
          forall_ascii (P := fun c => (lowerChar c).toUpper = c.toUpper) (by decide) ascii
        rw [← back, same, upper]
      have word : isWordChar c := isWordChar_of_spelled (by rwa [spelled])
      obtain ⟨-, more, rfl, next⟩ := (readKeyword_cons_eq_ok ascii (keywordChar_ascii hk)).mp h
      obtain ⟨inner, spells⟩ := ih (fun d hd => chars d (List.mem_cons_of_mem k hd))
        (fun inside => kelvin (List.mem_cons_of_mem k inside)) next
      rw [List.takeWhile_cons, if_pos word, ← inner, List.map_cons, spelled, spells]
      exact ⟨rfl, rfl⟩

theorem tableStatement_misses_word (other : ¬ Spells "CREATE" (text.takeWhile isWordChar)) :
    tableStatement.Misses text := by
  have missed : (keyword "CREATE").Misses text := by
    rcases readKeyword_ok_or_miss "CREATE".toList text with ⟨taken, rest, found⟩ | missed
    · obtain ⟨rfl, spells⟩ := firstWord_of_readKeyword (List.all_eq_true.mp (by decide)) (by decide) found
      exact absurd spells other
    · exact missed
  have head : tableHead.Misses text := missed.seq_first.seq_first.seq_first.seq_first
  exact head.seq_first.seq_first

theorem blank_misses_letter {c : Char} (letter : c.isAlpha) (text : List Char) : blank.Misses (c :: text) := by
  have all : ∀ c ∈ blankStarts, c.isAlpha = false := forall_among (by decide)
  refine blank_misses ?_ text
  intro start
  rw [all c start] at letter
  contradiction

/-- A statement that creates no table: a letter begins it, its first word is not `CREATE`, and it has no
semicolon outside of literals. -/
structure Tableless (text : List Char) : Prop where
  letter : ∃ c ∈ text.head?, c.isAlpha
  word : ¬ Spells "CREATE" (text.takeWhile isWordChar)
  prose : Prose text

private theorem takeWhile_before {member : Char → Bool} {c : Char} (stop : member c = false)
    (text rest : List Char) : (text ++ c :: rest).takeWhile member = text.takeWhile member := by
  induction text with
  | nil => simp [stop]
  | cons d text ih => simp only [List.cons_append, List.takeWhile_cons, ih]

/-- Such a statement is passed over up to the semicolon after it. -/
theorem Tableless.next (tableless : Tableless text) (after : List Char) :
    ∃ taken, next (text ++ ';' :: after) = .statement (.skipped taken) (';' :: after) := by
  obtain ⟨c, head, letter⟩ := tableless.letter
  obtain ⟨text, rfl⟩ := List.head?_eq_some_iff.mp head
  have plain : c ∉ statementStops :=
    forall_ascii (P := fun c => c.isAlpha → c ∉ statementStops) (by decide)
      (ascii_of_isAlpha letter) letter
  have firstWord := takeWhile_before (show isWordChar ';' = false by decide) (c :: text) after
  have missed : tableStatement.Misses (c :: text ++ ';' :: after) :=
    tableStatement_misses_word (by rw [firstWord]; exact tableless.word)
  obtain ⟨taken, step⟩ := next_of_plain plain (skipBlanks_of_visible (blank_misses_letter letter _)) missed
  have stop : scan Leap.literals statementStops (c :: text ++ ';' :: after) = ';' :: after := by
    rw [tableless.prose.scan (by rintro d ⟨⟩; rfl), scan_char (Leap.literals_over_none rfl after),
      if_pos (by decide)]
  exact ⟨taken, step.trans (congrArg _ stop)⟩

theorem Tableless.foregoing (tableless : Tableless text) : Foregoing (text ++ [';']) [] := by
  intro after
  obtain ⟨taken, step⟩ := tableless.next after
  have separator : Script.next (';' :: after) = .separator after :=
    next_separator (skipBlanks_of_visible (misses_of_blocked (refuses_at ';' after) (by decide)))
  have onward : Script.readFrom (';' :: after) = Script.readFrom after := by
    rw [readFrom_eq, separator]
  rw [List.append_assoc, List.singleton_append, List.nil_append, ← onward]
  exact readFrom_of_skipped step

/-- A statement that creates no table changes nothing for what follows it. -/
theorem parse_after_tableless {statement : String} (tableless : Tableless statement.toList) (source : String) :
    parse (statement ++ ";" ++ source) =
      (parse source).mapError (·.later (byteSize statement.toList + 1)) := by
  have whole : (statement ++ ";" ++ source).toList = statement.toList ++ [';'] ++ source.toList := by simp
  have size : byteSize (statement.toList ++ [';']) = byteSize statement.toList + 1 := byteSize_append _ _
  rw [← size]
  exact tableless.foregoing.parse whole

/-- A semicolon, a table and an opened comment inside of literals are no more than their characters. -/
theorem parse_after_tableless_insert :
    let statement := "INSERT INTO `a``;b` VALUES ('it''s; CREATE TABLE x (y INT);', \"\\\"; /*\") -- ok"
    (∃ tables, parse (statement ++ ";" ++ "CREATE TABLE t (a INT)") = .ok ⟨.root, "", tables⟩ ∧
      parse "CREATE TABLE t (a INT)" = .ok ⟨.root, "", tables⟩ ∧ tables.length = 1) ∧
    ∃ error, parse (statement ++ ";" ++ "CREATE TABLE") = .error (error.later 78) ∧
      parse "CREATE TABLE" = .error error := by
  intro statement
  have tableless : Tableless statement.toList :=
    ⟨⟨'I', by decide +kernel, by decide⟩, by decide +kernel, prose_iff_scan.mpr (by decide +kernel)⟩
  have size : byteSize statement.toList = 77 := by decide +kernel
  constructor
  · have table : parse "CREATE TABLE t (a INT)" =
        .ok ⟨.root, "", (readScript "CREATE TABLE t (a INT)").tables⟩ :=
      tree_eq_ok.mpr ⟨by decide +kernel, rfl⟩
    refine ⟨_, ?_, table, by decide +kernel⟩
    rw [parse_after_tableless tableless, table]
    rfl
  · cases broken : parse "CREATE TABLE" with
    | ok tree => exact absurd (tree_eq_ok.mp broken).1 (by decide +kernel)
    | error error =>
      refine ⟨error, ?_, rfl⟩
      rw [parse_after_tableless tableless, broken, size]
      rfl

end DdlModels.Sql
