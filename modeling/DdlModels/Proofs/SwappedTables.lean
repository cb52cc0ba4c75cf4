import DdlModels.Proofs.SwappedColumns

/-!
# Swapping what follows a definition

The definitions of a table, and what stands before them, read what stands before a place alike whatever follows it.
-/

namespace DdlModels.Sql

open Text Grammar

variable {sought : List Grammar}

def columnHead : Grammar := .branch .columnDeclaration identifier sizedType

theorem named_swaps {body : Grammar} (h : Swaps sought body) (advances : body.advances) (kind : NodeKind) :
    Swaps sought (.branch kind identifier body) := by
  have named : Swaps [] identifier := swaps_plain (by decide)
  have whole : Swaps (sought ++ if body.advances then [] else []) (.branch kind identifier body) :=
    named.branch h (by simp)
  rwa [if_pos advances, List.append_nil] at whole

theorem column_swaps : Swaps columnSought column := named_swaps columnBody_swaps (by decide) _

theorem columnHead_swaps : Swaps typeSought columnHead := named_swaps sizedType_swaps (by decide) _

theorem identifier_excludes_anyKeyword {name : String} {names : List String}
    (chars : ∀ other ∈ name :: names,
      other.toList.all isKeywordChar ∧ (backquoted <|> quoted '\x22').bars (keyword other)) :
    Excludes [] identifier (anyKeyword name names) := by
  induction names generalizing name with
  | nil =>
    obtain ⟨chars, quotes⟩ := chars name List.mem_cons_self
    exact identifier_excludes_keyword chars quotes
  | cons next names ih =>
    obtain ⟨first, quotes⟩ := chars name List.mem_cons_self
    exact (identifier_excludes_keyword first quotes).choice
      (ih fun other hother => chars other (List.mem_cons_of_mem name hother))

/-- A name that begins no key and no constraint is a name whatever follows it. -/
theorem named_excludes_tableConstraint (kind : NodeKind) (body : Grammar) :
    Excludes sought (.branch kind identifier body) tableConstraint := by
  have apart : Excludes [] identifier (anyKeyword "PRIMARY"
      ["UNIQUE", "KEY", "INDEX", "FULLTEXT", "SPATIAL", "CONSTRAINT", "FOREIGN", "CHECK"]) :=
    identifier_excludes_anyKeyword (by decide)
  intro taken rest other nodes goes swapped fits reads missed
  obtain ⟨name, _, _, between, split, named, body, rfl⟩ := reads.of_branch
  obtain ⟨back, rfl⟩ := body.splits
  obtain rfl : taken = name ++ back := (List.append_left_inj rest).mp (by rw [split, List.append_assoc])
  have nonempty : name ≠ [] := by
    rintro rfl
    rw [split] at named
    exact absurd (named.length_lt rfl) (Nat.lt_irrefl _)
  rw [List.append_assoc] at named missed ⊢
  rcases missed.of_trimmedLeaf.of_seq with missed | ⟨_, _, _, missed⟩
  · exact (apart nonempty (swapped.append back) (by simp) named missed).seq_first.trimmedLeaf _
  · exact absurd missed (sure_not_misses rfl)

def tailStops : List Char := [',', '(', ')', '\x27', '\x22', '\x60']

def tailPiece : Grammar := .group <|> stringLiteral <|> backquoted <|> run tailStops

theorem separator_excludes_tail {absent : Grammar} (known : absent ∈ [tailPiece, run tailStops]) :
    Excludes [] separator absent := by
  intro taken rest other nodes goes swapped _ reads missed
  obtain ⟨c, taken, rfl⟩ := List.exists_cons_of_ne_nil goes
  have stop : c ∈ tailStops := by
    have missed : (run tailStops).Misses (c :: (taken ++ rest)) := by
      simp only [List.mem_cons, List.not_mem_nil, or_false] at known
      rcases known with rfl | rfl
      · exact missed.of_choice.2.of_choice.2.of_choice.2
      · exact missed
    simpa using readRun_misses_iff.mp missed c rfl
  have comma : c = ',' := by
    have blocked : ∀ c ∈ tailStops, c = ',' ∨ separator.blocked (refusedAt c) := forall_among (by decide)
    rcases blocked c stop with rfl | blocked
    · rfl
    · exact absurd (misses_of_blocked (refuses_at c _) blocked) reads.not_misses
  have all : ∀ absent ∈ [tailPiece, run tailStops], absent.blocked (refusedAt ',') := by decide
  subst comma
  exact misses_of_blocked (refuses_at ',' _) (all absent known)

def definitionSought : List Grammar := [tailPiece, run tailStops] ++ columnSought

theorem definition_swaps : Swaps definitionSought definition := by
  have other : Swaps [tailPiece, run tailStops] tableConstraint := swaps_plain (by decide)
  exact (other.choice column_swaps rfl (named_excludes_tableConstraint _ _)).context

theorem definition_separator_swaps : Swaps [Grammar.blank] (definition ++ separator) := by
  have comma : Swaps [Grammar.blank] separator := swaps_plain (by decide)
  have bars : ∀ absent ∈ columnSought, separator.bars absent := by decide
  refine definition_swaps.seq comma fun absent habsent => Excludes.mono ?_ (List.nil_subset _)
  rcases List.mem_append.mp habsent with tail | column
  · exact separator_excludes_tail tail
  · exact excludes_of_bars (bars absent column)

def openedTable : Grammar :=
  .branch .createTable Grammar.tableName parenthesis

def tableOpening : Grammar := tableHead ++ Grammar.blanks ++ openedTable

/-- A table may be named `IF`, but it is not named by `IF NOT EXISTS`. -/
private theorem openedTable_excludes_condition : Excludes [] openedTable (phrase "IF" ["NOT", "EXISTS"]) := by
  have next : Excludes [] (.many (symbol '.' ++ identifier) ++ parenthesis)
      (Grammar.blanks ++ phrase "NOT" ["EXISTS"]) := excludes_of_bars (by decide)
  have quoted (quote : Char) (mark : quote ∈ ['\x60', '\x22']) :
      Excludes [] (Grammar.quoted quote) (phrase "IF" ["NOT", "EXISTS"]) := by
    have all : ∀ quote ∈ ['\x60', '\x22'], (Grammar.quoted quote).bars (phrase "IF" ["NOT", "EXISTS"]) :=
      forall_among (by decide)
    exact excludes_of_bars (all quote mark)
  have named : Excludes [] (identifier ++ (.many (symbol '.' ++ identifier) ++
      parenthesis)) (phrase "IF" ["NOT", "EXISTS"]) := by
    refine .of_alternatives_seq fun other hother => ?_
    have known : other ∈ [backquoted, Grammar.quoted '\x22', word] := hother
    simp only [List.mem_cons, List.not_mem_nil, or_false] at known
    rcases known with rfl | rfl | rfl
    · exact (quoted '\x60' (by decide)).followed rfl
    · exact (quoted '\x22' (by decide)).followed rfl
    · exact (Excludes.keyworded (by decide) next).assoc
  refine Excludes.branch ?_ .createTable
  intro taken rest other nodes goes swapped fits reads missed
  obtain ⟨_, _, _, name, body, rfl⟩ := reads.of_seq
  exact named goes swapped fits (reads_assoc.mp (name.of_commit.seq body)) missed

def conditionalTable : Grammar :=
  .optional (Grammar.blanks ++ phrase "IF" ["NOT", "EXISTS"]) ++ (Grammar.blanks ++ openedTable)

private theorem conditionalTable_swaps : Swaps [Grammar.blank] conditionalTable := by
  have opened : Swaps [Grammar.blank] (Grammar.blanks ++ openedTable) := swaps_plain (by decide)
  have condition : Swaps [Grammar.blanks ++ phrase "IF" ["NOT", "EXISTS"]]
      (.optional (Grammar.blanks ++ phrase "IF" ["NOT", "EXISTS"])) := swaps_plain (by decide)
  have blank : Excludes [] openedTable Grammar.blank := excludes_of_bars (by decide)
  have unconditional :=
    Excludes.prefixed blanks_swaps (List.forall_mem_singleton.mpr blank) openedTable_excludes_condition
  rw [if_pos (by decide), List.append_nil] at unconditional
  have whole := condition.seq opened (List.forall_mem_singleton.mpr (unconditional.mono (List.nil_subset _)))
  rwa [if_pos (by decide), List.append_nil] at whole

theorem tableOpening_swaps : Swaps [Grammar.blank] tableOpening := by
  have whole : Swaps [Grammar.blank] (keyword "CREATE" ++ (further "TEMPORARY" ++ (Grammar.blanks ++
      (keyword "TABLE" ++ conditionalTable)))) :=
    swaps_of_known ((conditionalTable, [Grammar.blank]) :: knownBlanks)
      (List.forall_mem_cons.mpr ⟨conditionalTable_swaps, knownBlanks_swap⟩) (by decide)
  intro taken rest other nodes swapped fits reads
  rw [conditionalTable] at whole
  simp only [tableOpening, tableHead, reads_assoc] at reads ⊢
  exact whole swapped fits reads

end DdlModels.Sql
