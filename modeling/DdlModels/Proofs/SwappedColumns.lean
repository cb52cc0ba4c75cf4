import DdlModels.Proofs.SwappedPieces

/-!
# Swapping what follows an attribute

A column's type and its attributes read what stands before a place alike whatever follows it, unless what they look
for where they end is there now. What comes after an attribute decides nothing about what comes before it.
-/

namespace DdlModels.Sql

open Text Grammar

variable {part first : Grammar} {sought : List Grammar}

def sizedType : Grammar := Grammar.blanks ++ (typeName ++ .optional (Grammar.blanks ++ .group))

def modifierTurn : Grammar := Grammar.blanks ++ typeModifier

def typeSought : List Grammar :=
  (Grammar.blanks ++ .group) ::
    ["VARYING", "PRECISION", "VARCHAR", "VARBINARY"].map fun name => Grammar.blanks ++ keyword name

/-- The types whose alternatives begin with the same words. -/
def knownTypes : List (Grammar × List Grammar) :=
  (ncharType, [Grammar.blanks ++ keyword "VARCHAR"]) :: (nationalType, [Grammar.blanks ++ keyword "VARYING"]) ::
  (longType, [Grammar.blanks ++ keyword "VARCHAR", Grammar.blanks ++ keyword "VARBINARY"]) :: knownBlanks

theorem sizedType_swaps : Swaps typeSought sizedType := by
  have swaps : ∀ pair ∈ knownTypes, Swaps pair.2 pair.1 := by
    simp only [knownTypes, List.forall_mem_cons]
    exact ⟨ncharType_swaps, nationalType_swaps, longType_swaps, knownBlanks_swap⟩
  exact swaps_of_known knownTypes swaps (by decide)

theorem modifierTurn_swaps : Swaps [] modifierTurn := swaps_plain (by decide)

theorem modifier_excludes_type : ∀ absent ∈ typeSought, Excludes [] modifierTurn absent := by
  have all : ∀ absent ∈ typeSought, modifierTurn.bars absent := by decide
  exact fun absent habsent => excludes_of_bars (all absent habsent)

def defaultClause : Grammar :=
  keyword "DEFAULT" ++ Grammar.blanks ++ .leaf .defaultConstraint (commit "default value" value)

def onUpdate : Grammar := phrase "ON" ["UPDATE"] ++ Grammar.blanks ++ value

theorem defaultClause_swaps : Swaps valueSought defaultClause := by
  have head : Swaps [Grammar.blank] (keyword "DEFAULT" ++ Grammar.blanks) := swaps_plain (by decide)
  have apart := (value_excludes_blank.commit "default value").leaf .defaultConstraint
  exact head.seq value_swaps.context.cut.leaf (List.forall_mem_singleton.mpr apart)

theorem onUpdate_swaps : Swaps valueSought onUpdate := by
  have head : Swaps [Grammar.blank] (phrase "ON" ["UPDATE"] ++ Grammar.blanks) := swaps_plain (by decide)
  exact head.seq value_swaps (List.forall_mem_singleton.mpr value_excludes_blank)

/-- The pieces of attributes whose alternatives cannot be told apart by their openings. -/
def knownPieces : List (Grammar × List Grammar) :=
  (actionWords, []) :: (check, []) :: (defaultClause, valueSought) ::
  (onUpdate, valueSought) :: knownBlanks

theorem knownPieces_swap : ∀ pair ∈ knownPieces, Swaps pair.2 pair.1 := by
  simp only [knownPieces, List.forall_mem_cons]
  exact ⟨actionWords_swaps, check_swaps, defaultClause_swaps, onUpdate_swaps, knownBlanks_swap⟩

def attributeTurn : Grammar := Grammar.blanks ++ columnAttribute

def attributeSought : List Grammar :=
  valueSought ++
    [Grammar.blanks ++ keyword "KEY", Grammar.blanks ++ anyKeyword "VIRTUAL" ["STORED"],
      Grammar.blanks ++ referenceAction, Grammar.blanks ++ .group, symbol '.' ++ identifier]

def actionSought : List Grammar := ["NULL", "DEFAULT", "ACTION"].map fun name => Grammar.blanks ++ keyword name

/-- What is looked for where an attribute ends, and what may decide about an action of a reference before it. -/
def turnSought : List Grammar := attributeSought ++ actionSought

theorem attributeTurn_swaps : Swaps turnSought attributeTurn := by
  have known : attributeTurn.steady knownPieces ∧ attributeTurn.sought knownPieces ⊆ attributeSought := by
    decide
  exact swaps_of_known knownPieces knownPieces_swap ⟨known.1, List.subset_append_of_subset_left _ known.2⟩

/-- A value that begins with a word is no action of a reference, unless the word goes on as one. -/
theorem worded_excludes_actions {next : Grammar} (bars : ∀ part ∈ actionSought, next.bars part) :
    Excludes actionSought (word ++ next) actionWords := by
  have phrase {name last : String} (chars : name.toList.all isKeywordChar)
    (known : last ∈ ["NULL", "DEFAULT", "ACTION"]) :
      Excludes actionSought (word ++ next) (phrase name [last]) := by
    have mem : Grammar.blanks ++ keyword last ∈ actionSought := List.mem_map_of_mem known
    have apart : Excludes [] next (Grammar.blanks ++ keyword last) := excludes_of_bars (bars _ mem)
    refine ((Excludes.keyworded chars apart).mono ?_).assoc
    intro part hpart
    split at hpart
    · simp at hpart
    · rw [List.mem_singleton.mp (List.mem_append_right [] hpart)]
      exact mem
  have plain {name : String} (chars : name.toList.all isKeywordChar) :
      Excludes actionSought (word ++ next) (keyword name) := (word_excludes_keyword chars).followed rfl
  exact (phrase (by decide) (by decide)).choice ((phrase (by decide) (by decide)).choice
    ((phrase (by decide) (by decide)).choice ((plain (by decide)).choice (plain (by decide)))))

theorem value_excludes_actions : Excludes actionSought value actionWords := by
  have all (other : Grammar) (bars : other.bars actionWords) : Excludes actionSought other actionWords :=
    (excludes_of_bars bars).mono (List.nil_subset _)
  refine .of_alternatives ?_
  intro other hother
  have known : other ∈ [.group, wordedLiteral, number, word ++ .optional .group] := hother
  simp only [List.mem_cons, List.not_mem_nil, or_false] at known
  rcases known with rfl | rfl | rfl | rfl
  · exact all _ (by decide)
  · exact (worded_excludes_actions (by decide)).optional_seq (all _ (by decide))
  · exact all _ (by decide)
  · exact worded_excludes_actions (by decide)

theorem onUpdate_excludes_action : Excludes turnSought onUpdate referenceAction := by
  have head : Swaps [Grammar.blank]
      (keyword "ON" ++ Grammar.blanks ++ anyKeyword "DELETE" ["UPDATE"] ++ Grammar.blanks) :=
    swaps_plain (by decide)
  have blank := value_excludes_blank.mono (List.subset_append_left _ actionSought)
  have actions := value_excludes_actions.mono (List.subset_append_right valueSought _)
  have within : valueSought ++ actionSought ++ [] ⊆ turnSought := by
    have known : valueSought ⊆ attributeSought := by
      intro part hpart
      simp [attributeSought, hpart]
    rw [List.append_nil]
    exact List.append_subset.mpr ⟨List.subset_append_of_subset_left _ known, List.subset_append_right _ _⟩
  have apart := (Excludes.prefixed head (List.forall_mem_singleton.mpr blank) actions).mono within
  intro taken rest other nodes goes swapped fits reads missed
  obtain ⟨_, _, _, front, valued, rfl⟩ := reads.of_seq
  obtain ⟨_, _, _, update, gap, rfl⟩ := front.of_seq
  obtain ⟨_, _, between, on, word, rfl⟩ := update.of_seq
  -- the second keyword is not the other one
  obtain ⟨run, split⟩ := word.splits
  have later : rest.length ≤ _ := valued.length_le.trans gap.length_le
  rw [split] at word
  have begins := BeginsAlike.of_keyword (by decide) (by
    rintro rfl
    exact swapped.nonempty (List.eq_nil_of_length_eq_zero (Nat.le_zero.mp later))) word
  have other : (keyword "DELETE").Misses between := split ▸ begins.refuses (.keyword "DELETE") (by decide)
  rw [← split] at word
  exact apart goes swapped fits (((on.seq (other.orElse word)).seq gap).seq valued) missed

theorem turn_excludes_modifier : Excludes [] attributeTurn modifierTurn := by
  have all : ∀ other ∈ columnAttribute.alternatives, other.bars typeModifier ∨ typeModifier.offers other := by
    decide
  have apart : Excludes [] columnAttribute typeModifier :=
    .of_alternatives fun other hother => (all other hother).elim excludes_of_bars .of_offers
  have blank : Excludes [] columnAttribute Grammar.blank := excludes_of_bars (by decide)
  exact Excludes.prefixed blanks_swaps (List.forall_mem_singleton.mpr blank) apart

private theorem turn_excludes_action : Excludes turnSought attributeTurn (Grammar.blanks ++ referenceAction) := by
  have bar {absent part : Grammar} (bars : part.bars absent) : Excludes turnSought part absent :=
    (excludes_of_bars bars).mono (List.nil_subset _)
  have all : ∀ other ∈ columnAttribute.alternatives, other = onUpdate ∨ other.bars referenceAction := by
    decide
  have apart : Excludes turnSought columnAttribute referenceAction := by
    refine .of_alternatives fun other hother => ?_
    rcases all other hother with rfl | bars
    · exact onUpdate_excludes_action
    · exact bar bars
  have blank : Excludes turnSought columnAttribute Grammar.blank := bar (by decide)
  have whole := Excludes.prefixed blanks_swaps (List.forall_mem_singleton.mpr blank) apart
  rwa [if_pos (by decide), List.append_nil] at whole

/-- Where an attribute stands, nothing that is looked for before it appears because something else follows. -/
theorem turn_excludes : ∀ absent ∈ turnSought ++ typeSought, Excludes turnSought attributeTurn absent := by
  have all : ∀ absent ∈ turnSought ++ typeSought,
      absent = wordedLiteral ∨ absent = Grammar.blanks ++ referenceAction ∨ attributeTurn.bars absent := by
    decide
  intro absent habsent
  rcases all absent habsent with rfl | rfl | bars
  · exact (excludes_wordedLiteral (by decide)).mono (by simp [turnSought, attributeSought, valueSought])
  · exact turn_excludes_action
  · exact (excludes_of_bars bars).mono (List.nil_subset _)

theorem turns_exclude : ∀ absent ∈ turnSought, Excludes turnSought attributeTurn absent :=
  fun absent habsent => turn_excludes absent (List.mem_append_left _ habsent)

def columnSought : List Grammar := attributeTurn :: turnSought ++ modifierTurn :: typeSought

private theorem typed_swaps : Swaps (modifierTurn :: typeSought) (Grammar.blanks ++ dataType) := by
  have modifiers : Swaps [modifierTurn] (.many modifierTurn) := modifierTurn_swaps.many rfl (by simp)
  have whole := sizedType_swaps.seq modifiers fun absent habsent =>
    (Excludes.many modifierTurn_swaps rfl (by simp) (modifier_excludes_type absent habsent)).mono (List.nil_subset _)
  exact fun _ _ _ _ swapped fits reads => reads_assoc.mp (whole swapped fits (reads_assoc.mpr reads))

theorem columnBody_swaps : Swaps columnSought columnBody := by
  have turns : Swaps (attributeTurn :: turnSought) (.many attributeTurn) := attributeTurn_swaps.many rfl turns_exclude
  refine typed_swaps.context.cut.seq turns fun absent habsent => ?_
  have apart : Excludes turnSought attributeTurn absent := by
    rcases List.mem_cons.mp habsent with rfl | sought
    · exact turn_excludes_modifier.mono (List.nil_subset _)
    · exact turn_excludes absent (List.mem_append_right _ sought)
  exact (Excludes.many attributeTurn_swaps rfl turns_exclude apart).mono (List.subset_cons_self _ _)

end DdlModels.Sql
