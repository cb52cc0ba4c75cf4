import DdlModels.Proofs.Characters
import DdlModels.Proofs.LineFeeds
import DdlModels.Proofs.TreeReading

/-!
# Trees from their listings

A listing has one line for each node. A line shows how deep its node lies, its kind and its text, and the nodes below
it are those on the lines after it that are indented more, so that a tree is found again in its listing. How nodes lie
below each other is seen from the indentation alone.
-/

namespace DdlModels

/-- What a line of a listing shows. -/
structure ListingLine where
  depth : Nat
  kind : NodeKind
  text : String
  deriving DecidableEq

namespace ListingLine

/-- The line as it is written. -/
def written (line : ListingLine) : String := Node.indentation line.depth ++ Node.label line.kind line.text

/-- The number of spaces at the beginning of a line. -/
def indent (line : List Char) : Nat := (line.takeWhile (· == ' ')).length

/-- What a written line shows: two spaces for each level, the name of a kind and, after a space, a text. -/
def read? (line : List Char) : Option ListingLine :=
  let shown := line.dropWhile (· == ' ')
  (NodeKind.ofName? (String.ofList (shown.takeWhile (· != ' ')))).map fun kind =>
    ⟨indent line / 2, kind, String.ofList ((shown.dropWhile (· != ' ')).drop 1)⟩

end ListingLine

namespace Node

mutual
/-- What the lines of a listing show that starts at the given depth. -/
def shownAt (depth : Nat) : Node → List ListingLine
  | ⟨kind, text, children⟩ => ⟨depth, kind, text⟩ :: shownOfAll (depth + 1) children
def shownOfAll (depth : Nat) : List Node → List ListingLine
  | [] => []
  | node :: nodes => shownAt depth node ++ shownOfAll depth nodes
end

/-- The nodes that some lines show: below a node are those on the lines after it, up to the first that is not indented
more. -/
def nested : List ListingLine → List Node
  | [] => []
  | line :: lines =>
    ⟨line.kind, line.text, nested (lines.takeWhile (line.depth < ·.depth))⟩ ::
      nested (lines.dropWhile (line.depth < ·.depth))
termination_by lines => lines.length
decreasing_by
  · exact Nat.lt_succ_of_le (List.takeWhile_sublist _).length_le
  · exact Nat.lt_succ_of_le (List.dropWhile_sublist _).length_le

/-- The tree that a listing shows. -/
def ofDump? (text : String) : Option Node :=
  match ((text.toList.splitOn '\n').dropLast.mapM ListingLine.read?).map nested with
  | some [node] => some node
  | _ => none

/-- No text in the tree has a line feed. -/
def Unbroken (node : Node) : Prop := ∀ below ∈ node.preorder, '\n' ∉ below.text.toList

instance (node : Node) : Decidable node.Unbroken :=
  inferInstanceAs (Decidable (∀ below ∈ node.preorder, '\n' ∉ below.text.toList))

mutual
def outline : Node → Node
  | ⟨_, _, children⟩ => ⟨.root, "", outlineOfAll children⟩
def outlineOfAll : List Node → List Node
  | [] => []
  | node :: nodes => outline node :: outlineOfAll nodes
end

end Node

namespace ListingLine

theorem indentation_toList (depth : Nat) : (Node.indentation depth).toList = List.replicate (2 * depth) ' ' := by
  induction depth with
  | zero => rfl
  | succ depth ih =>
    rw [Node.indentation, String.toList_append, ih]
    rfl

theorem kind_name (kind : NodeKind) : kind.name.toList ≠ [] ∧ ∀ c ∈ kind.name.toList, c ≠ ' ' ∧ c ≠ '\n' := by
  cases kind with
  | dataType category => cases category <;> exact ⟨by decide, Text.forall_among (by decide)⟩
  | _ => exact ⟨by decide, Text.forall_among (by decide)⟩

theorem label_toList (kind : NodeKind) (text : String) : (Node.label kind text).toList =
    kind.name.toList ++ if text = "" then [] else ' ' :: text.toList := by
  rw [Node.label]
  by_cases empty : text = ""
  · simp [empty]
  · have goes : text.isEmpty = false := by simpa using empty
    simp [goes, empty]

theorem written_toList (line : ListingLine) : line.written.toList =
    List.replicate (2 * line.depth) ' ' ++ (Node.label line.kind line.text).toList := by
  rw [written, String.toList_append, indentation_toList]

theorem label_head (kind : NodeKind) (text : String) :
    ∀ c ∈ (Node.label kind text).toList.head?, (c == ' ') = false := by
  intro c hc
  obtain ⟨nonempty, plain⟩ := kind_name kind
  rw [label_toList, List.head?_append_of_ne_nil _ nonempty] at hc
  exact beq_eq_false_iff_ne.mpr (plain c (List.mem_of_mem_head? hc)).1

theorem written_span (line : ListingLine) :
    line.written.toList.takeWhile (· == ' ') = List.replicate (2 * line.depth) ' ' ∧
      line.written.toList.dropWhile (· == ' ') = (Node.label line.kind line.text).toList := by
  rw [written_toList]
  exact Text.span_until (fun c hc => beq_iff_eq.mpr (List.eq_of_mem_replicate hc)) (label_head _ _)

theorem indent_written (line : ListingLine) : indent line.written.toList = 2 * line.depth := by
  rw [indent, line.written_span.1, List.length_replicate]

theorem read?_written (line : ListingLine) : read? line.written.toList = some line := by
  obtain ⟨depth, kind, text⟩ := line
  have plain : ∀ c ∈ kind.name.toList, (c != ' ') = true := fun c hc => bne_iff_ne.mpr ((kind_name kind).2 c hc).1
  have stop : ∀ c ∈ (if text = "" then [] else ' ' :: text.toList).head?, (c != ' ') = false := by
    intro c hc
    split at hc
    · contradiction
    · obtain rfl := Option.some.inj hc
      rfl
  obtain ⟨name, rest⟩ := Text.span_until plain stop
  have last : String.ofList ((if text = "" then [] else ' ' :: text.toList).drop 1) = text := by
    by_cases empty : text = ""
    · simp [empty]
    · simp [empty]
  simp only [read?, indent_written, (written_span _).2, label_toList, name, rest, last, String.ofList_toList,
    NodeKind.ofName?_name, Option.map_some, Nat.mul_div_cancel_left depth (by decide : 0 < 2)]

theorem written_unbroken {line : ListingLine} (h : '\n' ∉ line.text.toList) : '\n' ∉ line.written.toList := by
  rw [written_toList, label_toList]
  intro feed
  rcases List.mem_append.mp feed with space | feed
  · exact absurd (List.eq_of_mem_replicate space) (by decide)
  rcases List.mem_append.mp feed with named | feed
  · exact ((kind_name line.kind).2 _ named).2 rfl
  · split at feed
    · contradiction
    · rcases List.mem_cons.mp feed with space | feed
      · exact absurd space (by decide)
      · exact h feed

end ListingLine

namespace Node

mutual
theorem linesAt_eq (depth : Nat) (node : Node) : node.linesAt depth = (node.shownAt depth).map ListingLine.written := by
  cases node with
  | mk kind text children =>
    rw [linesAt, shownAt, List.map_cons, linesOfAll_eq (depth + 1) children]
    rfl
theorem linesOfAll_eq (depth : Nat) : (nodes : List Node) →
    linesOfAll depth nodes = (shownOfAll depth nodes).map ListingLine.written
  | [] => rfl
  | node :: nodes => by
    rw [linesOfAll, shownOfAll, List.map_append, linesAt_eq depth node, linesOfAll_eq depth nodes]
end

mutual
theorem shownAt_texts (depth : Nat) (node : Node) : (node.shownAt depth).map (·.text) = node.preorder.map (·.text) := by
  cases node with
  | mk kind text children =>
    rw [shownAt, preorder, List.map_cons, List.map_cons, shownOfAll_texts (depth + 1) children]
theorem shownOfAll_texts (depth : Nat) : (nodes : List Node) →
    (shownOfAll depth nodes).map (·.text) = (preorderOfAll nodes).map (·.text)
  | [] => rfl
  | node :: nodes => by
    rw [shownOfAll, preorderOfAll, List.map_append, List.map_append, shownAt_texts depth node,
      shownOfAll_texts depth nodes]
end

mutual
theorem length_shownAt (depth : Nat) (node : Node) : (node.shownAt depth).length = node.size := by
  cases node with
  | mk kind text children => rw [shownAt, size, List.length_cons, length_shownOfAll (depth + 1) children]
theorem length_shownOfAll (depth : Nat) : (nodes : List Node) → (shownOfAll depth nodes).length = sizeOfAll nodes
  | [] => rfl
  | node :: nodes => by
    rw [shownOfAll, sizeOfAll, List.length_append, length_shownAt depth node, length_shownOfAll depth nodes]
end

mutual
theorem le_depth_of_mem_shownAt (depth : Nat) (node : Node) : ∀ line ∈ node.shownAt depth, depth ≤ line.depth := by
  cases node with
  | mk kind text children =>
    intro line hline
    rcases List.mem_cons.mp (shownAt.eq_1 depth kind text children ▸ hline) with rfl | hline
    · exact Nat.le_refl depth
    · exact Nat.le_of_succ_le (le_depth_of_mem_shownOfAll (depth + 1) children line hline)
theorem le_depth_of_mem_shownOfAll (depth : Nat) : (nodes : List Node) →
    ∀ line ∈ shownOfAll depth nodes, depth ≤ line.depth
  | [] => by simp [shownOfAll]
  | node :: nodes => by
    intro line hline
    rcases List.mem_append.mp hline with hline | hline
    · exact le_depth_of_mem_shownAt depth node line hline
    · exact le_depth_of_mem_shownOfAll depth nodes line hline
end

theorem shownOfAll_head (depth : Nat) (nodes : List Node) :
    ∀ line ∈ (shownOfAll depth nodes).head?, line.depth ≤ depth := by
  cases nodes with
  | nil => simp [shownOfAll]
  | cons node nodes =>
    obtain ⟨kind, text, children⟩ := node
    intro line hline
    obtain rfl := Option.some.inj hline
    exact Nat.le_refl depth

mutual
/-- A node is found again with what is below it, up to a line that is not indented more. -/
theorem nested_shownAt (depth : Nat) (node : Node) (lines : List ListingLine)
    (stop : ∀ line ∈ lines.head?, line.depth ≤ depth) :
    nested (node.shownAt depth ++ lines) = node :: nested lines := by
  cases node with
  | mk kind text children =>
    have deeper : ∀ line ∈ shownOfAll (depth + 1) children, decide (depth < line.depth) = true :=
      fun line hline => decide_eq_true (le_depth_of_mem_shownOfAll (depth + 1) children line hline)
    have ends : ∀ line ∈ lines.head?, decide (depth < line.depth) = false :=
      fun line hline => decide_eq_false (Nat.not_lt.mpr (stop line hline))
    obtain ⟨below, after⟩ := Text.span_until deeper ends
    rw [shownAt, List.cons_append, nested, below, after, nested_shownOfAll (depth + 1) children]
theorem nested_shownOfAll (depth : Nat) : (nodes : List Node) → nested (shownOfAll depth nodes) = nodes
  | [] => by rw [shownOfAll, nested]
  | node :: nodes => by
    rw [shownOfAll, nested_shownAt depth node _ (shownOfAll_head depth nodes), nested_shownOfAll depth nodes]
end

theorem outline_nested {lines others : List ListingLine} (same : lines.map (·.depth) = others.map (·.depth)) :
    outlineOfAll (nested lines) = outlineOfAll (nested others) := by
  induction hn : lines.length using Nat.strongRecOn generalizing lines others with
  | ind n ih =>
    cases lines with
    | nil =>
      rw [List.map_eq_nil_iff.mp same.symm]
    | cons line lines =>
      obtain ⟨other, others, rfl, deep, rest⟩ := List.map_eq_cons_iff.mp same.symm
      have depth : line.depth = other.depth := deep.symm
      have below : (lines.takeWhile (other.depth < ·.depth)).map (·.depth) =
          (others.takeWhile (other.depth < ·.depth)).map (·.depth) := by
        have cut := congrArg (List.takeWhile fun deep => decide (other.depth < deep)) rest.symm
        rwa [List.takeWhile_map, List.takeWhile_map] at cut
      have after : (lines.dropWhile (other.depth < ·.depth)).map (·.depth) =
          (others.dropWhile (other.depth < ·.depth)).map (·.depth) := by
        have cut := congrArg (List.dropWhile fun deep => decide (other.depth < deep)) rest.symm
        rwa [List.dropWhile_map, List.dropWhile_map] at cut
      have shorter {part : List ListingLine} (h : part.Sublist lines) : part.length < n := by
        rw [← hn]
        exact Nat.lt_succ_of_le h.length_le
      rw [nested, nested, depth, outlineOfAll, outlineOfAll, outline, outline,
        ih _ (shorter (List.takeWhile_sublist _)) below rfl, ih _ (shorter (List.dropWhile_sublist _)) after rfl]

theorem Unbroken.lines {node : Node} (h : node.Unbroken) : ∀ line ∈ node.linesAt 0, '\n' ∉ line.toList := by
  rw [linesAt_eq]
  refine List.forall_mem_map.mpr fun line hline => ListingLine.written_unbroken ?_
  have text : line.text ∈ node.preorder.map (·.text) := shownAt_texts 0 node ▸ List.mem_map_of_mem hline
  obtain ⟨below, mem, same⟩ := List.mem_map.mp text
  exact same ▸ h below mem

theorem splitOn_dump {node : Node} (h : node.Unbroken) :
    node.dump.toList.splitOn '\n' = (node.shownAt 0).map (·.written.toList) ++ [[]] := by
  rw [dump, splitOn_join_lines h.lines, linesAt_eq, List.map_map]
  rfl

theorem lineFeeds_dump {node : Node} (h : node.Unbroken) : lineFeeds node.dump = node.size := by
  have inside : ((node.linesAt 0).map lineFeeds).sum = 0 := by
    rw [List.sum_eq_zero_iff_forall_eq_nat, List.forall_mem_map]
    exact fun line hline => lineFeeds_eq_zero.mpr (h.lines line hline)
  rw [dump, lineFeeds_join_lines, inside, linesAt_eq, List.length_map, length_shownAt, Nat.add_zero]

theorem ofDump?_dump {node : Node} (h : node.Unbroken) : ofDump? node.dump = some node := by
  have lines : ((node.shownAt 0).map (·.written.toList)).mapM ListingLine.read? = some (node.shownAt 0) := by
    induction node.shownAt 0 with
    | nil => rfl
    | cons line lines ih =>
      rw [List.map_cons, List.mapM_cons, ListingLine.read?_written, ih]
      rfl
  have whole := nested_shownAt 0 node [] (by simp)
  rw [List.append_nil, nested] at whole
  rw [ofDump?, splitOn_dump h, List.dropLast_concat, lines, Option.map_some, whole]

def indents (listing : String) : List Nat := (listing.toList.splitOn '\n').dropLast.map ListingLine.indent

theorem indents_dump {node : Node} (h : node.Unbroken) :
    indents node.dump = ((node.shownAt 0).map (·.depth)).map (2 * ·) := by
  rw [indents, splitOn_dump h, List.dropLast_concat, List.map_map, List.map_map]
  exact List.map_congr_left fun line _ => line.indent_written

/-- The outline of a tree is seen from how deep the lines of its listing are indented. -/
theorem outline_of_indents {node other : Node} (h : node.Unbroken) (hother : other.Unbroken)
    (same : indents node.dump = indents other.dump) : node.outline = other.outline := by
  rw [indents_dump h, indents_dump hother] at same
  have depths := outline_nested (List.map_injective_iff.mpr (mul_right_injective₀ two_ne_zero) same)
  have alone (node : Node) : outlineOfAll (nested (node.shownAt 0)) = [node.outline] := by
    have whole := nested_shownAt 0 node [] (by simp)
    rw [List.append_nil, nested] at whole
    rw [whole, outlineOfAll, outlineOfAll]
  rw [alone, alone] at depths
  exact (List.cons.inj depths).1

/-- A listing shows one tree only: it has a line for each node, in which the tree is found again, and how the nodes lie
below each other is seen from the indentation alone. -/
theorem dump_shows_one_tree {node other : Node} (h : node.Unbroken) (hother : other.Unbroken) :
    (node.dump = other.dump → node = other) ∧ lineFeeds node.dump = node.size ∧ ofDump? node.dump = some node ∧
      (indents node.dump = indents other.dump → node.outline = other.outline) := by
  refine ⟨fun same => ?_, lineFeeds_dump h, ofDump?_dump h, outline_of_indents h hother⟩
  have found := ofDump?_dump h
  rw [same, ofDump?_dump hother] at found
  exact (Option.some.inj found).symm

/-- A text may look like indentation or like the name of a kind. -/
theorem lookalike_texts_are_found_again :
    ∃ tree : Node, tree.Unbroken ∧ tree.dump = "Root\n  CreateTable   Root\n  TableOption\n    Root  \n" ∧
      lineFeeds tree.dump = 4 ∧ ofDump? tree.dump = some tree := by
  have unbroken :
      Unbroken ⟨.root, "", [⟨.createTable, "  Root", []⟩, ⟨.tableOption, "", [⟨.root, " ", []⟩]⟩]⟩ := by decide
  obtain ⟨-, lines, found, -⟩ := dump_shows_one_tree unbroken unbroken
  exact ⟨_, unbroken, by decide, lines, found⟩

end Node

end DdlModels
