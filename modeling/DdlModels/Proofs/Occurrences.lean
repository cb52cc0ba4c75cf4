import DdlModels.Proofs.Steps
import DdlModels.Proofs.TreeReading

/-!
# Where the texts of nodes come from

The text of a node is a piece of the source, as it is written there. The pieces of all nodes, taken in preorder,
stand in the source one after another and apart: what is read is never read again, nor put in another order.
-/

namespace DdlModels

/-- Pieces stand in a text one after another, with a gap before each of them and another at the end. -/
inductive Occur : List (List Char) → List Char → Prop
  | none (gap : List Char) : Occur [] gap
  | piece (gap piece : List Char) {pieces : List (List Char)} {rest : List Char} (later : Occur pieces rest) :
    Occur (piece :: pieces) (gap ++ (piece ++ rest))

namespace Occur

variable {pieces more : List (List Char)} {text rest : List Char}

theorem pad (h : Occur pieces text) (before : List Char) : Occur pieces (before ++ text) := by
  cases h with
  | none => exact .none (before ++ text)
  | piece gap piece later =>
    rw [← List.append_assoc]
    exact .piece (before ++ gap) piece later

theorem append (first : Occur pieces text) (second : Occur more rest) :
    Occur (pieces ++ more) (text ++ rest) := by
  induction first with
  | none gap => exact second.pad gap
  | piece gap piece _ ih =>
    rw [List.append_assoc, List.append_assoc]
    exact .piece gap piece ih

theorem mono (h : Occur pieces text) (part : text <:+: rest) : Occur pieces rest := by
  obtain ⟨before, after, rfl⟩ := part
  have whole := (h.pad before).append (.none after)
  rwa [List.append_nil] at whole

theorem single (text : List Char) : Occur [text] text := by
  have whole := Occur.piece [] text (.none [])
  rwa [List.nil_append, List.append_nil] at whole

theorem gaps (h : Occur pieces text) :
    ∃ first gaps, gaps.length = pieces.length ∧ text = first ++ (List.zipWith (· ++ ·) pieces gaps).flatten := by
  induction h with
  | none gap => exact ⟨gap, [], rfl, by simp⟩
  | piece gap piece _ ih =>
    obtain ⟨first, gaps, same, rfl⟩ := ih
    exact ⟨gap, first :: gaps, by rw [List.length_cons, List.length_cons, same], by simp⟩

end Occur

namespace Node

/-- The texts of some nodes and of those below them, in preorder. -/
def texts (nodes : List Node) : List (List Char) := (preorderOfAll nodes).map (·.text.toList)

theorem texts_append (nodes more : List Node) : texts (nodes ++ more) = texts nodes ++ texts more := by
  induction nodes with
  | nil => rfl
  | cons node nodes ih =>
    simp only [texts, List.cons_append, preorderOfAll, List.map_append] at ih ⊢
    rw [ih, List.append_assoc]

theorem texts_node (kind : NodeKind) (text : List Char) (children : List Node) :
    texts [⟨kind, String.ofList text, children⟩] = text :: texts children := by
  simp [texts, preorderOfAll, preorder]

theorem mem_preorder {node other : Node} :
    other ∈ node.preorder ↔ other = node ∨ other ∈ preorderOfAll node.children := by
  obtain ⟨kind, text, children⟩ := node
  rw [preorder, List.mem_cons]

theorem mem_preorderOfAll {nodes : List Node} {other : Node} :
    other ∈ preorderOfAll nodes ↔ ∃ node ∈ nodes, other ∈ node.preorder := by
  induction nodes with
  | nil => simp [preorderOfAll]
  | cons node nodes ih => rw [preorderOfAll, List.mem_append, ih, List.exists_mem_cons_iff]

variable {node other : Node}

theorem IsLeaf.eq_of_mem (h : node.IsLeaf) (mem : other ∈ node.preorder) : other = node := by
  rcases mem_preorder.mp mem with same | below
  · exact same
  · rw [h.childless] at below
    exact absurd below List.not_mem_nil

/-- A node that is not the root and has a text. -/
def IsPiece (node : Node) : Prop := node.kind ≠ .root ∧ node.text ≠ ""

private theorem IsColumn.isPiece (h : node.IsColumn) (mem : other ∈ node.preorder) : other.IsPiece := by
  rcases mem_preorder.mp mem with rfl | below
  · exact ⟨by simp [h.kind], h.text⟩
  · obtain ⟨type, attributes, hchildren, ⟨htype, leaf⟩, hattributes⟩ := h.children
    obtain ⟨child, hchild, mem⟩ := mem_preorderOfAll.mp below
    rw [hchildren] at hchild
    rcases List.mem_cons.mp hchild with rfl | hchild
    · rw [leaf.eq_of_mem mem]
      refine ⟨?_, leaf.text⟩
      intro root
      rw [root] at htype
      contradiction
    · obtain ⟨told, leaf⟩ := hattributes child hchild
      rw [leaf.eq_of_mem mem]
      refine ⟨?_, leaf.text⟩
      intro root
      rw [root] at told
      contradiction

private theorem IsTable.isPiece (h : node.IsTable) (mem : other ∈ node.preorder) : other.IsPiece := by
  rcases mem_preorder.mp mem with rfl | below
  · exact ⟨by simp [h.kind], h.text⟩
  · obtain ⟨definitions, options, hchildren, -, hdefinitions, hoptions⟩ := h.children
    obtain ⟨child, hchild, mem⟩ := mem_preorderOfAll.mp below
    rw [hchildren] at hchild
    rcases List.mem_append.mp hchild with hchild | hchild
    · rcases hdefinitions child hchild with column | ⟨key, leaf⟩
      · exact column.isPiece mem
      · rw [leaf.eq_of_mem mem]
        exact ⟨by simp [key], leaf.text⟩
    · rcases hoptions with rfl | ⟨option, rfl, kind, leaf⟩
      · contradiction
      · obtain rfl := List.mem_singleton.mp hchild
        rw [leaf.eq_of_mem mem]
        exact ⟨by simp [kind], leaf.text⟩

theorem IsScript.isPiece (h : node.IsScript) (mem : other ∈ node.descendants) : other.IsPiece := by
  obtain ⟨table, htable, mem⟩ := mem_preorderOfAll.mp mem
  exact (h.children table htable).isPiece mem

theorem IsScript.filter_preorder (h : node.IsScript) :
    node.preorder.filter (·.kind != .root) = node.descendants := by
  have below : ∀ other ∈ preorderOfAll node.children, other.kind != .root := by
    intro other mem
    exact bne_iff_ne.mpr (h.isPiece mem).1
  have top := h.kind
  obtain ⟨kind, text, children⟩ := node
  obtain rfl : kind = .root := top
  rw [preorder, List.filter_cons_of_neg (by simp), List.filter_eq_self.mpr below]
  rfl

end Node

namespace Text

theorem trim_infix (text : List Char) : trim text <:+: text := by
  have start : trimStart text <:+: text := (List.dropWhile_suffix isBlank).isInfix
  have last : trimEnd (trimStart text) <+: trimStart text := by
    rw [trimEnd, ← List.reverse_suffix, List.reverse_reverse]
    exact List.dropWhile_suffix isBlank
  exact last.isInfix.trans start

end Text

namespace Sql

open Node

/-- The texts of the nodes that were read occur in the text that was taken. -/
def Reply.Faithful : Reply → Prop := Reply.Holds fun nodes taken _ => Occur (texts nodes) taken

namespace Reply

theorem Leafless.faithful {reply : Reply} (h : reply.Leafless) : reply.Faithful := by
  refine h.mono ?_
  rintro _ taken _ rfl
  exact .none taken

end Reply

theorem occur_texts_append {before after : List Node} {taken more : List Char}
    (first : Occur (texts before) taken) (second : Occur (texts after) more) :
    Occur (texts (before ++ after)) (taken ++ more) := by
  rw [texts_append]
  exact first.append second

theorem occur_texts_node (kind : NodeKind) (name : List Char) {children : List Node} {taken : List Char}
    (below : Occur (texts children) taken) :
    Occur (texts [⟨kind, String.ofList name, children⟩]) (name ++ taken) := by
  rw [texts_node]
  exact .piece [] name below

namespace Grammar

theorem leafOf_occur (kind : NodeKind) (text : List Char) : Occur (texts (leafOf kind text)) text := by
  rw [leafOf, Node.leaf, texts_node]
  exact .single text

theorem trimmedLeafOf_occur (kind : NodeKind) (text : List Char) :
    Occur (texts (trimmedLeafOf kind text)) text := by
  rw [trimmedLeafOf]
  split
  case h_1 => exact .none text
  case h_2 => exact (leafOf_occur kind (Text.trim text)).mono (Text.trim_infix text)

theorem readWith_faithful {readGroup : List Char → Reply} (hgroup : ∀ text, (readGroup text).Faithful)
    (grammar : Grammar) (text : List Char) : (grammar.readWith readGroup text).Faithful := by
  induction grammar generalizing text with
  | lexeme piece => exact (piece.read_nodes text).faithful
  | group => exact hgroup text
  | seq first second ihf ihs => exact (ihf text).andThen ihs occur_texts_append
  | choice first second ihf ihs => exact (ihf text).orElse ((ihs text).alt _ text)
  | optional part ih => exact (ih text).orElse (.none [])
  | many part ih => exact readMany_holds ih (.none []) occur_texts_append text
  | butNot barred part _ ih => exact Reply.Holds.bar fun _ => ih text
  | cut part ih => exact (ih text).cut
  | context what part ih => exact (ih text).context what text
  | leaf kind part ih => exact (ih text).gather fun _ => leafOf_occur kind _
  | trimmedLeaf kind part ih => exact (ih text).gather fun _ => trimmedLeafOf_occur kind _
  | branch kind name body ihn ihb => exact (ihn text).branch ihb fun _ => occur_texts_node kind _

theorem readGroupWithin_faithful (depth : Nat) (text : List Char) : (readGroupWithin depth text).Faithful := by
  induction depth generalizing text with
  | zero => trivial
  | succ depth ih => exact readWith_faithful ih groupBody text

/-- What a grammar reads is faithful to the text. -/
theorem read_faithful (grammar : Grammar) (text : List Char) : (grammar.read text).Faithful :=
  grammar.readWith_faithful (fun text => readGroupWithin_faithful _ text) text

end Grammar

namespace Script

variable {text rest : List Char}

/-- The texts of a statement's nodes occur before what is left after it. -/
theorem next_faithful {statement : Statement} (h : next text = .statement statement rest) :
    ∃ taken, text = taken ++ rest ∧ Occur (texts statement.node?.toList) taken := by
  obtain ⟨before, split⟩ := skipBlanks_suffix text
  rw [next_eq_step] at h
  revert h
  fun_cases step text with
  | case3 nodes taken left _ _ found =>
    rintro ⟨⟩
    have whole := Grammar.tableStatement.read_splits (skipBlanks text)
    have faithful := Grammar.tableStatement.read_faithful (skipBlanks text)
    rw [found] at whole faithful
    have start : skipBlanks text = taken ++ rest := whole
    -- the blanks before the statement belong to the gap before its first text
    refine ⟨before ++ taken, by rw [← split, start, List.append_assoc], ?_⟩
    rcases Grammar.tableStatement_yields (Grammar.read_yields found) with rfl | ⟨node, rfl, -⟩
    · exact .none _
    · exact Occur.pad faithful before
  | case5 _ nodes c taken left _ _ _ found =>
    rintro ⟨⟩
    have whole := Grammar.statementTail.read_splits (skipBlanks text)
    rw [found] at whole
    have start : skipBlanks text = c :: taken ++ rest := whole
    exact ⟨before ++ c :: taken, by rw [← split, start, List.append_assoc], .none _⟩
  | _ => simp

theorem tables_faithful (text : List Char) : Occur (texts (readFrom text).tables) text := by
  fun_induction readFrom text with
  | case1 text | case4 text => exact .none text
  | case2 text rest step ih =>
    have suffix := next_stops text
    rw [step] at suffix
    exact ih.mono (List.IsSuffix.isInfix suffix)
  | case3 text statement rest step ih =>
    obtain ⟨taken, rfl, front⟩ := next_faithful step
    rw [tables_cons, texts_append]
    exact front.append ih

end Script

/-- The tree is a faithful picture of the source. Between gaps, the source is made of the texts of all nodes but the
root, in preorder, and none of these is empty. -/
theorem parse_texts_in_order {source : String} {tree : Node} (parsed : parse source = .ok tree) :
    (∀ node ∈ tree.preorder.filter (·.kind != .root), node.text ≠ "") ∧
    ∃ (first : String) (gaps : List String),
      gaps.length = (tree.preorder.filter (·.kind != .root)).length ∧
      source = first ++
        String.join
          (List.zipWith (fun node gap => node.text ++ gap) (tree.preorder.filter (·.kind != .root)) gaps) := by
  obtain ⟨-, rfl⟩ := Script.tree_eq_ok.mp parsed
  rw [(parse_shape parsed).filter_preorder]
  refine ⟨fun node mem => ((parse_shape parsed).isPiece mem).2, ?_⟩
  obtain ⟨first, gaps, same, split⟩ := (Script.tables_faithful source.toList).gaps
  refine ⟨String.ofList first, gaps.map String.ofList, ?_, ?_⟩
  · rw [List.length_map, same, texts, List.length_map]
    rfl
  · rw [← String.toList_inj, split, String.toList_append, String.toList_join, List.flatMap_def, List.map_zipWith,
      List.zipWith_map_right, texts, List.zipWith_map_left, String.toList_ofList]
    simp only [String.toList_append, String.toList_ofList]
    rfl

/-- A comment between the pieces, and a statement that leaves no node. -/
theorem two_tables_in_order :
    ∃ source tree, source =
        "CREATE TABLE `t` (a INT /* a */ NOT NULL, KEY k (a) ) ENGINE=x ; DROP TABLE a;create table u(b bit)" ∧
      parse source = .ok tree ∧
      (tree.preorder.filter (·.kind != .root)).map Node.text =
        ["`t`", "a", "INT", "NOT NULL", "KEY k (a)", "ENGINE=x", "u", "b", "bit"] ∧
      ∃ (first : String) (gaps : List String), gaps.length = 9 ∧
        source = first ++
          String.join
            (List.zipWith (fun node gap => node.text ++ gap) (tree.preorder.filter (·.kind != .root)) gaps) := by
  obtain ⟨source, hsource⟩ : ∃ source, source =
      "CREATE TABLE `t` (a INT /* a */ NOT NULL, KEY k (a) ) ENGINE=x ; DROP TABLE a;create table u(b bit)" :=
    ⟨_, rfl⟩
  have parsed : parse source = .ok ⟨.root, "", (readScript source).tables⟩ := by
    refine Script.tree_eq_ok.mpr ⟨?_, rfl⟩
    rw [hsource]
    decide +kernel
  have texts : ((⟨.root, "", (readScript source).tables⟩ : Node).preorder.filter (·.kind != .root)).map Node.text =
      ["`t`", "a", "INT", "NOT NULL", "KEY k (a)", "ENGINE=x", "u", "b", "bit"] := by
    rw [hsource]
    decide +kernel
  have count := congrArg List.length texts
  rw [List.length_map] at count
  obtain ⟨-, first, gaps, same, split⟩ := parse_texts_in_order parsed
  exact ⟨source, _, hsource, parsed, texts, first, gaps, same.trans count, split⟩

end Sql

end DdlModels
