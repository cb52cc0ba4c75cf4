import DdlModels.Tree.Kind

/-!
# Trees

A script is read into a tree. Its listing shows one node a line, and its events are the order in which
a walk enters and leaves the nodes.
-/

namespace DdlModels

/-- A node of a tree, with its text as written. -/
structure Node where
  kind : NodeKind
  text : String
  children : List Node

namespace Node

def leaf (kind : NodeKind) (text : String) : Node := ⟨kind, text, []⟩

/-- What a node shows of itself: its kind, and its text unless that is empty. -/
def label (kind : NodeKind) (text : String) : String :=
  if text.isEmpty then kind.name else kind.name ++ " " ++ text

/-- Two spaces for each level. -/
def indentation : Nat → String
  | 0 => ""
  | depth + 1 => "  " ++ indentation depth

mutual
/-- The lines of a listing that starts at the given depth. -/
def linesAt (depth : Nat) : Node → List String
  | ⟨kind, text, children⟩ => (indentation depth ++ label kind text) :: linesOfAll (depth + 1) children
def linesOfAll (depth : Nat) : List Node → List String
  | [] => []
  | node :: nodes => linesAt depth node ++ linesOfAll depth nodes
end

/-- The listing of a tree: one line a node, indented by depth. -/
def dump (node : Node) : String := String.join ((node.linesAt 0).map (· ++ "\n"))

end Node

/-- A step of a walk. -/
inductive Event where
  | enter (node : Node)
  | exit (node : Node)

namespace Event

def node : Event → Node
  | enter node => node
  | exit node => node

/-- The event as a word: a sign, the kind and the text. -/
def label : Event → String
  | enter node => "+" ++ node.kind.name ++ " " ++ node.text
  | exit node => "-" ++ node.kind.name ++ " " ++ node.text

end Event

namespace Node

mutual
/-- The events of a walk: a node is entered before its children and left after them. -/
def events : Node → List Event
  | ⟨kind, text, children⟩ =>
    .enter ⟨kind, text, children⟩ :: eventsOfAll children ++ [.exit ⟨kind, text, children⟩]
def eventsOfAll : List Node → List Event
  | [] => []
  | node :: nodes => events node ++ eventsOfAll nodes
end

mutual
/-- Walks through a tree depth first. A listener that fails ends the walk. -/
def walk {m : Type → Type} [Monad m] (listen : Event → m Unit) : Node → m Unit
  | ⟨kind, text, children⟩ => do
    listen (.enter ⟨kind, text, children⟩)
    walkAll listen children
    listen (.exit ⟨kind, text, children⟩)
def walkAll {m : Type → Type} [Monad m] (listen : Event → m Unit) : List Node → m Unit
  | [] => pure ()
  | node :: nodes => do
    walk listen node
    walkAll listen nodes
end

mutual
def size : Node → Nat
  | ⟨_, _, children⟩ => sizeOfAll children + 1
def sizeOfAll : List Node → Nat
  | [] => 0
  | node :: nodes => size node + sizeOfAll nodes
end

end Node

end DdlModels
