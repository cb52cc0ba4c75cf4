import DdlModels.Draft.Basic
import DdlModels.Tree.Node

/-!
# Drafts from trees

A walk through a tree drafts a package: tables and columns are opened and closed as their nodes are
entered and left, types and attributes are set as their nodes are entered, and other nodes are passed
over.
-/

namespace DdlModels

/-- Whether an attribute that is written `NULL` or `NOT NULL` forbids null. -/
def forbidsNull (text : String) : Bool :=
  "NOT".toList.isPrefixOf (text.toList.map Char.toUpper)

/-- The operation that an event calls for, if any. -/
def Event.operation? : Event → Option Operation
  | enter ⟨kind, text, _⟩ =>
    match kind with
    | .createTable => some (.enterTable text)
    | .columnDeclaration => some (.enterColumn text)
    | .defaultConstraint => some (.setDefault text)
    | .commentConstraint => some (.setComment text)
    | .nullConstraint => some (.setNotNull (forbidsNull text))
    | .dataType category => some (.setType text category.rules)
    | _ => none
  | exit ⟨kind, _, _⟩ =>
    match kind with
    | .createTable => some .exitTable
    | .columnDeclaration => some .exitColumn
    | _ => none

/-- A draft with the notices so far. -/
structure Progress where
  draft : Draft := {}
  notices : List Notice := []

/-- Work on a draft, which ends at the first violation. -/
abbrev DraftM := ExceptT Violation (StateM Progress)

namespace DraftM

def perform (operation : Operation) : DraftM Unit := do
  let progress ← get
  let step := progress.draft.perform operation
  set ({ draft := step.draft, notices := progress.notices ++ step.notices } : Progress)
  if let some violation := step.violation then throw violation

/-- Responds to an event of a walk. -/
def listen (event : Event) : DraftM Unit :=
  match event.operation? with
  | some operation => perform operation
  | none => pure ()

def report (notice : Notice) : DraftM Unit :=
  modify fun progress => { progress with notices := progress.notices ++ [notice] }

def finish : DraftM Package := do
  match (← get).draft.finish with
  | .ok package => return package
  | .error violation => throw violation

/-- The result of some work, and what it left of the draft and the notices. -/
def runFrom {α : Type} (work : DraftM α) (progress : Progress) : Except Violation α × Progress :=
  work.run progress

end DraftM

def Node.draft (node : Node) : DraftM Unit := node.walk DraftM.listen

/-- The package that a tree tells of. -/
def Node.package (node : Node) : DraftM Package := do
  node.draft
  let package ← DraftM.finish
  DraftM.report (.packageBuilt package.tables.length package.imports.length)
  return package

end DdlModels
