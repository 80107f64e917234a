import ArtifactTree.Graph.Basic

/-!
# Labels

The label of a node is its full key, the marker ` (optional)` if the node is optional, and its
notes; the whole is in parentheses if the node is omitted. The label of an edge is the scope of the
child and the notes of the child.
-/

namespace ArtifactTree.Node

def malformedLabel : String := "(malformed node)"

/-- The marker of an optional node. A node omitted because it is optional says so in its notes. -/
def optionalMark (n : Node) : String :=
  if n.optional && n.omission != some .optional then " (optional)" else ""

/-- The declared version, if another one is in force. -/
def versionNote (n : Node) : Option String := do
  let _ ← n.managedVersion
  let c ← n.coordinate
  return "version managed from " ++ c.version

/-- The declared scope, if another one is in force. -/
def scopeNote (n : Node) : Option String := do
  let _ ← n.managedScope
  let scope ← n.scope
  return "scope managed from " ++ scope.name

/-- What there is to say about a node: what management forced, and why it is omitted. -/
def notes (n : Node) : List String :=
  [n.versionNote, n.scopeNote, n.omission.map (·.text)].filterMap id

def notesText (n : Node) : String := String.intercalate "; " n.notes

def label (n : Node) : String :=
  match n.fullKey with
  | none => malformedLabel
  | some key =>
    let base := key ++ n.optionalMark
    let noted := if n.notes.isEmpty then base else base ++ " - " ++ n.notesText
    if n.isOmitted then "(" ++ noted ++ ")" else noted

def edgeLabel (n : Node) : String :=
  match n.effectiveScope with
  | none => n.notesText
  | some scope => if n.notes.isEmpty then scope.name else scope.name ++ " - " ++ n.notesText

end ArtifactTree.Node
