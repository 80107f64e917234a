import ArtifactTree.Render.Label
import ArtifactTree.Render.Walk

/-!
# Graphviz

A directed graph named for its root, with one line per edge. A node is identified by its label, so
an edge into an omitted node shows why it is omitted.
-/

namespace ArtifactTree.Render

/-- Quotes and backslashes are preceded by a backslash. -/
def dotChar (c : Char) : List Char := if c = '"' || c = '\\' then ['\\', c] else [c]

def dotQuoted (label : String) : String :=
  "\"" ++ String.ofList (label.toList.flatMap dotChar) ++ "\""

def dotEdge (g : Graph) (parent child : Nat) : String :=
  "\t" ++ dotQuoted (g.node parent).label ++ " -> " ++ dotQuoted (g.node child).label ++ " ;\n"

def dot (g : Graph) : String :=
  let lines := g.walk.filterMap fun
    | .node ⟨id, none, _⟩ => some ("digraph " ++ dotQuoted (g.node id).label ++ " \x7b\n")
    | .edge parent child => some (dotEdge g parent child)
    | _ => none
  String.join lines ++ "\x7d\n"

end ArtifactTree.Render
