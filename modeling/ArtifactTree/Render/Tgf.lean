import ArtifactTree.Render.Label
import ArtifactTree.Render.Walk

/-!
# Trivial Graph Format

A table of nodes, a line with a number sign, and a table of edges. A node is identified by its
position in the arena.
-/

namespace ArtifactTree.Render

def tgfNode (g : Graph) (id : Nat) : String :=
  toString id ++ " " ++ (g.node id).label ++ "\n"

def tgfEdge (g : Graph) (parent child : Nat) : String :=
  toString parent ++ " " ++ toString child ++ " " ++ (g.node child).edgeLabel ++ "\n"

def tgf (g : Graph) : String :=
  let events := g.walk
  let nodes := events.filterMap fun
    | .node visit => some (tgfNode g visit.id)
    | _ => none
  let edges := events.filterMap fun
    | .edge parent child => some (tgfEdge g parent child)
    | _ => none
  String.join nodes ++ "#\n" ++ String.join edges

end ArtifactTree.Render
