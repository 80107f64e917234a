import ArtifactTree.Graph.Basic

/-!
# Paths through the graph

Ancestors follow the parents of a node, `preorder` follows the children lists from the root. No
chain of parents or of children is longer than the arena, which bounds both.
-/

namespace ArtifactTree.Graph

/-- The nodes met by following parents from `id`, at most `limit` of them. -/
def ancestorsWithin (g : Graph) : Nat → Nat → List Nat
  | 0, _ => []
  | limit + 1, id =>
    match (g.node id).parent with
    | none => []
    | some parent => parent :: ancestorsWithin g limit parent

/-- The proper ancestors of the node at `id`, nearest first. -/
def ancestors (g : Graph) (id : Nat) : List Nat := g.ancestorsWithin g.size id

/-- The distance of the node at `id` from the root. -/
def depth (g : Graph) (id : Nat) : Nat := (g.ancestors id).length

/-- The node at `id` and all below it in depth-first order, down to `limit` levels. -/
def preorderWithin (g : Graph) : Nat → Nat → List Nat
  | 0, _ => []
  | limit + 1, id => id :: (g.children id).flatMap (preorderWithin g limit)

/-- The nodes reachable from the root in depth-first order, each before its subtree. -/
def preorder (g : Graph) : List Nat := g.preorderWithin g.size root

structure Stats where
  /-- Reachable nodes, the root included. -/
  nodeCount : Nat
  directCount : Nat
  /-- Reachable nodes below the first level. -/
  transitiveCount : Nat
  /-- The largest depth of a reachable node. -/
  maxDepth : Nat
deriving DecidableEq

def stats (g : Graph) : Stats :=
  let reachable := g.preorder
  let directCount := (g.children root).length
  { nodeCount := reachable.length
    directCount
    transitiveCount := reachable.length - (directCount + 1)
    maxDepth := (reachable.map g.depth).foldl max 0 }

end ArtifactTree.Graph
