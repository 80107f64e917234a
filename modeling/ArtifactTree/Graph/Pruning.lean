import ArtifactTree.Graph.Traversal

/-!
# Pruning nested test branches

A test-scoped declaration counts only for the project that states it. `pruneNestedTests` detaches
every test-scoped node that is not a child of the root.
-/

namespace ArtifactTree.Graph

/-- Whether a node may stay below the first level: its declared scope is not `test`. -/
def mayNest (n : Node) : Bool := n.scope != some .test

/-- Detaches the test-scoped children of one node and counts them. -/
def pruneAt (g : Graph) (id : Nat) : Graph × Nat :=
  let before := (g.children id).length
  let pruned := g.retainChildren id mayNest
  let after := (pruned.children id).length
  (pruned, before - after)

/-- Detaches every test-scoped node below the first level, and counts the detached children. The
nodes are those reachable before the first is detached. -/
def pruneNestedTests (g : Graph) : Graph × Nat :=
  (g.preorder.filter (· != root)).foldl (fun (g, count) id =>
    let (g, detached) := g.pruneAt id
    (g, count + detached)) (g, 0)

end ArtifactTree.Graph
