import ArtifactTree.Graph.Traversal

/-!
# The walk that every format follows

A walk visits the rendered tree depth first and tells it as a list of events. Omitted and malformed
nodes are visited and not entered; below the first level, nodes whose scope in force is `test` are
left out. A format is a function of the events, so all formats show the same nodes in one order.
-/

namespace ArtifactTree

/-- The position of a node in the rendered tree. -/
structure Visit where
  id : Nat
  parent : Option Nat
  /-- For each level from the first down to the node, whether the node on the way there is the last
  rendered one among its siblings. -/
  lineage : List Bool
deriving DecidableEq

namespace Visit

def depth (v : Visit) : Nat := v.lineage.length

/-- Whether the node is the last rendered one among its siblings; the root is. -/
def isLast (v : Visit) : Bool := v.lineage.getLastD true

end Visit

/-- One step of a walk. -/
inductive Event where
  | node (visit : Visit)
  /-- The edge to the node just reached. -/
  | edge (parent child : Nat)
  /-- All below the node has been visited. -/
  | leave (id : Nat)
deriving DecidableEq

namespace Graph

/-- Whether the walk may show a child of the node at `id`. -/
def shows (g : Graph) (id child : Nat) : Bool :=
  id == root || (g.node child).effectiveScope != some .test

def renderedChildren (g : Graph) (id : Nat) : List Nat :=
  (g.children id).filter (g.shows id)

/-- Whether the walk goes on below a node. -/
def entered (g : Graph) (id : Nat) : Bool :=
  (g.node id).coordinate.isSome && !(g.node id).isOmitted

/-- The items of a list, each with whether it is the last one. -/
def withLast {α : Type} : List α → List (α × Bool)
  | [] => []
  | [a] => [(a, true)]
  | a :: b :: rest => (a, false) :: withLast (b :: rest)

theorem map_fst_withLast {α : Type} (items : List α) : (withLast items).map (·.1) = items := by
  fun_induction withLast items <;> simp_all

/-- Only the last item is marked. -/
theorem map_snd_withLast {α : Type} (item : α) (items : List α) :
    (withLast (item :: items)).map (·.2) = List.replicate items.length false ++ [true] := by
  induction items generalizing item with
  | nil => rfl
  | cons next items ih => simp [withLast, ih next, List.replicate_succ]

/-- The events of the walk through a node and all below it, down to `limit` levels. -/
def walkWithin (g : Graph) : (limit : Nat) → Visit → List Event
  | 0, _ => []
  | limit + 1, visit =>
    let below :=
      if g.entered visit.id then
        (withLast (g.renderedChildren visit.id)).flatMap fun (child, last) =>
          walkWithin g limit ⟨child, some visit.id, visit.lineage ++ [last]⟩
      else []
    .node visit :: (visit.parent.map (.edge · visit.id)).toList ++ below ++ [.leave visit.id]

def walk (g : Graph) : List Event := g.walkWithin g.size ⟨root, none, []⟩

end Graph

end ArtifactTree
