import ArtifactTree.Graph.Traversal

/-!
# Reports

A `Report` counts the statuses of the reachable nodes and lists the version and scope conflicts in
the order in which mediation met them: by depth, then by position in the arena.
-/

namespace ArtifactTree

structure Conflict where
  artifact : String
  requested : String
  resolved : String
  /-- The coordinates from a direct dependency down to the node that lost. -/
  path : List String
deriving DecidableEq

def Conflict.text (c : Conflict) : String :=
  c.artifact ++ " requested " ++ c.requested ++ " but resolved " ++ c.resolved ++ " (via " ++
    String.intercalate " -> " c.path ++ ")"

structure Report where
  included : Nat := 0
  duplicates : Nat := 0
  scopeConflicts : Nat := 0
  versionConflicts : Nat := 0
  cycles : Nat := 0
  optional : Nat := 0
  malformed : Nat := 0
  conflicts : List Conflict := []
deriving DecidableEq

namespace Report

def omitted (r : Report) : Nat :=
  r.duplicates + r.scopeConflicts + r.versionConflicts + r.cycles + r.optional + r.malformed

/-- Counts one more node of the given status. -/
def count (r : Report) : Status → Report
  | .unvisited => r
  | .included => { r with included := r.included + 1 }
  | .omitted (.duplicate _) => { r with duplicates := r.duplicates + 1 }
  | .omitted (.scopeConflict _) => { r with scopeConflicts := r.scopeConflicts + 1 }
  | .omitted (.versionConflict _) => { r with versionConflicts := r.versionConflicts + 1 }
  | .omitted (.cycle _) => { r with cycles := r.cycles + 1 }
  | .omitted .optional => { r with optional := r.optional + 1 }
  | .omitted .malformed => { r with malformed := r.malformed + 1 }

def line (label : String) (count : Nat) : String := label ++ toString count ++ "\n"

/-- The counts, one a line; malformed nodes only if there are any. -/
def text (r : Report) : String :=
  line "Included:          " r.included ++
    line "Duplicates:        " r.duplicates ++
    line "Version conflicts: " r.versionConflicts ++
    line "Scope conflicts:   " r.scopeConflicts ++
    line "Cycles:            " r.cycles ++
    line "Optional:          " r.optional ++
    if r.malformed > 0 then line "Malformed:         " r.malformed else ""

end Report

/-- The counts of a graph, one a line. -/
def Graph.Stats.text (s : Graph.Stats) : String :=
  Report.line "Nodes:             " s.nodeCount ++
    Report.line "Direct:            " s.directCount ++
    Report.line "Transitive:        " s.transitiveCount ++
    Report.line "Max depth:         " s.maxDepth

namespace Graph

/-- The declared coordinates on the way from the root to a node, without the root. -/
def pathTo (g : Graph) (id : Nat) : List String :=
  (((id :: g.ancestors id).filter (· != root)).map fun id =>
    match (g.node id).coordinate with
    | some c => c.text
    | none => "?").reverse

/-- The conflict that a node lost, if it lost one and has the value that lost. -/
def conflict? (g : Graph) (id : Nat) : Option Conflict := do
  let n := g.node id
  let artifact ← n.artifactKey
  let (requested, resolved) ← match n.status with
    | .omitted (.scopeConflict winner) => n.effectiveScope.map fun s => (s.name, winner.name)
    | .omitted (.versionConflict winner) => n.effectiveVersion.map fun v => (v, winner)
    | _ => none
  return { artifact, requested, resolved, path := g.pathTo id }

/-- Whether a place in the tree, a depth and an id, comes before another or is the same. -/
def placeLe (a b : (Nat × Nat) × Conflict) : Bool :=
  a.1.1 < b.1.1 || a.1.1 = b.1.1 && a.1.2 ≤ b.1.2

/-- What the statuses of a graph amount to. -/
def report (g : Graph) : Report :=
  let reachable := g.preorder
  let counts := reachable.foldl (fun (r : Report) id => r.count (g.node id).status) {}
  let conflicts := reachable.filterMap fun id =>
    (g.conflict? id).map fun conflict => ((g.depth id, id), conflict)
  { counts with conflicts := (conflicts.mergeSort placeLe).map (·.2) }

end Graph

end ArtifactTree
