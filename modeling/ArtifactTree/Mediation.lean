import ArtifactTree.Graph.Traversal

/-!
# Mediation

Of several requests for one artifact, the first one met in breadth-first order wins: shallower
before deeper, earlier before later. Every node that is reached gets a status, and what is below an
omitted node is never reached.

A node is omitted, by the first rule that applies: without a coordinate as malformed; with the full
key of an included node as duplicate; with such a key up to the scope as scope conflict; if its
artifact is included at another version as version conflict; if it is optional. Otherwise it is
included. Its children are then enqueued, except for cycle markers of a node met before: they repeat
an included ancestor, so they are omitted at once, and only as malformed, optional or cycle.
-/

namespace ArtifactTree

namespace Mediation

/-- What is known about included nodes. -/
structure Winners where
  keys : List String := []
  /-- The version of the first one of each artifact key. -/
  versions : List (String × String) := []

/-- Takes note of an included node with the given coordinate, version and scope in force. -/
def Winners.add (w : Winners) (c : Coordinate) (version : String) (scope : Option Scope) :
    Winners where
  keys := c.fullKey version scope :: w.keys
  versions :=
    match w.versions.lookup c.artifactKey with
    | some _ => w.versions
    | none => (c.artifactKey, version) :: w.versions

/-- The first other scope under which the artifact is included at this version. A node without a
scope has no scope to lose. -/
def Winners.otherScope? (w : Winners) (c : Coordinate) (version : String) (scope : Option Scope) :
    Option Scope :=
  scope.bind fun scope => Scope.all.find? fun other =>
    other != scope && w.keys.contains (c.fullKey version (some other))

/-- The version of the first included node of the artifact, if it is another one. -/
def Winners.otherVersion? (w : Winners) (c : Coordinate) (version : String) : Option String :=
  (w.versions.lookup c.artifactKey).filter (· != version)

/-- Why a node loses against the winners so far, or nothing if it wins itself. -/
def Winners.omission? (w : Winners) (n : Node) : Option Omission :=
  match n.coordinate with
  | none => some .malformed
  | some c =>
    let version := n.managedVersion.getD c.version
    let scope := n.effectiveScope
    if w.keys.contains (c.fullKey version scope) then some (.duplicate c)
    else
      match w.otherScope? c version scope with
      | some winner => some (.scopeConflict winner)
      | none =>
        match w.otherVersion? c version with
        | some winner => some (.versionConflict winner)
        | none => if n.optional then some .optional else none

def markerOmission (n : Node) : Omission :=
  match n.coordinate with
  | none => .malformed
  | some c => if n.optional then .optional else .cycle c

/-- A mediation under way. -/
structure State where
  graph : Graph
  winners : Winners := {}
  /-- The nodes that were enqueued. -/
  met : List Nat := []
  /-- The nodes still to be judged. -/
  queue : List Nat := []

/-- Whether the node is a cycle marker of a node that was met. -/
def State.closesCycle (s : State) (id : Nat) : Bool :=
  (s.graph.node id).cycleOf.any s.met.contains

/-- Meets a child of an included node: omits it if it closes a cycle, and else enqueues it unless it
was met before. -/
def State.meet (s : State) (child : Nat) : State :=
  if s.closesCycle child then
    let omission := markerOmission (s.graph.node child)
    { s with graph := (s.graph.truncateChildren child).setStatus child (.omitted omission) }
  else if s.met.contains child then s
  else { s with met := child :: s.met, queue := s.queue ++ [child] }

def State.include (s : State) (id : Nat) : State :=
  let n := s.graph.node id
  let winners :=
    match n.coordinate with
    | some c => s.winners.add c (n.managedVersion.getD c.version) n.effectiveScope
    | none => s.winners
  let s := { s with winners, graph := s.graph.setStatus id .included }
  (s.graph.children id).foldl State.meet s

def State.judge (s : State) (id : Nat) : State :=
  match s.winners.omission? (s.graph.node id) with
  | some omission => { s with graph := s.graph.setStatus id (.omitted omission) }
  | none => s.include id

/-- Judges nodes in the order of the queue, at most `limit` of them. -/
def State.run : (limit : Nat) → State → State
  | 0, s => s
  | limit + 1, s =>
    match s.queue with
    | [] => s
    | id :: queue => run limit ({ s with queue }.judge id)

end Mediation

namespace Graph

/-- Forgets what an earlier mediation decided. -/
def clearStatuses (g : Graph) : Graph := ⟨g.nodes.map fun n => { n with status := .unvisited }⟩

/-- Mediates between the nodes of a graph. Every node is enqueued at most once, so as many steps as
there are nodes suffice. -/
def mediate (g : Graph) : Graph :=
  (Mediation.State.run g.size { graph := g.clearStatuses, met := [root], queue := [root] }).graph

end Graph

end ArtifactTree
