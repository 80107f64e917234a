import ArtifactTree.Coordinate

/-!
# The dependency graph

The graph is an arena of nodes. The id of a node is its position there, and the project is node 0. A
node records the ids of its parent and of its children, so an artifact reached through two parents
is two nodes. What mediation decides about a node is its `Status`.

Reading is total: an id outside the arena reads as a node without a coordinate, and a change
outside the arena changes nothing. What a change needs to know of the arena is read before it, so
that the arena is changed in place.
-/

namespace ArtifactTree

/-- Why a node does not make it into the resolved set. -/
inductive Omission where
  /-- The same artifact, version and scope is already included. -/
  | duplicate (of : Coordinate)
  /-- The same artifact and version is already included under another scope. -/
  | scopeConflict (winner : Scope)
  /-- The same artifact is already included at another version. -/
  | versionConflict (winner : String)
  /-- The node asks again for one of its own ancestors. -/
  | cycle (of : Coordinate)
  | optional
  | malformed
deriving DecidableEq

def Omission.text : Omission → String
  | duplicate _ => "omitted for duplicate"
  | scopeConflict winner => "omitted for conflict with " ++ winner.name
  | versionConflict winner => "omitted for conflict with " ++ winner
  | cycle of => "omitted for introducing a cycle with " ++ of.text
  | optional => "omitted due to optional dependency"
  | malformed => "omitted for malformed node"

inductive Status where
  /-- Not reached: below an omitted node, or not mediated yet. -/
  | unvisited
  | included
  | omitted (reason : Omission)
deriving DecidableEq

structure Node where
  /-- Absent only on malformed nodes. -/
  coordinate : Option Coordinate := none
  /-- The declared scope; the project has none. -/
  scope : Option Scope := none
  optional : Bool := false
  exclusions : List Exclusion := []
  parent : Option Nat := none
  /-- In the order of declaration. -/
  children : List Nat := []
  /-- The version that management forces, where it differs from the declared one. -/
  managedVersion : Option String := none
  /-- The scope that management forces, where it differs from the declared one. -/
  managedScope : Option Scope := none
  /-- On a cycle marker, the ancestor that it asks for again. -/
  cycleOf : Option Nat := none
  status : Status := .unvisited
deriving DecidableEq, Inhabited

namespace Node

def project (coordinate : Coordinate) : Node := { coordinate := some coordinate }

def ofDeclaration (d : Declaration) : Node where
  coordinate := some d.coordinate
  scope := some d.scope
  optional := d.optional
  exclusions := d.exclusions

/-- The version in force: the managed one, else the declared one. -/
def effectiveVersion (n : Node) : Option String :=
  n.managedVersion <|> n.coordinate.map (·.version)

/-- The scope in force: the managed one, else the declared one. -/
def effectiveScope (n : Node) : Option Scope := n.managedScope <|> n.scope

def artifactKey (n : Node) : Option String := n.coordinate.map (·.artifactKey)

/-- The full key of the node, with the version and scope in force. -/
def fullKey (n : Node) : Option String :=
  n.coordinate.map fun c => c.fullKey (n.managedVersion.getD c.version) n.effectiveScope

def omission (n : Node) : Option Omission :=
  match n.status with
  | .omitted reason => some reason
  | _ => none

def isOmitted (n : Node) : Bool := n.omission.isSome

end Node

structure Graph where
  nodes : Array Node

namespace Graph

/-- The graph of a single root node, made free of parent and children. -/
def ofRoot (root : Node) : Graph := ⟨#[{ root with parent := none, children := [] }]⟩

def ofProject (coordinate : Coordinate) : Graph := ofRoot (.project coordinate)

def root : Nat := 0

/-- The number of nodes, detached ones included. -/
def size (g : Graph) : Nat := g.nodes.size

def node (g : Graph) (id : Nat) : Node := g.nodes.getD id {}

def children (g : Graph) (id : Nat) : List Nat := (g.node id).children

def modify (g : Graph) (id : Nat) (f : Node → Node) : Graph := ⟨g.nodes.modify id f⟩

/-- Lists an existing node as one more child of `parent`; its own parent stays. -/
def link (g : Graph) (parent child : Nat) : Graph :=
  g.modify parent fun p => { p with children := p.children ++ [child] }

/-- Appends `node` to the arena as the last child of `parent`. Its id is the old size. -/
def addChild (g : Graph) (parent : Nat) (node : Node) : Graph :=
  let id := g.size
  let grown : Graph := ⟨g.nodes.push { node with parent := some parent, children := [] }⟩
  grown.link parent id

def truncateChildren (g : Graph) (id : Nat) : Graph :=
  g.modify id fun n => { n with children := [] }

/-- Puts `kept` in place of the children of the node at `id`. -/
def keepChildren (g : Graph) (id : Nat) (kept : List Nat) : Graph :=
  g.modify id fun n => { n with children := kept }

/-- Keeps the children of the node at `id` that satisfy `keep`, in order. The condition depends on the
child alone, not on what it said of the children before. -/
def retainChildren (g : Graph) (id : Nat) (keep : Node → Bool) : Graph :=
  g.keepChildren id ((g.children id).filter fun child => keep (g.node child))

/-- Records what mediation decided about the node at `id`. -/
def setStatus (g : Graph) (id : Nat) (status : Status) : Graph :=
  g.modify id fun n => { n with status }

end Graph

end ArtifactTree
