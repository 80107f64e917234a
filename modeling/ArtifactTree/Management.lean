import ArtifactTree.Graph.Traversal
import ArtifactTree.Lookup

/-!
# Dependency management

A project may force the version or the scope of an artifact wherever it occurs below the project.
The table of these overrides goes by artifact key. A node only records a value that differs from the
one it declares, so no node is managed from its own value.
-/

namespace ArtifactTree

/-- A forced version, a forced scope, or both. -/
structure Override where
  version : Option String := none
  scope : Option Scope := none
deriving DecidableEq

/-- Overrides by artifact key, each key once. -/
structure Management where
  entries : List (String × Override) := []
deriving DecidableEq

namespace Management

/-- Adds an override; it replaces an earlier one of the same key entirely. -/
def insert (t : Management) (key : String) (override : Override) : Management :=
  if (t.entries.lookup key).isSome then
    ⟨Lookup.replaced key override t.entries⟩
  else ⟨t.entries ++ [(key, override)]⟩

/-- The table of a list of entries, of which the last one of a key counts. -/
def ofList (entries : List (String × Override)) : Management :=
  entries.foldl (fun t entry => t.insert entry.1 entry.2) {}

def get? (t : Management) (key : String) : Option Override := t.entries.lookup key

def size (t : Management) : Nat := t.entries.length

theorem get?_insert_self (t : Management) (key : String) (override : Override) :
    (t.insert key override).get? key = some override := by
  simp only [insert, get?]
  split
  next h => exact Lookup.lookup_replaced_self h
  next h => simp [List.lookup_append, Option.not_isSome_iff_eq_none.1 h]

theorem get?_insert_of_ne (t : Management) {key other : String} (override : Override)
    (h : other ≠ key) : (t.insert key override).get? other = t.get? other := by
  have hne : (other == key) = false := beq_eq_false_iff_ne.2 h
  simp only [insert, get?]
  split
  · exact Lookup.lookup_replaced_of_ne override h t.entries
  · simp [List.lookup_append, List.lookup_cons, hne]

end Management

/-- The forced version, unless the node declares the same. -/
def Override.forcedVersion (o : Override) (declared : String) : Option String :=
  o.version.filter (· != declared)

/-- The forced scope, unless the node declares the same. -/
def Override.forcedScope (o : Override) (declared : Option Scope) : Option Scope :=
  o.scope.filter (declared != some ·)

/-- The override that changes a node, if there is one: it forces something that the node does not
declare. -/
def Management.override? (t : Management) (n : Node) : Option Override := do
  let c ← n.coordinate
  let o ← t.get? c.artifactKey
  let forced : Override := ⟨o.forcedVersion c.version, o.forcedScope n.scope⟩
  guard (forced != {})
  return forced

def Node.managedBy (n : Node) (o : Override) : Node :=
  { n with
    managedVersion := o.version <|> n.managedVersion
    managedScope := o.scope <|> n.managedScope }

namespace Graph

/-- Manages one node, and counts it if that changes it. -/
def manageAt (t : Management) (state : Graph × Nat) (id : Nat) : Graph × Nat :=
  match t.override? (state.1.node id) with
  | some o => (state.1.modify id (·.managedBy o), state.2 + 1)
  | none => state

/-- Manages every reachable node but the root, and counts the nodes that this changes. -/
def manage (g : Graph) (t : Management) : Graph × Nat :=
  (g.preorder.filter (· != root)).foldl (manageAt t) (g, 0)

end Graph

end ArtifactTree
