import ArtifactTree.Collector
import ArtifactTree.Graph.Lemmas
import ArtifactTree.Graph.Pruning

/-!
# Unfolding a project

The dependencies of a project are unfolded into a `Forest`: below each declaration stand the
declarations of the artifact that it asks for, and so on, without sharing between branches.
Unfolding stops at a declaration that asks again for a coordinate on its own chain, which becomes a
cycle marker. Test-scoped declarations count only where the project itself states them.

The forest is then laid out in the arena of a graph, in depth-first order.
-/

namespace ArtifactTree

/-- The declarations below one artifact, each with what is below it in turn. -/
inductive Forest where
  | nil
  /-- A declaration, for a cycle marker the level of the coordinate that it asks for again (the
  project has level 0), what is below it, and the declarations after it. -/
  | cons (declaration : Declaration) (cycle : Option Nat) (below rest : Forest)
deriving DecidableEq

/-- Why a project could not be unfolded. -/
inductive UnfoldingFault where
  /-- What `coordinate` declares could not be told. -/
  | uncollected (coordinate : Coordinate) (reason : Fault)
  /-- A chain goes on past the given number of levels. -/
  | tooDeep (coordinate : Coordinate)

namespace UnfoldingFault

def coordinate : UnfoldingFault → Coordinate
  | uncollected coordinate _ => coordinate
  | tooDeep coordinate => coordinate

def fault : UnfoldingFault → Fault
  | uncollected coordinate reason => reason.under (.uncollected coordinate)
  | tooDeep coordinate =>
    ⟨.uncollected coordinate, [.other "the chain of dependencies is too deep"]⟩

end UnfoldingFault

/-- Unfolding asks a collector and may fail. -/
abbrev Unfolding (m : Type → Type) := ExceptT UnfoldingFault m

namespace Forest

variable {m : Type → Type} [Monad m]

def declared (collector : Collector m) (c : Coordinate) : Unfolding m (List Declaration) :=
  ExceptT.mk do
    match ← collector.collect c with
    | .ok declarations => return .ok declarations
    | .error reason => return .error (.uncollected c reason)

/-- Unfolds declarations below the artifacts of `path`, the project first. A coordinate that is on
the path already closes a cycle with its first occurrence there. -/
def ofDeclarations (expand : List Coordinate → Coordinate → Unfolding m Forest)
    (path : List Coordinate) : List Declaration → Unfolding m Forest
  | [] => return nil
  | d :: ds => do
    if d.scope = .test then ofDeclarations expand path ds
    else
      match path.idxOf? d.coordinate with
      | some level => return cons d (some level) nil (← ofDeclarations expand path ds)
      | none => do
        let below ← expand path d.coordinate
        return cons d none below (← ofDeclarations expand path ds)

/-- What is below an artifact at the end of `path`, down to `limit` levels. -/
def expand (collector : Collector m) : (limit : Nat) → List Coordinate → Coordinate →
    Unfolding m Forest
  | 0, _, c => throw (.tooDeep c)
  | limit + 1, path, c => do
    ofDeclarations (expand collector limit) (path ++ [c]) (← declared collector c)

/-- Unfolds the declarations of a project. Each is expanded, whatever its scope and even if it asks
for the project itself. -/
def ofProject (collector : Collector m) (limit : Nat) (project : Coordinate) :
    List Declaration → Unfolding m Forest
  | [] => return nil
  | d :: ds => do
    let below ← expand collector limit [project] d.coordinate
    return cons d none below (← ofProject collector limit project ds)

/-- Lays a forest out as children of the last of `ancestors`, the root first. -/
def layOut : Forest → (ancestors : List Nat) → Graph → Graph
  | nil, _, g => g
  | cons d cycle below rest, ancestors, g =>
    let id := g.size
    let node := { Node.ofDeclaration d with cycleOf := cycle.bind (ancestors[·]?) }
    let grown := g.addChild (ancestors.getLastD Graph.root) node
    rest.layOut ancestors (below.layOut (ancestors ++ [id]) grown)

def size : Forest → Nat
  | nil => 0
  | cons _ _ below rest => below.size + rest.size + 1

theorem size_layOut (forest : Forest) (ancestors : List Nat) (g : Graph) :
    (forest.layOut ancestors g).size = g.size + forest.size := by
  induction forest generalizing ancestors g with
  | nil => rfl
  | cons d cycle below rest ihBelow ihRest =>
    simp only [layOut, size, ihRest, ihBelow, Graph.size_addChild]
    omega

/-- The graph of a project with the given forest below it. -/
def toGraph (forest : Forest) (project : Coordinate) : Graph :=
  forest.layOut [Graph.root] (.ofProject project)

end Forest

theorem Forest.size_toGraph (forest : Forest) (project : Coordinate) :
    (forest.toGraph project).size = forest.size + 1 := by
  simp only [toGraph, size_layOut, Graph.ofProject, Graph.size_ofRoot]
  omega

/-- The complete graph of a project and its dependencies, before management and mediation. -/
def Graph.unfold {m : Type → Type} [Monad m] (collector : Collector m) (limit : Nat)
    (project : Coordinate) (dependencies : List Declaration) : Unfolding m Graph := do
  let forest ← Forest.ofProject collector limit project dependencies
  return (forest.toGraph project).pruneNestedTests.1

end ArtifactTree
