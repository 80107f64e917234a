import ArtifactTree.Management
import ArtifactTree.Mediation
import ArtifactTree.Report
import ArtifactTree.Unfolding

/-!
# Analysis of a project

The graph of a project is unfolded, managed and mediated. A collector's fault ends the analysis
without a graph.
-/

namespace ArtifactTree

/-- All that an analysis needs to know about a project. -/
structure Project where
  coordinate : Coordinate
  dependencies : List Declaration := []
  management : Management := {}

structure Analysis where
  graph : Graph
  report : Report

namespace Project

variable {m : Type → Type} [Monad m]

/-- The graph of a project as the collector describes it, down to `limit` levels. -/
def unfold (project : Project) (collector : Collector m) (limit : Nat) : Unfolding m Graph :=
  Graph.unfold collector limit project.coordinate project.dependencies

/-- The graph of a project, mediated under its management table. -/
def analyze (project : Project) (collector : Collector m) (limit : Nat) : Unfolding m Analysis := do
  let unfolded ← project.unfold collector limit
  let graph := (unfolded.manage project.management).1.mediate
  return { graph, report := graph.report }

/-- The graph of a project as a catalogue describes it, and the calls that this takes. -/
def unfoldIn (project : Project) (k : Catalogue) (remember : Bool) :
    Except UnfoldingFault Graph × Collector.Calls :=
  ((project.unfold (k.collector remember) k.depthLimit).run.run' []).run #[]

def analyzeIn (project : Project) (k : Catalogue) (remember : Bool) :
    Except UnfoldingFault Analysis :=
  (((project.analyze (k.collector remember) k.depthLimit).run.run' []).run #[]).1

end Project

end ArtifactTree
