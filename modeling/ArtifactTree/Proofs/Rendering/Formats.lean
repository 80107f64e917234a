import ArtifactTree.Proofs.Rendering.Dot
import ArtifactTree.Proofs.Rendering.Graphml
import ArtifactTree.Proofs.Rendering.Outline
import ArtifactTree.Proofs.Rendering.Records
import ArtifactTree.Proofs.Rendering.Tables
import ArtifactTree.Render.Format

/-!
# All formats show the same tree

Each format has a reader of its own, and all of them read the edges that the walk tells. So the
formats agree on any graph whose labels stand on one line, in particular on the graph of an analysis
whose coordinates and managed versions are as manifests may write them: quotes, backslashes, markup,
signs between the tables and parentheses may all stand in versions.
-/

namespace ArtifactTree

open Mediation

/-- Reads the edges of a graph from its text in a format, each as the labels at its two ends. -/
def Format.read? : Format → String → Option (List (String × String))
  | text, output => some (Outline.read output)
  | dot, output => some (Dot.read output)
  | tgf, output => Tgf.read output
  | graphml, output => Graphml.read output
  | json, output => Record.read output

/-- Every format of a graph shows the edges of the walk. -/
theorem Format.read?_render {g : Graph} (hsize : 0 < g.size) (hg : ∀ id, (g.node id).Presentable)
    (format : Format) : format.read? (g.render format) = some g.shownEdges := by
  cases format with
  | text => exact congrArg some (Outline.read_text hg)
  | dot => exact congrArg some (Dot.read_dot hg)
  | tgf => exact Tgf.read_tgf hg
  | graphml => exact Graphml.read_graphml hg
  | json => exact Record.read_json hsize

section Analyze

variable {m : Type → Type} {σ : Type} [Monad m] [Execution m σ] {project : Project}
  {collector : Collector m} {limit : Nat} {s : σ} {analysis : Analysis}

/-- **The edges of the walk are read back from every format** of an analysis whose coordinates and
managed versions are valid, in the order in which they are walked. -/
theorem formats_show_walked_edges
    (h : (exec (project.analyze collector limit).run s).1 = .ok analysis)
    (hvalid : ∀ id, (analysis.graph.node id).Valid) (format : Format) :
    format.read? (analysis.graph.render format) = some analysis.graph.shownEdges := by
  obtain ⟨trace, houtcome⟩ := exists_outcome_of_analyze h
  exact format.read?_render houtcome.unfolding.tree.size_pos (presentable_of_analyze h hvalid)

end Analyze

/-- A project whose versions are full of characters that the formats use themselves. -/
def markupRequests : Project where
  coordinate := ⟨"org", "app", "jar", "1", none⟩
  dependencies :=
    [{ coordinate := ⟨"org", "web", "jar", "<2>&#", none⟩ },
      { coordinate := ⟨"org", "log", "jar", "\"\\;", none⟩, optional := true }]
  management := .ofList [("org:web:jar", { version := some "(\\\"->#);" })]

def markupAnswer (c : Coordinate) : Answer :=
  .ok (if c.name = "web" then [{ coordinate := ⟨"org", "log", "jar", "1", none⟩ }] else [])

theorem formats_show_markupRequests :
    ∃ analysis, (exec (markupRequests.analyze (.ofFunction markupAnswer : Collector Id) 4).run ()).1 =
        .ok analysis ∧
      analysis.graph.shownEdges =
        [("org:app:jar:1",
            "org:web:jar:(\\\"->#);:compile - version managed from <2>&#"),
          ("org:web:jar:(\\\"->#);:compile - version managed from <2>&#",
            "org:log:jar:1:compile"),
          ("org:app:jar:1",
            "(org:log:jar:\"\\;:compile - omitted due to optional dependency)")] ∧
      ∀ format : Format,
        format.read? (analysis.graph.render format) = some analysis.graph.shownEdges := by
  have h : (exec (markupRequests.analyze (.ofFunction markupAnswer : Collector Id) 4).run ()).1 =
      .ok _ := rfl
  refine ⟨_, h, by decide +kernel, formats_show_walked_edges h ?_⟩
  exact Graph.valid_node (by decide +kernel)

end ArtifactTree
