import ArtifactTree.Proofs.Mediation.Outcome

/-!
# Nothing is removed

Two passes may drop children: pruning detaches nested test nodes, and mediation cuts off what is below a
node that closes a cycle. On the graph of an unfolded forest there is nothing for them to drop. The graph
of an analysis is the forest as it was laid out, with marks on its nodes (`Graph.Marks`), and every node
of it is reached from the root.
-/

namespace ArtifactTree

namespace Graph

/-- The graph `marked` is `g` with marks on its nodes: managed versions and scopes on any but the root,
and statuses. All of its nodes are reached, in the order of their ids. -/
structure Marks (marked g : Graph) : Prop where
  size : marked.size = g.size
  node : ∀ id, (marked.node id).MarkedFrom (g.node id)
  root : (marked.node root).JudgedFrom (g.node root)
  preorder : marked.preorder = List.range marked.size

theorem marks_of_clearStatuses {g managed marked : Graph} (horder : g.preorder = List.range g.size)
    (hmanaged : managed.bare = g.bare) (hroot : managed.node Graph.root = g.node Graph.root)
    (hmarked : marked.clearStatuses = managed.clearStatuses) : marked.Marks g := by
  have hbare : marked.bare = g.bare := by
    rw [← bare_clearStatuses, hmarked, bare_clearStatuses, hmanaged]
  have hsize : marked.size = g.size := size_eq_of_bare hbare
  refine ⟨hsize, fun id => ?_, ?_, ?_⟩
  · rw [Node.markedFrom_iff, ← node_bare, hbare, node_bare]
  · rw [Node.judgedFrom_iff, ← node_clearStatuses, hmarked, node_clearStatuses, hroot]
  · rw [preorder_congr hsize (children_eq_of_bare hbare), horder, hsize]

end Graph

open ArtifactTree.Graph Mediation

section Analyze

variable {m : Type → Type} {σ : Type} [Monad m] [Execution m σ] {project : Project}
  {collector : Collector m} {limit : Nat} {s : σ} {analysis : Analysis}

/-- **Nothing is removed.** An analysis that succeeds lays out a forest; pruning finds nothing to detach,
and what management and mediation make of the graph differs from it in marks alone. -/
theorem exists_marks_of_analyze
    (h : (exec (project.analyze collector limit).run s).1 = .ok analysis) :
    ∃ forest, (exec (Forest.ofProject collector limit project.coordinate
        project.dependencies).run s).1 = .ok forest ∧
      (forest.toGraph project.coordinate).pruneNestedTests =
        (forest.toGraph project.coordinate, 0) ∧
      analysis.graph.Marks (forest.toGraph project.coordinate) := by
  obtain ⟨unfolded, hunfold, hgraph⟩ := exists_unfold_of_analyze h
  obtain ⟨forest, t, hforest, hpruned⟩ := exec_run_bind_ok (Prod.ext hunfold rfl)
  obtain ⟨rfl, -⟩ := exec_run_pure_ok hpruned
  have hunfolds := Forest.unfoldsProject_of_exec collector.answers_anything trivial hforest
  have hprune := Forest.pruneNestedTests_toGraph hunfolds
  refine ⟨forest, by rw [hforest], hprune, ?_⟩
  rw [hprune] at hgraph
  obtain ⟨hbare, hroot⟩ := manage_frame (forest.toGraph project.coordinate) project.management
  refine marks_of_clearStatuses (Forest.preorder_toGraph forest project.coordinate) hbare hroot ?_
  rw [hgraph]
  exact clearStatuses_mediate ((Forest.isUnfolding_toGraph hunfolds).congr hbare.symm)

end Analyze

/-- The project of `mutualRequests`, with another version of `log` forced. -/
def mutualRequestsManaged : Project :=
  { mutualRequests with management := ⟨[("org:log:jar", { version := "2" })]⟩ }

/-- Test nodes are asked for, cycles are closed, and managed values are recorded, and still the forest
of the project is there. -/
theorem marks_mutualRequestsManaged :
    ∃ analysis, ∃ forest : Forest, (exec (mutualRequestsManaged.analyze
        (.ofFunction mutualAnswer : Collector Id) 3).run ()).1 = .ok analysis ∧
      analysis.graph.Marks (forest.toGraph mutualRequestsManaged.coordinate) ∧
      (analysis.graph.node 2).managedVersion = some "2" ∧
      (analysis.graph.node 3).cycleOf = some 1 := by
  have h : (exec (mutualRequestsManaged.analyze (.ofFunction mutualAnswer : Collector Id)
      3).run ()).1 = .ok _ := rfl
  obtain ⟨forest, -, -, hmarks⟩ := exists_marks_of_analyze h
  exact ⟨_, forest, h, hmarks, by decide +kernel, by decide +kernel⟩

end ArtifactTree
