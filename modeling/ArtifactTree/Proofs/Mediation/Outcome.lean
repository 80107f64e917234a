import ArtifactTree.Analysis
import ArtifactTree.Proofs.Mediation.Progress

/-!
# The outcome of an analysis

`Outcome` says how the statuses of a mediated graph came about: they are those of a trace that starts
at the root and goes through the children of the included nodes in breadth-first order. It speaks of
the mediated graph alone, because mediation reads no status and so decides about its own result what
it decided about the managed graph (`mediate_mediate`). Every analysis that succeeds has such an
outcome (`exists_outcome_of_analyze`), whatever its collector answered.
-/

namespace ArtifactTree

open ArtifactTree.Graph Mediation

namespace Graph

/-- An included node that comes before another one in breadth-first order. -/
def WinsBefore (g : Graph) (winner id : Nat) : Prop :=
  (g.node winner).status = .included ∧ g.Before winner id

theorem mediate_congr {g h : Graph} (hgh : g.clearStatuses = h.clearStatuses) :
    g.mediate = h.mediate := by
  rw [mediate, mediate, size_eq_of_clearStatuses hgh, hgh]

theorem clearStatuses_mediate {g : Graph} {project : Coordinate} (hg : g.IsUnfolding project) :
    g.mediate.clearStatuses = g.clearStatuses := by
  obtain ⟨trace, s, hprogress, -, hs, -⟩ := exists_progress_mediate hg
  rw [hs, hprogress.frame]

theorem mediate_mediate {g : Graph} {project : Coordinate} (hg : g.IsUnfolding project) :
    g.mediate.mediate = g.mediate := mediate_congr (clearStatuses_mediate hg)

theorem bare_mediate {g : Graph} {project : Coordinate} (hg : g.IsUnfolding project) :
    g.mediate.bare = g.bare := by
  rw [← bare_clearStatuses, clearStatuses_mediate hg, bare_clearStatuses]

end Graph

namespace Mediation

/-- The statuses of the graph are what the trace amounts to, and the trace is complete. -/
structure Outcome (g : Graph) (project : Coordinate) (trace : Trace) : Prop where
  unfolding : g.IsUnfolding project
  scope_root : (g.node root).effectiveScope = none
  judged : Judged g trace
  ids : trace.ids = g.judged
  order : trace.ids = root :: trace.included.flatMap g.requests
  sorted : trace.ids.Pairwise g.Before
  status : ∀ id, (g.node id).status = trace.status g id

theorem exists_outcome_mediate {g : Graph} {project : Coordinate} (hg : g.IsUnfolding project)
    (hroot : (g.node root).effectiveScope = none) :
    ∃ trace, Outcome g.mediate project trace := by
  have hmediated : g.mediate.IsUnfolding project := hg.congr (bare_mediate hg).symm
  obtain ⟨trace, s, h, hqueue, hs, hids⟩ := exists_progress_mediate hmediated
  rw [mediate_mediate hg] at hs
  have hall : trace.ids ++ s.queue = trace.ids := by rw [hqueue, List.append_nil]
  have horder := h.order
  have hsorted := h.sorted
  rw [hall] at horder hsorted
  refine ⟨trace, hmediated, ?_, h.judged, hids, horder, hsorted, ?_⟩
  · rw [← hroot]
    exact read_eq_of_unjudged (fun _ => rfl) (clearStatuses_mediate hg) root
  · intro id
    rw [← h.status, ← hs]

section Analyze

variable {m : Type → Type} {σ : Type} [Monad m] [Execution m σ] {project : Project}
  {collector : Collector m} {limit : Nat} {s : σ} {analysis : Analysis}

/-- An analysis manages and mediates what it unfolds. -/
theorem exists_unfold_of_analyze
    (h : (exec (project.analyze collector limit).run s).1 = .ok analysis) :
    ∃ unfolded, (exec (project.unfold collector limit).run s).1 = .ok unfolded ∧
      analysis.graph = (unfolded.manage project.management).1.mediate := by
  obtain ⟨unfolded, t, hunfold, hreport⟩ := exec_run_bind_ok (Prod.ext h rfl)
  obtain ⟨rfl, -⟩ := exec_run_pure_ok hreport
  exact ⟨unfolded, by rw [hunfold], rfl⟩

/-- The graph of an analysis is an unfolding of the project that was managed and mediated. -/
theorem exists_forest_of_analyze {inv : σ → Prop}
    {declares : Coordinate → List Declaration → Prop} (hcollector : collector.Answers inv declares)
    (hs : inv s) (h : (exec (project.analyze collector limit).run s).1 = .ok analysis) :
    ∃ forest, Forest.UnfoldsProject declares project.coordinate project.dependencies forest ∧
      analysis.graph =
        ((forest.toGraph project.coordinate).manage project.management).1.mediate := by
  obtain ⟨unfolded, hunfold, hgraph⟩ := exists_unfold_of_analyze h
  obtain ⟨forest, hforest, rfl⟩ := unfoldsProject_of_exec_unfold hcollector hs hunfold
  exact ⟨forest, hforest, hgraph⟩

/-- Without its marks, the graph of an analysis is the unfolding of the project. -/
theorem exists_bare_forest_of_analyze {inv : σ → Prop}
    {declares : Coordinate → List Declaration → Prop} (hcollector : collector.Answers inv declares)
    (hs : inv s) (h : (exec (project.analyze collector limit).run s).1 = .ok analysis) :
    ∃ forest, Forest.UnfoldsProject declares project.coordinate project.dependencies forest ∧
      analysis.graph.bare = forest.toGraph project.coordinate := by
  obtain ⟨forest, hforest, hgraph⟩ := exists_forest_of_analyze hcollector hs h
  have hbare := (manage_frame (forest.toGraph project.coordinate) project.management).1
  refine ⟨forest, hforest, ?_⟩
  rw [hgraph, bare_mediate ((Forest.isUnfolding_toGraph hforest).congr hbare.symm), hbare,
    Forest.bare_toGraph]

/-- The coordinates of an analysis are that of the project and those that were declared, and its managed
versions are those of the table. -/
theorem texts_of_analyze {inv : σ → Prop} {P : Coordinate → Prop}
    (hcollector : collector.Answers inv fun _ ds => ∀ d ∈ ds, P d.coordinate) (hs : inv s)
    (hproject : P project.coordinate) (hdependencies : ∀ d ∈ project.dependencies, P d.coordinate)
    (h : (exec (project.analyze collector limit).run s).1 = .ok analysis) (id : Nat) :
    (∀ c ∈ (analysis.graph.node id).coordinate, P c) ∧
      ∀ version ∈ (analysis.graph.node id).managedVersion,
        ∃ entry ∈ project.management.entries, entry.2.version = some version := by
  obtain ⟨forest, hforest, hgraph⟩ := exists_forest_of_analyze hcollector hs h
  obtain ⟨hbare, -⟩ := manage_frame (forest.toGraph project.coordinate) project.management
  have hmanaged := (Forest.isUnfolding_toGraph hforest).congr hbare.symm
  rw [hgraph]
  constructor
  · intro c hc
    rw [coordinate_eq_of_bare (bare_mediate hmanaged), coordinate_eq_of_bare hbare] at hc
    exact hforest.forall_coordinates (fun hds => hds) hproject hdependencies hc
  · intro version hversion
    have hsame : (((forest.toGraph project.coordinate).manage project.management).1.mediate.node
        id).managedVersion = _ :=
      read_eq_of_unjudged (fun _ => rfl) (clearStatuses_mediate hmanaged) id
    rw [hsame] at hversion
    rcases managedVersion_manage hversion with hversion | hentry
    · rw [← Forest.bare_toGraph, node_bare] at hversion
      cases hversion
    · exact hentry

/-- **Every analysis that succeeds has an outcome.** -/
theorem exists_outcome_of_analyze
    (h : (exec (project.analyze collector limit).run s).1 = .ok analysis) :
    ∃ trace, Outcome analysis.graph project.coordinate trace := by
  obtain ⟨forest, hforest, hgraph⟩ := exists_forest_of_analyze collector.answers_anything trivial h
  obtain ⟨hbare, hroot⟩ := manage_frame (forest.toGraph project.coordinate) project.management
  rw [hgraph]
  apply exists_outcome_mediate ((Forest.isUnfolding_toGraph hforest).congr hbare.symm)
  rw [hroot, Forest.node_toGraph_root]
  rfl

end Analyze

/-! ## Reading an outcome -/

namespace Outcome

variable {g : Graph} {project : Coordinate} {trace : Trace} (h : Outcome g project trace)
include h

theorem nodup : trace.ids.Nodup := h.sorted.imp Before.ne

/-- Nothing is judged before the root. -/
theorem eq_nil_of_root {before after : Trace} {status : Status}
    (htrace : before ++ (root, status) :: after = trace) : before = [] := by
  cases before with
  | nil => rfl
  | cons entry before =>
    have hnodup := h.nodup
    have horder := h.order
    rw [← htrace] at hnodup horder
    have hfirst : entry.1 = root := (List.cons.inj horder).1
    rw [List.cons_append, Trace.ids, List.map_cons, List.nodup_cons, hfirst] at hnodup
    exact absurd (Trace.mem_ids.2 ⟨status, by simp⟩) hnodup.1

theorem lt_size {id : Nat} (hid : id ∈ trace.ids) : id < g.size := by
  rw [h.order, List.mem_cons, List.mem_flatMap] at hid
  rcases hid with rfl | ⟨parent, -, hrequest⟩
  · exact h.unfolding.tree.size_pos
  · exact (h.unfolding.tree.lt_of_mem (mem_unmarked.1 hrequest).1).2

theorem status_of_mem {id : Nat} {status : Status} (hmem : (id, status) ∈ trace) :
    (g.node id).status = status := by
  rw [h.status, Trace.status_of_mem h.nodup hmem]

/-- A status comes from the trace, or it is that of a marker or of a node that was not reached. -/
theorem mem_or_of_status {id : Nat} {status : Status} (hstatus : (g.node id).status = status) :
    (id, status) ∈ trace ∨ status = .omitted (markerOmission (g.node id)) ∨
      status = .unvisited := by
  rw [h.status, Trace.status] at hstatus
  cases hlookup : trace.lookup id with
  | some verdict =>
    left
    rw [hlookup] at hstatus
    exact (Trace.lookup_eq_some_iff h.nodup).1 (hstatus ▸ hlookup)
  | none =>
    right
    rw [hlookup] at hstatus
    dsimp only at hstatus
    split at hstatus
    · exact .inl hstatus.symm
    · exact .inr hstatus.symm

/-- A node that was judged got its verdict against included nodes before it. -/
theorem exists_before {id : Nat} {status : Status} (hmem : (id, status) ∈ trace) :
    ∃ before : Trace, status = (before.winners g).verdict (g.node id) ∧
      ∀ w ∈ before.included, g.WinsBefore w id := by
  obtain ⟨before, after, rfl⟩ := List.append_of_mem hmem
  refine ⟨before, h.judged.verdict, fun w hw => ⟨?_, ?_⟩⟩
  · exact h.status_of_mem (List.mem_append_left _ (Trace.mem_included.1 hw))
  · have hsorted := h.sorted
    rw [Trace.ids_append, List.pairwise_append] at hsorted
    exact hsorted.2.2 w ((Trace.included_sublist before).subset hw) id List.mem_cons_self

end Outcome

end Mediation

end ArtifactTree
