import ArtifactTree.Proofs.Mediation.Winners

/-!
# Cycle markers after mediation

A cycle marker is never judged. It gets its status when its parent is included, and then the node
that it asks for again was met, because everything above an included node is included
(`Outcome.included_of_ancestor`). So a marker below an included node is omitted as a cycle, or as
optional, and one below any other node is not reached.

Judging, on the other hand, never leads to a cycle. Management has no part in either: markers and the
nodes that they ask for again go by declared coordinates.
-/

namespace ArtifactTree

open ArtifactTree.Graph

namespace Mediation

namespace Outcome

variable {g : Graph} {project : Coordinate} {trace : Trace} (h : Outcome g project trace)
include h

theorem status_included_iff {id : Nat} : (g.node id).status = .included ↔ id ∈ trace.included :=
  ⟨h.mem_included_of_status, fun hid => h.status_of_mem (Trace.mem_included.1 hid)⟩

theorem cycleOf_eq_none {id : Nat} (hid : id ∈ trace.ids) : (g.node id).cycleOf = none := by
  rw [h.order, List.mem_cons, List.mem_flatMap] at hid
  rcases hid with rfl | ⟨parent, -, hrequest⟩
  · exact h.unfolding.cycleOf_root
  · exact (mem_unmarked.1 hrequest).2

/-- Everything above a node that was judged is included. -/
theorem included_of_ancestor {id : Nat} (hid : id ∈ trace.ids) :
    ∀ a ∈ g.ancestors id, a ∈ trace.included := by
  induction id using Nat.strongRecOn with
  | ind id ih =>
    intro a ha
    rw [h.order, List.mem_cons, List.mem_flatMap] at hid
    rcases hid with rfl | ⟨parent, hparent, hrequest⟩
    · rw [h.unfolding.tree.ancestors_root] at ha
      cases ha
    · have hchild := (mem_unmarked.1 hrequest).1
      rw [h.unfolding.tree.ancestors_child hchild] at ha
      rcases List.mem_cons.1 ha with rfl | ha
      · exact hparent
      · have hlt := (h.unfolding.tree.lt_of_mem hchild).1
        exact ih parent hlt ((Trace.included_sublist trace).subset hparent) a ha

theorem status_of_marker {id parent : Nat} (hcycle : (g.node id).cycleOf ≠ none)
    (hparent : (g.node id).parent = some parent) :
    (g.node id).status =
      if (g.node parent).status = .included then .omitted (markerOmission (g.node id))
      else .unvisited := by
  have hid : id ∉ trace.ids := fun hid => hcycle (h.cycleOf_eq_none hid)
  rw [h.status]
  by_cases hincluded : (g.node parent).status = .included
  · rw [if_pos hincluded]
    exact Trace.status_of_marker hid hcycle (h.status_included_iff.1 hincluded)
      (h.unfolding.tree.mem_children_iff.2 hparent)
  · rw [if_neg hincluded]
    apply Trace.status_of_unmet hid
    rintro ⟨-, other, hother, hchild⟩
    rw [h.unfolding.tree.mem_children_iff, hparent, Option.some.injEq] at hchild
    exact hincluded (h.status_included_iff.2 (hchild ▸ hother))

theorem status_ne_cycle {id : Nat} (hcycle : (g.node id).cycleOf = none) (of : Coordinate) :
    (g.node id).status ≠ .omitted (.cycle of) := by
  intro hstatus
  rw [h.status] at hstatus
  by_cases hid : id ∈ trace.ids
  · obtain ⟨status, hmem⟩ := Trace.mem_ids.1 hid
    obtain ⟨before, hverdict, -⟩ := h.exists_before hmem
    rw [Trace.status_of_mem h.nodup hmem] at hstatus
    have hrule := before.winners g |>.rule_verdict (g.node id)
    rw [← hverdict, hstatus] at hrule
    cases hrule
  · rw [Trace.status_of_unmet hid fun hmarker => hmarker.1 hcycle] at hstatus
    cases hstatus

end Outcome

end Mediation

/-- What is to be known of the marker at `id` that asks for the node at `target` again. -/
structure Graph.BrokenCycle (g : Graph) (id target : Nat) : Prop where
  above : target ∈ g.ancestors id
  same : ∃ c, (g.node id).coordinate = some c ∧ (g.node target).coordinate = some c
  leaf : g.children id = []
  status : ∃ parent c, (g.node id).parent = some parent ∧ (g.node id).coordinate = some c ∧
    (g.node id).status =
      if (g.node parent).status = .included then
        .omitted (if (g.node id).optional then .optional else .cycle c)
      else .unvisited
  target_included : (g.node id).status ≠ .unvisited → (g.node target).status = .included

namespace Forest

variable {declares : Coordinate → List Declaration → Prop} {project : Coordinate}
  {dependencies : List Declaration} {forest : Forest}

/-- A marker declares the coordinate of the node that it asks for again. -/
theorem UnfoldsProject.coordinate_of_cycleOf
    (h : UnfoldsProject declares project dependencies forest) {id target : Nat}
    (hcycle : ((forest.toGraph project).node id).cycleOf = some target) :
    ((forest.toGraph project).node target).coordinate =
      ((forest.toGraph project).node id).coordinate := by
  have hdepth : 2 ≤ (forest.toGraph project).depth id := by
    by_contra hlt
    rw [h.cycleOf_of_depth_lt (Nat.lt_of_not_le hlt)] at hcycle
    cases hcycle
  have hid := lt_size_of_mem_ancestors (h.cycleOf_mem_ancestors hcycle)
  rw [h.cycleOf_of_le_depth hid hdepth] at hcycle
  simpa using List.find?_some hcycle

end Forest

open Mediation

section Analyze

variable {m : Type → Type} {σ : Type} [Monad m] [Execution m σ] {project : Project}
  {collector : Collector m} {limit : Nat} {s : σ} {analysis : Analysis}

/-- **Every cycle is broken as a cycle**, whatever management forces, and nothing else is. -/
theorem markers_broken_as_cycles
    (h : (exec (project.analyze collector limit).run s).1 = .ok analysis) (id : Nat) :
    (∀ target, (analysis.graph.node id).cycleOf = some target →
      analysis.graph.BrokenCycle id target) ∧
    ((analysis.graph.node id).cycleOf = none →
      ∀ of, (analysis.graph.node id).status ≠ .omitted (.cycle of)) := by
  obtain ⟨trace, houtcome⟩ := exists_outcome_of_analyze h
  have htree := houtcome.unfolding.tree
  refine ⟨fun target hcycle => ?_, houtcome.status_ne_cycle⟩
  have hmarker : (analysis.graph.node id).cycleOf ≠ none := by simp [hcycle]
  have habove := houtcome.unfolding.cycleOf_mem hcycle
  have hid := lt_size_of_mem_ancestors habove
  have hroot : id ≠ root := by
    rintro rfl
    exact hmarker houtcome.unfolding.cycleOf_root
  obtain ⟨c, hc⟩ := houtcome.unfolding.coordinate hid
  obtain ⟨parent, hchild⟩ := htree.exists_parent hid hroot
  have hparent := htree.mem_children_iff.1 hchild
  have hstatus := houtcome.status_of_marker hmarker hparent
  refine ⟨habove, ⟨c, hc, ?_⟩, houtcome.unfolding.marker hcycle, ⟨parent, c, hparent, hc, ?_⟩, ?_⟩
  · obtain ⟨forest, hforest, hbare⟩ :=
      exists_bare_forest_of_analyze collector.answers_anything trivial h
    have hdeclared : ((forest.toGraph project.coordinate).node id).cycleOf = some target := by
      rw [← hbare, node_bare]
      exact hcycle
    have hsame := hforest.coordinate_of_cycleOf hdeclared
    rw [← hbare, node_bare, node_bare] at hsame
    exact hsame.trans hc
  · rw [hstatus, markerOmission, hc]
  · intro hreached
    -- the target is the parent or above it, and the parent is included
    have hincluded : (analysis.graph.node parent).status = .included := by
      by_contra hnot
      rw [if_neg hnot] at hstatus
      exact hreached hstatus
    have hparent := houtcome.status_included_iff.1 hincluded
    rw [htree.ancestors_child hchild] at habove
    rcases List.mem_cons.1 habove with rfl | habove
    · exact hincluded
    · apply houtcome.status_included_iff.2
      exact houtcome.included_of_ancestor
        ((Trace.included_sublist trace).subset hparent) target habove

end Analyze

/-- A project that reaches `web` again by way of `log`, and forces another version of `web`. -/
def ringRequests : Project where
  coordinate := ⟨"org", "app", "jar", "1", none⟩
  dependencies := [{ coordinate := ⟨"org", "web", "jar", "1", none⟩ }]
  management := .ofList [("org:web:jar", { version := some "2" })]

def ringAnswer (c : Coordinate) : Answer :=
  .ok [{ coordinate := ⟨"org", if c.name = "web" then "log" else "web", "jar", "1", none⟩ }]

/-- The node 3 is the marker of the node 1. Both are managed, and the cycle is still one. -/
theorem brokenCycle_ringRequests :
    ∃ analysis, (exec (ringRequests.analyze (.ofFunction ringAnswer : Collector Id) 3).run ()).1 =
        .ok analysis ∧
      (analysis.graph.node 3).managedVersion = some "2" ∧
      (analysis.graph.node 3).status = .omitted (.cycle ⟨"org", "web", "jar", "1", none⟩) ∧
      analysis.graph.BrokenCycle 3 1 := by
  have h : (exec (ringRequests.analyze (.ofFunction ringAnswer : Collector Id) 3).run ()).1 =
      .ok _ := rfl
  refine ⟨_, h, by decide +kernel, by decide +kernel, ?_⟩
  exact (markers_broken_as_cycles h 3).1 1 (by decide +kernel)

end ArtifactTree
