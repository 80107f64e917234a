import ArtifactTree.Proofs.Unfolding

/-!
# Coordinates along a chain

A node whose coordinate occurs again on its own chain closes a cycle: it is a marker and nothing is
below it. So the nodes of a chain that are expanded have distinct coordinates, and this is why
unfolding comes to an end.

The declarations of the project itself are expanded without being compared with the project. If one
of them asks for the project, the project is expanded twice on one chain (`selfRequest_expanded`).
There is no other exception: below such a declaration, and in the rest of the tree, every repetition is
closed, and it is closed everywhere exactly if the project does not ask for itself
(`closesRepeats_of_unfold`).
-/

namespace ArtifactTree

namespace Graph

/-- The nodes from the one at `id` up to the root that are no cycle markers. -/
def expandedChain (g : Graph) (id : Nat) : List Nat :=
  (id :: g.ancestors id).filter fun a => (g.node a).cycleOf = none

/-- A node that has the coordinate of an ancestor is a marker without children. Put in another way,
the expanded nodes of a chain have distinct coordinates. -/
structure ClosesRepeats (g : Graph) : Prop where
  marker : ∀ id, ∀ a ∈ g.ancestors id, (g.node a).coordinate = (g.node id).coordinate →
    (g.node id).cycleOf ≠ none ∧ g.children id = []
  distinct : ∀ id, id < g.size →
    ((g.expandedChain id).map fun a => (g.node a).coordinate).Nodup

/-- A node that has the coordinate of an ancestor is a marker without children, unless it is a direct
dependency that asks for the project, which is none. Below the project, the expanded nodes of a chain
have distinct coordinates. -/
structure ClosesNestedRepeats (g : Graph) : Prop where
  repeated : ∀ id, ∀ a ∈ g.ancestors id, (g.node a).coordinate = (g.node id).coordinate →
    (g.node id).cycleOf ≠ none ∧ g.children id = [] ∨
      a = root ∧ id ∈ g.children root ∧ (g.node id).cycleOf = none
  distinct : ∀ id, id < g.size →
    (((g.expandedChain id).filter (· ≠ root)).map fun a => (g.node a).coordinate).Nodup

/-- The nodes of a chain are above those that stand before them. -/
theorem IsTree.pairwise_chain {g : Graph} (hg : g.IsTree) {id : Nat} (hid : id < g.size) :
    (id :: g.ancestors id).Pairwise fun lower upper => upper ∈ g.ancestors lower := by
  induction id using Nat.strongRecOn with
  | ind id ih =>
    by_cases hroot : id = root
    · rw [hroot, hg.ancestors_root]
      exact List.pairwise_singleton _ _
    · obtain ⟨parent, hparent⟩ := hg.exists_parent hid hroot
      have hlt := (hg.lt_of_mem hparent).1
      refine List.pairwise_cons.2 ⟨fun _ h => h, ?_⟩
      rw [hg.ancestors_child hparent]
      exact ih parent hlt (Nat.lt_trans hlt hid)

/-- Only the root has no node above it and only its children have no other. -/
theorem IsTree.mem_ancestors_cases {g : Graph} (hg : g.IsTree) {id a : Nat}
    (ha : a ∈ g.ancestors id) : 2 ≤ g.depth id ∨ (a = root ∧ id ∈ g.children root) := by
  have hid : id < g.size := lt_size_of_mem_ancestors ha
  have hroot : id ≠ root := by
    rintro rfl
    rw [hg.ancestors_root] at ha
    cases ha
  obtain ⟨parent, hparent⟩ := hg.exists_parent hid hroot
  by_cases hdirect : parent = root
  · right
    subst hdirect
    rw [hg.ancestors_child hparent, hg.ancestors_root, List.mem_singleton] at ha
    exact ⟨ha, hparent⟩
  · left
    have hlt : parent < g.size := Nat.lt_trans (hg.lt_of_mem hparent).1 hid
    obtain ⟨_, hgrandparent⟩ := hg.exists_parent hlt hdirect
    have := hg.depth_child hparent
    have := hg.depth_child hgrandparent
    omega

/-- Where none of some nodes repeats another above it, those on a chain have distinct coordinates. -/
theorem IsTree.nodup_coordinates {g : Graph} (hg : g.IsTree) {kept : Nat → Bool}
    (hnew : ∀ id, kept id → ∀ a ∈ g.ancestors id, kept a →
      (g.node a).coordinate ≠ (g.node id).coordinate) {id : Nat} (hid : id < g.size) :
    (((id :: g.ancestors id).filter kept).map fun a => (g.node a).coordinate).Nodup := by
  rw [List.Nodup, List.pairwise_map]
  refine ((hg.pairwise_chain hid).filter _).imp_of_mem ?_
  intro lower upper hlower hupper habove hsame
  exact hnew lower (List.mem_filter.1 hlower).2 upper habove (List.mem_filter.1 hupper).2 hsame.symm

end Graph

namespace Forest

open ArtifactTree.Graph

variable {declares : Coordinate → List Declaration → Prop} {project : Coordinate}
  {dependencies : List Declaration} {forest : Forest}

/-- A direct dependency is no cycle marker, whatever it asks for. -/
theorem UnfoldsProject.cycleOf_of_direct (h : UnfoldsProject declares project dependencies forest)
    {id : Nat} (hdirect : id ∈ (forest.toGraph project).children root) :
    ((forest.toGraph project).node id).cycleOf = none := by
  have htree := isTree_toGraph forest project
  refine h.cycleOf_of_depth_lt ?_
  rw [htree.depth_child hdirect, htree.depth_root]
  exact Nat.one_lt_two

theorem UnfoldsProject.repeated_cases (h : UnfoldsProject declares project dependencies forest)
    {id a : Nat} (ha : a ∈ (forest.toGraph project).ancestors id)
    (hsame : ((forest.toGraph project).node a).coordinate =
      ((forest.toGraph project).node id).coordinate) :
    ((forest.toGraph project).node id).cycleOf ≠ none ∧ (forest.toGraph project).children id = [] ∨
      a = root ∧ id ∈ (forest.toGraph project).children root ∧
        ((forest.toGraph project).node id).cycleOf = none := by
  rcases (isTree_toGraph forest project).mem_ancestors_cases ha with hdepth | ⟨rfl, hdirect⟩
  · have hcycle : ((forest.toGraph project).node id).cycleOf ≠ none := by
      rw [h.cycleOf_of_le_depth (lt_size_of_mem_ancestors ha) hdepth]
      intro hnone
      have hother := List.find?_eq_none.1 hnone a (List.mem_reverse.2 ha)
      exact hother (by simpa using hsame)
    exact .inl ⟨hcycle, h.children_of_marker hcycle⟩
  · exact .inr ⟨rfl, hdirect, h.cycleOf_of_direct hdirect⟩

theorem UnfoldsProject.closesNestedRepeats
    (h : UnfoldsProject declares project dependencies forest) :
    (forest.toGraph project).ClosesNestedRepeats where
  repeated _ _ := h.repeated_cases
  distinct id hid := by
    rw [expandedChain, List.filter_filter]
    refine (isTree_toGraph forest project).nodup_coordinates (fun lower hlower a ha hkept hsame => ?_) hid
    simp only [Bool.and_eq_true, decide_eq_true_eq] at hlower hkept
    rcases h.repeated_cases ha hsame with ⟨hcycle, -⟩ | ⟨hroot, -⟩
    · exact hcycle hlower.2
    · exact hkept.1 hroot

theorem UnfoldsProject.coordinates_direct
    (h : UnfoldsProject declares project dependencies forest) :
    ((forest.toGraph project).children root).map
        (fun id => ((forest.toGraph project).node id).coordinate) =
      dependencies.map fun d => some d.coordinate := by
  rw [← List.forall₂_eq_eq_eq, List.forall₂_map_left_iff, List.forall₂_map_right_iff]
  exact h.requests_direct.imp fun _ _ hrequests => hrequests.coordinate

/-- A direct dependency that asks for the project is there exactly if the project declares one. -/
theorem UnfoldsProject.exists_direct_iff
    (h : UnfoldsProject declares project dependencies forest) (c : Coordinate) :
    (∃ id ∈ (forest.toGraph project).children root,
        ((forest.toGraph project).node id).coordinate = some c) ↔
      ∃ d ∈ dependencies, d.coordinate = c := by
  have hmem := congrArg (some c ∈ ·) h.coordinates_direct
  simpa using hmem

theorem UnfoldsProject.closesRepeats_iff
    (h : UnfoldsProject declares project dependencies forest) :
    (forest.toGraph project).ClosesRepeats ↔ ∀ d ∈ dependencies, d.coordinate ≠ project := by
  have htree := isTree_toGraph forest project
  have hproject : ((forest.toGraph project).node root).coordinate = some project := by
    rw [node_toGraph_root, Node.project]
  constructor
  · intro hcloses d hd hself
    obtain ⟨id, hdirect, hid⟩ := (h.exists_direct_iff project).2 ⟨d, hd, hself⟩
    have habove : root ∈ (forest.toGraph project).ancestors id := by
      rw [htree.ancestors_child hdirect]
      exact List.mem_cons_self
    obtain ⟨hcycle, -⟩ := hcloses.marker id root habove (hproject.trans hid.symm)
    exact hcycle (h.cycleOf_of_direct hdirect)
  · intro hself
    have hmarker : ∀ id, ∀ a ∈ (forest.toGraph project).ancestors id,
        ((forest.toGraph project).node a).coordinate =
          ((forest.toGraph project).node id).coordinate →
        ((forest.toGraph project).node id).cycleOf ≠ none ∧
          (forest.toGraph project).children id = [] := by
      intro id a ha hsame
      rcases h.repeated_cases ha hsame with hclosed | ⟨rfl, hdirect, -⟩
      · exact hclosed
      · obtain ⟨d, hd, hcoordinate⟩ :=
          (h.exists_direct_iff project).1 ⟨id, hdirect, hsame.symm.trans hproject⟩
        exact absurd hcoordinate (hself d hd)
    refine ⟨hmarker, fun id hid => htree.nodup_coordinates (fun lower hlower a ha _ hsame => ?_) hid⟩
    exact (hmarker lower a ha hsame).1 (of_decide_eq_true hlower)

end Forest

section Exec

variable {m : Type → Type} {σ : Type} [Monad m] [Execution m σ] {project : Project}
  {collector : Collector m} {limit : Nat} {s : σ} {g : Graph}

/-- **No coordinate is expanded twice along a chain**, but for the project where it asks for itself. -/
theorem closesRepeats_of_unfold (h : (exec (project.unfold collector limit).run s).1 = .ok g) :
    g.ClosesNestedRepeats ∧
      (g.ClosesRepeats ↔ ∀ d ∈ project.dependencies, d.coordinate ≠ project.coordinate) := by
  obtain ⟨forest, hforest, rfl⟩ := unfoldsProject_of_exec_unfold collector.answers_anything trivial h
  exact ⟨hforest.closesNestedRepeats, hforest.closesRepeats_iff⟩

/-- The node 3 of `mutualRequests` repeats the coordinate of the node 1. -/
theorem closesRepeats_mutualRequests :
    ∃ g, (exec (mutualRequests.unfold (.ofFunction mutualAnswer : Collector Id) 3).run ()).1 =
        .ok g ∧
      1 ∈ g.ancestors 3 ∧ (g.node 1).coordinate = (g.node 3).coordinate ∧
      (∀ d ∈ mutualRequests.dependencies, d.coordinate ≠ mutualRequests.coordinate) ∧
      g.ClosesRepeats ∧ g.ClosesNestedRepeats := by
  have h : (exec (mutualRequests.unfold (.ofFunction mutualAnswer : Collector Id) 3).run ()).1 =
      .ok _ := rfl
  have hself : ∀ d ∈ mutualRequests.dependencies, d.coordinate ≠ mutualRequests.coordinate := by
    decide
  obtain ⟨hnested, hcloses⟩ := closesRepeats_of_unfold h
  exact ⟨_, h, by decide +kernel, by decide +kernel, hself, hcloses.2 hself, hnested⟩

end Exec

def selfRequest : Project where
  coordinate := ⟨"org", "app", "jar", "1", none⟩
  dependencies := [{ coordinate := ⟨"org", "app", "jar", "1", none⟩ }]

def selfAnswer (c : Coordinate) : Answer :=
  .ok (if c.name = "app" then [{ coordinate := ⟨"org", "lib", "jar", "1", none⟩ }] else [])

/-- The node 1 has the coordinate of the project above it, and is expanded nevertheless. -/
theorem selfRequest_expanded :
    ∃ g, (exec (selfRequest.unfold (.ofFunction selfAnswer : Collector Id) 3).run ()).1 = .ok g ∧
      Graph.root ∈ g.ancestors 1 ∧ (g.node Graph.root).coordinate = (g.node 1).coordinate ∧
      (g.node 1).cycleOf = none ∧ g.children 1 = [2] ∧ ¬ g.ClosesRepeats := by
  have h : (exec (selfRequest.unfold (.ofFunction selfAnswer : Collector Id) 3).run ()).1 =
      .ok _ := rfl
  refine ⟨_, h, by decide +kernel, by decide +kernel, by decide +kernel, by decide +kernel, ?_⟩
  intro hcloses
  exact (hcloses.marker 1 Graph.root (by decide +kernel) (by decide +kernel)).1 (by decide +kernel)

end ArtifactTree
