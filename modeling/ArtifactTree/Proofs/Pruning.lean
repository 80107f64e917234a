import ArtifactTree.Proofs.Listing
import Mathlib.Data.List.Induction

/-!
# What pruning leaves

Pruning goes through the nodes that were reachable before it, and keeps of the children of each but the
root those that are not test-scoped. It goes on inside what it has just detached, so it counts every
nested test node that was reachable, also one below another.

What a pass over any nodes does is said first (`Prunes`). Of the listing it follows branch by branch: a
branch that starts outside the nested test nodes loses the branches of these and nothing else
(`branch_pruneNestedTests`).

Main statement: `pruned_of_wellLinked`.
-/

namespace ArtifactTree

namespace Graph

/-- The node asks for the scope `test` below the first level. -/
def NestedTest (g : Graph) (id : Nat) : Prop := 2 ≤ g.depth id ∧ (g.node id).scope = some .test

instance (g : Graph) : DecidablePred g.NestedTest := fun id =>
  inferInstanceAs (Decidable (2 ≤ g.depth id ∧ (g.node id).scope = some .test))

/-- Neither the node nor any node above it is a nested test node. -/
def OutsideTests (g : Graph) (id : Nat) : Prop := ∀ a ∈ id :: g.ancestors id, ¬ g.NestedTest a

instance (g : Graph) : DecidablePred g.OutsideTests := fun id =>
  inferInstanceAs (Decidable (∀ a ∈ id :: g.ancestors id, ¬ g.NestedTest a))

/-! ## One pass -/

/-- The node with those of its children that may stay below the first level. -/
def thinned (g : Graph) (id : Nat) : Node :=
  { g.node id with children := (g.children id).filter fun child => mayNest (g.node child) }

theorem node_retainChildren (g : Graph) (id other : Nat) :
    (g.retainChildren id mayNest).node other =
      if other = id then g.thinned id else g.node other := by
  by_cases hother : other = id
  · rw [if_pos hother, hother]
    by_cases hid : id < g.size
    · exact node_modify_self _ hid
    · have hnode : g.node id = {} := node_of_size_le (Nat.le_of_not_lt hid)
      rw [retainChildren, keepChildren, modify_of_size_le _ (Nat.le_of_not_lt hid), thinned, children,
        hnode]
      rfl
  · rw [if_neg hother, retainChildren, keepChildren, node_modify_of_ne _ hother]

theorem length_sub_filter {α : Type} (p : α → Bool) (l : List α) :
    l.length - (l.filter p).length = l.countP fun a => !p a := by
  have hlength := l.length_eq_countP_add_countP p
  rw [List.countP_eq_length_filter] at hlength
  simp only [Bool.not_eq_true, Bool.decide_eq_false] at hlength
  omega

/-- What pruning at these nodes has come to: each of them is thinned, and the children that this
detached are counted. -/
structure Prunes (g : Graph) (ids : List Nat) (state : Graph × Nat) : Prop where
  size : state.1.size = g.size
  node : ∀ id, state.1.node id = if id ∈ ids then g.thinned id else g.node id
  count : state.2 = (ids.flatMap g.children).countP fun child => !mayNest (g.node child)

namespace Prunes

variable {g : Graph} {ids : List Nat} {state : Graph × Nat}

theorem scope (h : g.Prunes ids state) (id : Nat) :
    (state.1.node id).scope = (g.node id).scope := by
  rw [h.node]
  split <;> rfl

/-- A node that is pruned once loses the children that it had at the start. -/
theorem thinned_eq (h : g.Prunes ids state) {id : Nat} (hid : id ∉ ids) :
    state.1.thinned id = g.thinned id := by
  simp only [thinned, mayNest, h.scope, children, h.node id, if_neg hid]

theorem next (h : g.Prunes ids state) {id : Nat} (hid : id ∉ ids) :
    g.Prunes (ids ++ [id])
      ((state.1.pruneAt id).1, state.2 + (state.1.pruneAt id).2) where
  size := (size_retainChildren _ _ _).trans h.size
  node other := by
    change (state.1.retainChildren id mayNest).node other = _
    rw [node_retainChildren, h.thinned_eq hid, h.node]
    by_cases hother : other = id
    · simp [hother]
    · simp [hother]
  count := by
    have hbefore : state.1.children id = g.children id := by
      rw [children, h.node, if_neg hid, children]
    have hafter : (state.1.retainChildren id mayNest).children id =
        (g.children id).filter fun child => mayNest (g.node child) := by
      rw [children, node_retainChildren, if_pos rfl, h.thinned_eq hid, thinned]
    rw [List.flatMap_append, List.countP_append, ← h.count, List.flatMap_singleton]
    refine congrArg (state.2 + ·) ?_
    rw [pruneAt]
    dsimp only
    rw [hbefore, hafter, length_sub_filter]

end Prunes

/-- Pruning thins all reachable nodes but the root. -/
theorem prunes_pruneNestedTests {g : Graph} (hg : g.preorder.Nodup) :
    g.Prunes (g.preorder.filter (· != root)) g.pruneNestedTests := by
  have hpass : ∀ ids : List Nat, ids.Nodup →
      g.Prunes ids (ids.foldl (fun (state : Graph × Nat) id =>
        ((state.1.pruneAt id).1, state.2 + (state.1.pruneAt id).2)) (g, 0)) := by
    intro ids
    induction ids using List.reverseRecOn with
    | nil => exact fun _ => ⟨rfl, fun id => by simp, rfl⟩
    | append_singleton ids id ih =>
      intro hids
      rw [List.nodup_append] at hids
      rw [List.foldl_append]
      exact (ih hids.1).next fun hid => hids.2.2 id hid id List.mem_cons_self rfl
  exact hpass _ (hg.filter _)

/-! ## Branches that are left -/

namespace WellLinked

variable {g : Graph} (hg : g.WellLinked)
include hg

theorem node_pruneNestedTests (id : Nat) :
    g.pruneNestedTests.1.node id =
      if id ∈ g.preorder ∧ id ≠ root then g.thinned id else g.node id := by
  simp [(prunes_pruneNestedTests hg.nodup_preorder).node]

theorem wellLinked_pruneNestedTests : g.pruneNestedTests.1.WellLinked :=
  hg.thins (.pruneNestedTests g)

/-- A reachable node keeps the children that are no nested test nodes. -/
theorem children_pruneNestedTests {id : Nat} (hid : id ∈ g.preorder) :
    g.pruneNestedTests.1.children id = (g.children id).filter fun child => ¬ g.NestedTest child := by
  have hsize := hg.lt_of_mem_preorder hid
  by_cases hroot : id = root
  · subst hroot
    rw [children, hg.node_pruneNestedTests, if_neg (fun h => h.2 rfl), ← children]
    refine (List.filter_eq_self.2 fun child hchild => ?_).symm
    simp [NestedTest, hg.depth_of_mem hchild, hg.depth_of_root]
  · rw [children, hg.node_pruneNestedTests, if_pos ⟨hid, hroot⟩, thinned]
    refine List.filter_congr fun child hchild => ?_
    have hdepth : 2 ≤ g.depth child := by
      rw [hg.depth_of_mem hchild]
      exact Nat.succ_le_succ (hg.depth_pos hsize hroot)
    by_cases htest : (g.node child).scope = some .test
    · simp [NestedTest, mayNest, htest, hdepth]
    · simp [NestedTest, mayNest, htest]

theorem outsideTests_child {id child : Nat} (hchild : child ∈ g.children id) :
    g.OutsideTests child ↔ ¬ g.NestedTest child ∧ g.OutsideTests id := by
  rw [OutsideTests, OutsideTests, hg.ancestors_of_parent (hg.parent_of_mem hchild)]
  exact List.forall_mem_cons

/-- A branch that starts outside the nested test nodes keeps the nodes outside of them. -/
theorem branch_pruneNestedTests {id : Nat} (hid : id < g.size) : id ∈ g.preorder →
    g.OutsideTests id →
    g.pruneNestedTests.1.branch id = (g.branch id).filter fun a => g.OutsideTests a := by
  induction id, hid using hg.below_induction with
  | node id hid ih =>
    intro hmem houtside
    have hsize : g.pruneNestedTests.1.size = g.size := (Thins.pruneNestedTests g).size
    rw [hg.wellLinked_pruneNestedTests.branch_eq (hsize ▸ hid), hg.branch_eq hid,
      hg.children_pruneNestedTests hmem, List.filter_cons_of_pos (by simpa using houtside),
      List.filter_flatMap]
    refine congrArg (id :: ·) (flatMap_filter_eq (fun child hchild hkept => ?_)
      fun child hchild hdropped => ?_)
    · have hreached := hg.child_mem_branch hg.size_pos hchild hmem
      have hopen : ¬ g.NestedTest child := by simpa using hkept
      exact ih child hchild hreached ((hg.outsideTests_child hchild).2 ⟨hopen, houtside⟩)
    · have htest : g.NestedTest child := by simpa using hdropped
      refine List.filter_eq_nil_iff.2 fun a ha => ?_
      have hchain := (hg.of_mem_branch (hg.lt_of_mem hchild).2 a ha).2
      simpa using fun h : g.OutsideTests a => h child hchain htest

/-- The listing loses the nested test nodes and all below them. -/
theorem preorder_pruneNestedTests :
    g.pruneNestedTests.1.preorder = g.preorder.filter fun id => g.OutsideTests id := by
  refine hg.branch_pruneNestedTests hg.size_pos (hg.of_reachedAt .root).1 ?_
  intro a ha htest
  rw [hg.ancestors_of_root, List.mem_singleton] at ha
  have hdepth := htest.1
  rw [ha, hg.depth_of_root] at hdepth
  omega

/-! ## The count -/

/-- The children of the reachable nodes but the root are the reachable nodes from the second level on. -/
theorem nested_perm : ((g.preorder.filter (· != root)).flatMap g.children).Perm
    (g.preorder.filter fun id => 2 ≤ g.depth id) := by
  refine (List.perm_ext_iff_of_nodup (hg.nodup_flatMap_children (hg.nodup_preorder.filter _))
    (hg.nodup_preorder.filter _)).2 fun id => ?_
  simp only [List.mem_flatMap, List.mem_filter, bne_iff_ne, decide_eq_true_eq]
  constructor
  · rintro ⟨parent, ⟨hparent, hroot⟩, hchild⟩
    refine ⟨hg.child_mem_branch hg.size_pos hchild hparent, ?_⟩
    rw [hg.depth_of_mem hchild]
    exact Nat.succ_le_succ (hg.depth_pos (hg.lt_of_mem_preorder hparent) hroot)
  · rintro ⟨hid, hdepth⟩
    have hreached := hg.reachedAt_iff.2 ⟨hid, rfl⟩
    generalize g.depth id = level at hreached hdepth
    cases hreached with
    | root => omega
    | @child level parent _ above mem =>
      refine ⟨parent, ⟨(hg.of_reachedAt above).1, ?_⟩, mem⟩
      rintro rfl
      rw [← (hg.of_reachedAt above).2, hg.depth_of_root] at hdepth
      omega

/-- Every nested test node is counted, once. -/
theorem count_pruneNestedTests :
    g.pruneNestedTests.2 = g.preorder.countP fun id => g.NestedTest id := by
  rw [(prunes_pruneNestedTests hg.nodup_preorder).count, hg.nested_perm.countP_eq,
    List.countP_filter]
  refine List.countP_congr fun id _ => ?_
  rw [decide_eq_true_eq, NestedTest]
  simp [mayNest, and_comm]

/-! ## Pruning again -/

/-- Below a reachable node other than the root there is no test node left. -/
theorem pruneNestedTests_again :
    g.pruneNestedTests.1.pruneNestedTests = (g.pruneNestedTests.1, 0) := by
  apply pruneNestedTests_eq_self
  intro id hid hroot child hchild
  rw [hg.preorder_pruneNestedTests] at hid
  have hmem := (List.mem_filter.1 hid).1
  rw [children, hg.node_pruneNestedTests, if_pos ⟨hmem, hroot⟩] at hchild
  have hscope := (prunes_pruneNestedTests hg.nodup_preorder).scope child
  rw [mayNest, hscope]
  exact (List.mem_filter.1 hchild).2

end WellLinked

/-! ## What pruning leaves -/

/-- What pruning made of the graph. -/
structure Pruned (g : Graph) : Prop where
  /-- The reachable nodes are those outside the nested test nodes, in the order that they had. -/
  preorder : g.pruneNestedTests.1.preorder = g.preorder.filter fun id => g.OutsideTests id
  /-- Direct dependencies stay, whatever their scope. -/
  children_root : g.pruneNestedTests.1.children root = g.children root
  /-- The result counts the nested test nodes that were reachable. -/
  count : g.pruneNestedTests.2 = g.preorder.countP fun id => g.NestedTest id
  /-- Nothing but lists of children is changed, and these lose nested test nodes only. -/
  size : g.pruneNestedTests.1.size = g.size
  node : ∀ id, g.pruneNestedTests.1.node id =
    { g.node id with children := g.pruneNestedTests.1.children id }
  children : ∀ id ∈ g.preorder,
    g.pruneNestedTests.1.children id = (g.children id).filter fun child => ¬ g.NestedTest child
  children_unreachable : ∀ id, id ∉ g.preorder →
    g.pruneNestedTests.1.children id = g.children id
  again : g.pruneNestedTests.1.pruneNestedTests = (g.pruneNestedTests.1, 0)

/-- **Pruning removes exactly the nested test branches**, from every graph of which the links describe a
tree, whatever was dropped from it before. -/
theorem pruned_of_wellLinked {g : Graph} (hg : g.WellLinked) : g.Pruned where
  preorder := hg.preorder_pruneNestedTests
  children_root := by
    rw [children, hg.node_pruneNestedTests, if_neg (fun h => h.2 rfl), ← children]
  count := hg.count_pruneNestedTests
  size := (Thins.pruneNestedTests g).size
  node id := by
    rw [children, hg.node_pruneNestedTests]
    split <;> rfl
  children id hid := hg.children_pruneNestedTests hid
  children_unreachable id hid := by
    rw [children, hg.node_pruneNestedTests, if_neg (fun h => hid h.1), ← children]
  again := hg.pruneNestedTests_again

/-- Below the direct test dependency `mock` stands a test node with a test node and an ordinary node below
it, and below `web` a dropped node with a test node. -/
def nestedMocks : Graph :=
  let inTests (name : String) : Node := { requested name with scope := some .test }
  (ofRoot (requested "app")).changed [
    .addChild root (inTests "mock"), .addChild 1 (inTests "stub"), .addChild 2 (inTests "fake"),
    .addChild 2 (requested "util"), .addChild 1 (requested "log"), .addChild root (requested "web"),
    .addChild 6 (requested "text"), .addChild 7 (inTests "spy"), .truncateChildren 6]

/-- Both nested test nodes are counted, the direct one stays, and what was dropped is left alone. -/
theorem pruned_nestedMocks :
    nestedMocks.WellLinked ∧ nestedMocks.Pruned ∧
      nestedMocks.preorder = [root, 1, 2, 3, 4, 5, 6] ∧
      nestedMocks.pruneNestedTests.1.preorder = [root, 1, 5, 6] ∧
      nestedMocks.pruneNestedTests.2 = 2 ∧ nestedMocks.pruneNestedTests.1.children 7 = [8] := by
  have h : nestedMocks.WellLinked := (wellLinked_ofRoot (requested "app")).changed (by decide +kernel)
  exact ⟨h, pruned_of_wellLinked h, by decide +kernel, by decide +kernel, by decide +kernel,
    by decide +kernel⟩

end Graph

end ArtifactTree
