import ArtifactTree.Proofs.Arena
import Mathlib.Data.List.Basic
import Mathlib.Logic.Function.Iterate

/-!
# Listing a tree

What is read off the links of a graph: the ancestors of a node, its depth, the listing of the reachable
nodes and the statistics. All of it is said for `Graph.WellLinked`, and so of every graph that goes
through changes.

Parents come before their children in the arena. So a chain of parents ends, the nodes from one down
(`Graph.branch`) are that node and the branches of its children, and facts about branches follow by
induction on what is below a node (`WellLinked.below_induction`). Two branches of one node share
nothing, because two nodes of one depth are not above the same node.

Main statement: `tree_of_changes`.
-/

namespace ArtifactTree

namespace Graph

/-! ## Ancestors -/

namespace WellLinked

variable {g : Graph} (hg : g.WellLinked)
include hg

theorem ancestorsWithin_root (limit : Nat) : g.ancestorsWithin limit root = [] := by
  cases limit <;> simp [ancestorsWithin, hg.parent_root]

/-- From an id on, there are no more ancestors than the id says. -/
theorem ancestorsWithin_of_le {limit limit' id : Nat} (h : id ≤ limit) (h' : id ≤ limit') :
    g.ancestorsWithin limit id = g.ancestorsWithin limit' id := by
  induction id using Nat.strongRecOn generalizing limit limit' with
  | ind id ih =>
    by_cases hroot : id = root
    · rw [hroot, hg.ancestorsWithin_root, hg.ancestorsWithin_root]
    · have hpos : id ≠ 0 := hroot
      obtain ⟨limit, rfl⟩ : ∃ k, limit = k + 1 := ⟨limit - 1, by omega⟩
      obtain ⟨limit', rfl⟩ : ∃ k, limit' = k + 1 := ⟨limit' - 1, by omega⟩
      cases hparent : (g.node id).parent with
      | none => simp [ancestorsWithin, hparent]
      | some parent =>
        have hlt := (hg.parent_lt hparent).1
        simp only [ancestorsWithin, hparent]
        have hle : parent ≤ limit := by omega
        have hle' : parent ≤ limit' := by omega
        rw [ih parent hlt hle hle']

theorem ancestors_of_parent {id parent : Nat} (h : (g.node id).parent = some parent) :
    g.ancestors id = parent :: g.ancestors parent := by
  obtain ⟨hlt, hid⟩ := hg.parent_lt h
  obtain ⟨limit, hlimit⟩ : ∃ k, g.size = k + 1 := ⟨g.size - 1, by omega⟩
  rw [ancestors, ancestors, hlimit, ancestorsWithin, h]
  dsimp only
  rw [hg.ancestorsWithin_of_le (by omega : parent ≤ limit) (by omega : parent ≤ limit + 1)]

theorem ancestors_of_root : g.ancestors root = [] := hg.ancestorsWithin_root _

theorem depth_of_root : g.depth root = 0 := by rw [depth, hg.ancestors_of_root, List.length_nil]

theorem depth_of_parent {id parent : Nat} (h : (g.node id).parent = some parent) :
    g.depth id = g.depth parent + 1 := by
  rw [depth, hg.ancestors_of_parent h, List.length_cons, depth]

theorem depth_of_mem {id child : Nat} (h : child ∈ g.children id) :
    g.depth child = g.depth id + 1 := hg.depth_of_parent (hg.parent_of_mem h)

/-- What is above what is above a node is above the node. -/
theorem mem_ancestors_trans {id a b : Nat} (ha : a ∈ g.ancestors b) (hb : b ∈ g.ancestors id)
    (hid : id < g.size) : a ∈ g.ancestors id := by
  induction id using Nat.strongRecOn with
  | ind id ih =>
    by_cases hroot : id = root
    · rw [hroot, hg.ancestors_of_root] at hb
      cases hb
    · obtain ⟨parent, hlt, hparent⟩ := hg.exists_parent hid hroot
      rw [hg.ancestors_of_parent hparent] at hb ⊢
      rcases List.mem_cons.1 hb with rfl | hb
      · exact List.mem_cons_of_mem _ ha
      · exact List.mem_cons_of_mem _ (ih parent hlt hb (Nat.lt_trans hlt hid))

/-- Depths are not larger than ids. -/
theorem depth_le_self {id : Nat} (hid : id < g.size) : g.depth id ≤ id := by
  induction id using Nat.strongRecOn with
  | ind id ih =>
    by_cases hroot : id = root
    · rw [hroot, hg.depth_of_root]
      exact Nat.zero_le _
    · obtain ⟨parent, hlt, hparent⟩ := hg.exists_parent hid hroot
      have hle := ih parent hlt (Nat.lt_trans hlt hid)
      rw [hg.depth_of_parent hparent]
      omega

/-- Only the root has depth zero. -/
theorem depth_pos {id : Nat} (hid : id < g.size) (hroot : id ≠ root) : 0 < g.depth id := by
  obtain ⟨parent, -, hparent⟩ := hg.exists_parent hid hroot
  rw [hg.depth_of_parent hparent]
  exact Nat.succ_pos _

/-- What is above a node is less deep. -/
theorem depth_lt_of_mem_ancestors {id a : Nat} (hid : id < g.size) (ha : a ∈ g.ancestors id) :
    g.depth a < g.depth id := by
  induction id using Nat.strongRecOn with
  | ind id ih =>
    by_cases hroot : id = root
    · rw [hroot, hg.ancestors_of_root] at ha
      cases ha
    · obtain ⟨parent, hlt, hparent⟩ := hg.exists_parent hid hroot
      rw [hg.depth_of_parent hparent]
      rw [hg.ancestors_of_parent hparent] at ha
      rcases List.mem_cons.1 ha with rfl | ha
      · exact Nat.lt_succ_self _
      · exact Nat.lt_succ_of_lt (ih parent hlt (Nat.lt_trans hlt hid) ha)

/-- No two nodes of one depth are on the chain of a node. -/
theorem eq_of_mem_chain {id a b : Nat} (hid : id < g.size) (ha : a ∈ id :: g.ancestors id)
    (hb : b ∈ id :: g.ancestors id) (hdepth : g.depth a = g.depth b) : a = b := by
  induction id using Nat.strongRecOn with
  | ind id ih =>
    rcases List.mem_cons.1 ha with rfl | ha
    · rcases List.mem_cons.1 hb with rfl | hb
      · rfl
      · exact absurd hdepth.symm (Nat.ne_of_lt (hg.depth_lt_of_mem_ancestors hid hb))
    · rcases List.mem_cons.1 hb with rfl | hb
      · exact absurd hdepth (Nat.ne_of_lt (hg.depth_lt_of_mem_ancestors hid ha))
      · by_cases hroot : id = root
        · rw [hroot, hg.ancestors_of_root] at ha
          cases ha
        · obtain ⟨parent, hlt, hparent⟩ := hg.exists_parent hid hroot
          rw [hg.ancestors_of_parent hparent] at ha hb
          exact ih parent hlt (Nat.lt_trans hlt hid) ha hb

end WellLinked

/-! ## Branches -/

/-- The node at `id` and all below it in depth-first order. -/
def branch (g : Graph) (id : Nat) : List Nat := g.preorderWithin g.size id

theorem preorder_eq_branch (g : Graph) : g.preorder = g.branch root := rfl

/-- Lists put together for some items are those for all, if the others have none. -/
theorem flatMap_filter_eq {α β : Type} {p : α → Bool} {f k : α → List β} {l : List α}
    (hkept : ∀ a ∈ l, p a → f a = k a) (hdropped : ∀ a ∈ l, ¬ p a → k a = []) :
    (l.filter p).flatMap f = l.flatMap k := by
  induction l with
  | nil => rfl
  | cons a l ih =>
    have hrest := ih (fun b hb => hkept b (List.mem_cons_of_mem a hb))
      fun b hb => hdropped b (List.mem_cons_of_mem a hb)
    rw [List.flatMap_cons, ← hrest]
    by_cases ha : p a
    · rw [List.filter_cons_of_pos ha, List.flatMap_cons, hkept a List.mem_cons_self ha]
    · rw [List.filter_cons_of_neg ha, hdropped a List.mem_cons_self ha, List.nil_append]

namespace WellLinked

variable {g : Graph} (hg : g.WellLinked)
include hg

/-- What holds of a node if it holds of its children holds of all nodes. -/
theorem below_induction {motive : (id : Nat) → id < g.size → Prop}
    (node : ∀ id hid,
      (∀ child (hchild : child ∈ g.children id), motive child (hg.lt_of_mem hchild).2) →
      motive id hid) (id : Nat) (hid : id < g.size) : motive id hid := by
  induction hn : g.size - id using Nat.strongRecOn generalizing id with
  | ind n ih =>
    refine node id hid fun child hchild => ?_
    obtain ⟨hlt, hsize⟩ := hg.lt_of_mem hchild
    exact ih (g.size - child) (by omega) child hsize rfl

theorem preorderWithin_of_le {limit limit' id : Nat} (hid : id < g.size)
    (h : g.size ≤ id + limit) (h' : g.size ≤ id + limit') :
    g.preorderWithin limit id = g.preorderWithin limit' id := by
  induction limit generalizing limit' id with
  | zero => omega
  | succ limit ih =>
    obtain ⟨limit', rfl⟩ : ∃ k, limit' = k + 1 := ⟨limit' - 1, by omega⟩
    rw [preorderWithin, preorderWithin]
    refine congrArg (id :: ·) (List.flatMap_congr fun child hchild => ?_)
    obtain ⟨hlt, hsize⟩ := hg.lt_of_mem hchild
    exact ih hsize (by omega) (by omega)

/-- A branch is its first node and the branches of its children, in order. -/
theorem branch_eq {id : Nat} (hid : id < g.size) :
    g.branch id = id :: (g.children id).flatMap g.branch := by
  obtain ⟨limit, hlimit⟩ : ∃ k, g.size = k + 1 := ⟨g.size - 1, by omega⟩
  rw [branch, hlimit, preorderWithin]
  refine congrArg (id :: ·) (List.flatMap_congr fun child hchild => ?_)
  obtain ⟨hlt, hsize⟩ := hg.lt_of_mem hchild
  exact hg.preorderWithin_of_le hsize (by omega) (by omega)

/-- What is in a branch is in the arena, and the branch starts on its chain. -/
theorem of_mem_branch {id : Nat} (hid : id < g.size) :
    ∀ a ∈ g.branch id, a < g.size ∧ id ∈ a :: g.ancestors a := by
  induction id, hid using hg.below_induction with
  | node id hid ih =>
    intro a ha
    rw [hg.branch_eq hid] at ha
    rcases List.mem_cons.1 ha with rfl | ha
    · exact ⟨hid, List.mem_cons_self⟩
    · obtain ⟨child, hchild, ha⟩ := List.mem_flatMap.1 ha
      obtain ⟨hsize, hchain⟩ := ih child hchild a ha
      have habove : id ∈ g.ancestors child := by
        rw [hg.ancestors_of_parent (hg.parent_of_mem hchild)]
        exact List.mem_cons_self
      refine ⟨hsize, List.mem_cons_of_mem _ ?_⟩
      rcases List.mem_cons.1 hchain with rfl | hchain
      · exact habove
      · exact hg.mem_ancestors_trans habove hchain hsize

theorem depth_le_of_mem_branch {id a : Nat} (hid : id < g.size) (ha : a ∈ g.branch id) :
    g.depth id ≤ g.depth a := by
  obtain ⟨hsize, hchain⟩ := hg.of_mem_branch hid a ha
  rcases List.mem_cons.1 hchain with rfl | habove
  · exact Nat.le_refl _
  · exact Nat.le_of_lt (hg.depth_lt_of_mem_ancestors hsize habove)

/-- With a node, a branch holds the children of the node. -/
theorem child_mem_branch {id a child : Nat} (hid : id < g.size) (hchild : child ∈ g.children a) :
    a ∈ g.branch id → child ∈ g.branch id := by
  induction id, hid using hg.below_induction with
  | node id hid ih =>
    intro ha
    rw [hg.branch_eq hid] at ha ⊢
    refine List.mem_cons_of_mem _ (List.mem_flatMap.2 ?_)
    rcases List.mem_cons.1 ha with rfl | ha
    · refine ⟨child, hchild, ?_⟩
      rw [hg.branch_eq (hg.lt_of_mem hchild).2]
      exact List.mem_cons_self
    · obtain ⟨next, hnext, ha⟩ := List.mem_flatMap.1 ha
      exact ⟨next, hnext, ih next hnext ha⟩

theorem nodup_branch {id : Nat} (hid : id < g.size) : (g.branch id).Nodup := by
  induction id, hid using hg.below_induction with
  | node id hid ih =>
    rw [hg.branch_eq hid, List.nodup_cons, List.nodup_flatMap]
    refine ⟨fun hmem => ?_, ih, (hg.nodup_children id).imp_of_mem ?_⟩
    · obtain ⟨child, hchild, hmem⟩ := List.mem_flatMap.1 hmem
      have hle := hg.depth_le_of_mem_branch (hg.lt_of_mem hchild).2 hmem
      rw [hg.depth_of_mem hchild] at hle
      omega
    · -- Two children have one depth, so they are not both on the chain of what is in both branches.
      intro child other hchild hother hne a ha ha'
      obtain ⟨hsize, hchain⟩ := hg.of_mem_branch (hg.lt_of_mem hchild).2 a ha
      obtain ⟨-, hchain'⟩ := hg.of_mem_branch (hg.lt_of_mem hother).2 a ha'
      refine hne (hg.eq_of_mem_chain hsize hchain hchain' ?_)
      rw [hg.depth_of_mem hchild, hg.depth_of_mem hother]

end WellLinked

/-! ## Reachable nodes -/

/-- The recursion from the root into the children comes to a node, at this level. -/
inductive ReachedAt (g : Graph) : Nat → Nat → Prop
  | root : ReachedAt g 0 root
  | child {level id child : Nat} (above : ReachedAt g level id) (mem : child ∈ g.children id) :
    ReachedAt g (level + 1) child

namespace WellLinked

variable {g : Graph} (hg : g.WellLinked)
include hg

theorem of_reachedAt {level id : Nat} (h : g.ReachedAt level id) :
    id ∈ g.preorder ∧ g.depth id = level := by
  have hroot : g.branch root = _ := hg.branch_eq hg.size_pos
  induction h with
  | root =>
    rw [preorder_eq_branch, hroot]
    exact ⟨List.mem_cons_self, hg.depth_of_root⟩
  | child above mem ih =>
    exact ⟨hg.child_mem_branch hg.size_pos mem ih.1, by rw [hg.depth_of_mem mem, ih.2]⟩

/-- What is in the branch of a reached node is reached. -/
theorem exists_reachedAt_of_mem_branch {id : Nat} (hid : id < g.size) :
    ∀ {level : Nat}, g.ReachedAt level id → ∀ a ∈ g.branch id, ∃ level, g.ReachedAt level a := by
  induction id, hid using hg.below_induction with
  | node id hid ih =>
    intro level hlevel a ha
    rw [hg.branch_eq hid] at ha
    rcases List.mem_cons.1 ha with rfl | ha
    · exact ⟨level, hlevel⟩
    · obtain ⟨child, hchild, ha⟩ := List.mem_flatMap.1 ha
      exact ih child hchild (hlevel.child hchild) a ha

/-- The listing holds the reachable nodes, and parents tell the level at which one is reached. -/
theorem reachedAt_iff {level id : Nat} :
    g.ReachedAt level id ↔ id ∈ g.preorder ∧ g.depth id = level := by
  refine ⟨hg.of_reachedAt, fun ⟨hmem, hdepth⟩ => ?_⟩
  obtain ⟨level', hlevel'⟩ := hg.exists_reachedAt_of_mem_branch hg.size_pos .root id hmem
  rw [← hdepth, (hg.of_reachedAt hlevel').2]
  exact hlevel'

theorem lt_of_mem_preorder {id : Nat} (h : id ∈ g.preorder) : id < g.size :=
  (hg.of_mem_branch hg.size_pos id h).1

theorem nodup_preorder : g.preorder.Nodup := hg.nodup_branch hg.size_pos

/-- The branch of a reachable node is one stretch of the listing. -/
theorem branch_infix {level id : Nat} (h : g.ReachedAt level id) : g.branch id <:+: g.preorder := by
  induction h with
  | root => exact List.infix_rfl
  | @child level id child above mem ih =>
    have hid := hg.lt_of_mem_preorder (hg.of_reachedAt above).1
    refine List.IsInfix.trans ?_ ih
    rw [hg.branch_eq hid]
    obtain ⟨before, after, hsplit⟩ := List.append_of_mem mem
    rw [hsplit, List.flatMap_append, List.flatMap_cons]
    exact ⟨id :: before.flatMap g.branch, after.flatMap g.branch, by simp⟩

/-- The branch of a node holds the reachable nodes at and below it. -/
theorem mem_branch_iff {id a : Nat} (hid : id ∈ g.preorder) :
    a ∈ g.branch id ↔ a ∈ g.preorder ∧ id ∈ a :: g.ancestors a := by
  have hsize := hg.lt_of_mem_preorder hid
  constructor
  · intro ha
    have hreached := hg.reachedAt_iff.2 ⟨hid, rfl⟩
    exact ⟨(hg.branch_infix hreached).subset ha, (hg.of_mem_branch hsize a ha).2⟩
  · rintro ⟨ha, hchain⟩
    have hself : id ∈ g.branch id := by
      rw [hg.branch_eq hsize]
      exact List.mem_cons_self
    obtain ⟨level, hreached⟩ : ∃ level, g.ReachedAt level a := ⟨_, hg.reachedAt_iff.2 ⟨ha, rfl⟩⟩
    induction hreached with
    | root =>
      rw [hg.ancestors_of_root, List.mem_singleton] at hchain
      rw [← hchain]
      exact hself
    | @child level parent a above mem ih =>
      rw [hg.ancestors_of_parent (hg.parent_of_mem mem)] at hchain
      rcases List.mem_cons.1 hchain with rfl | hchain
      · exact hself
      · exact hg.child_mem_branch hsize mem (ih (hg.of_reachedAt above).1 hchain)

end WellLinked

/-- Where every node but the root is a child, every node is reachable. -/
theorem IsTree.mem_preorder {g : Graph} (hg : g.IsTree) {id : Nat} (hid : id < g.size) :
    id ∈ g.preorder := by
  induction id using Nat.strongRecOn with
  | ind id ih =>
    by_cases hroot : id = root
    · exact hroot ▸ (hg.wellLinked.of_reachedAt .root).1
    · obtain ⟨parent, hmem⟩ := hg.exists_parent hid hroot
      have hlt := (hg.lt_of_mem hmem).1
      have hparent := ih parent hlt (Nat.lt_trans hlt hid)
      exact hg.wellLinked.child_mem_branch hg.size_pos hmem hparent

/-! ## Listing with a stack -/

/-- A listing under way: the ids that wait, the next one last, and those listed so far. -/
structure Listing where
  stack : List Nat
  order : List Nat

/-- Takes the last id off the stack, lists it and puts its children on the stack, the first one last.
With an empty stack the listing is over. -/
def Listing.next (g : Graph) (l : Listing) : Listing :=
  match l.stack.getLast? with
  | none => l
  | some id => { stack := l.stack.dropLast ++ (g.children id).reverse, order := l.order ++ [id] }

theorem Listing.next_concat (g : Graph) (stack order : List Nat) (id : Nat) :
    next g ⟨stack ++ [id], order⟩ = ⟨stack ++ (g.children id).reverse, order ++ [id]⟩ := by
  simp [next]

theorem Listing.next_nil (g : Graph) (order : List Nat) : next g ⟨[], order⟩ = ⟨[], order⟩ := rfl

/-- As many steps as the branches have nodes list the branches of the ids on top of the stack, if they
do so for each of them alone. -/
theorem Listing.iterate_branches {g : Graph} (ids : List Nat)
    (hids : ∀ id ∈ ids, ∀ stack order,
      (next g)^[(g.branch id).length] ⟨stack ++ [id], order⟩ = ⟨stack, order ++ g.branch id⟩)
    (stack order : List Nat) :
    (next g)^[(ids.flatMap g.branch).length] ⟨stack ++ ids.reverse, order⟩ =
      ⟨stack, order ++ ids.flatMap g.branch⟩ := by
  induction ids generalizing order with
  | nil => simp
  | cons id ids ih =>
    rw [List.flatMap_cons, List.length_append, Nat.add_comm, Function.iterate_add_apply,
      List.reverse_cons, ← List.append_assoc, hids id List.mem_cons_self,
      ih fun id hid => hids id (List.mem_cons_of_mem _ hid), List.append_assoc]

namespace WellLinked

variable {g : Graph} (hg : g.WellLinked)
include hg

theorem iterate_branch {id : Nat} (hid : id < g.size) : ∀ stack order,
    (Listing.next g)^[(g.branch id).length] ⟨stack ++ [id], order⟩ =
      ⟨stack, order ++ g.branch id⟩ := by
  induction id, hid using hg.below_induction with
  | node id hid ih =>
    intro stack order
    rw [hg.branch_eq hid, List.length_cons, Function.iterate_succ_apply, Listing.next_concat,
      Listing.iterate_branches (g.children id) ih, List.append_assoc, List.singleton_append]

/-- After as many steps as there are reachable nodes the stack is empty, and they are listed. -/
theorem iterate_root {steps : Nat} (h : g.preorder.length ≤ steps) :
    (Listing.next g)^[steps] ⟨[root], []⟩ = ⟨[], g.preorder⟩ := by
  obtain ⟨more, rfl⟩ := Nat.exists_eq_add_of_le' h
  have hlisted : (Listing.next g)^[(g.branch root).length] ⟨[root], []⟩ = ⟨[], g.branch root⟩ :=
    hg.iterate_branch hg.size_pos [] []
  rw [Function.iterate_add_apply, preorder_eq_branch, hlisted]
  exact Function.iterate_fixed (Listing.next_nil g _) more

end WellLinked

/-! ## Statistics -/

namespace WellLinked

variable {g : Graph} (hg : g.WellLinked)
include hg

/-- Apart from the nodes at depth two or more, the root and its children are all that is reached. -/
theorem shallow_perm :
    (g.preorder.filter fun id => !decide (2 ≤ g.depth id)).Perm (root :: g.children root) := by
  have hroot : root ∉ g.children root := fun hmem => Nat.lt_irrefl _ (hg.lt_of_mem hmem).1
  refine (List.perm_ext_iff_of_nodup (hg.nodup_preorder.filter _)
    (List.nodup_cons.2 ⟨hroot, hg.nodup_children root⟩)).2 fun id => ?_
  rw [List.mem_filter, List.mem_cons]
  constructor
  · rintro ⟨hmem, hdepth⟩
    replace hdepth : g.depth id < 2 := by simpa using hdepth
    obtain ⟨level, hlevel⟩ : ∃ level, level = g.depth id := ⟨_, rfl⟩
    have hreached := hg.reachedAt_iff.2 ⟨hmem, hlevel.symm⟩
    cases hreached with
    | root => exact .inl rfl
    | @child level parent _ above mem =>
      cases above with
      | root => exact .inr mem
      | child above _ => omega
  · rintro (rfl | hmem)
    · exact ⟨(hg.of_reachedAt .root).1, by simp [hg.depth_of_root]⟩
    · have hreached := hg.of_reachedAt (.child .root hmem)
      exact ⟨hreached.1, by simp [hreached.2]⟩

theorem length_preorder : g.preorder.length =
    1 + (g.children root).length + g.preorder.countP fun id => decide (2 ≤ g.depth id) := by
  have hshallow := hg.shallow_perm.length_eq
  rw [← List.countP_eq_length_filter, List.length_cons] at hshallow
  rw [List.length_eq_countP_add_countP fun id => decide (2 ≤ g.depth id)]
  simp only [Bool.not_eq_true, Bool.decide_eq_false, hshallow]
  omega

theorem transitiveCount_stats :
    g.stats.transitiveCount = g.preorder.countP fun id => decide (2 ≤ g.depth id) := by
  have hlength := hg.length_preorder
  simp only [stats]
  omega

theorem nodeCount_stats :
    g.stats.nodeCount = 1 + g.stats.directCount + g.stats.transitiveCount := by
  rw [hg.transitiveCount_stats]
  exact hg.length_preorder

theorem maxDepth_stats : (∃ id ∈ g.preorder, g.depth id = g.stats.maxDepth) ∧
    ∀ id ∈ g.preorder, g.depth id ≤ g.stats.maxDepth := by
  have hmax : (0 :: g.preorder.map g.depth).max? = some g.stats.maxDepth := List.max?_cons'
  obtain ⟨hmem, hle⟩ := List.max?_eq_some_iff.1 hmax
  refine ⟨?_, fun id hid => hle _ (List.mem_cons_of_mem _ (List.mem_map_of_mem hid))⟩
  rcases List.mem_cons.1 hmem with hzero | hmem
  · exact ⟨root, (hg.of_reachedAt .root).1, hg.depth_of_root.trans hzero.symm⟩
  · exact List.mem_map.1 hmem

end WellLinked

/-! ## What is read off is what the links say -/

/-- The links of a graph describe a tree, and what is read off them agrees with it. -/
structure ShowsTree (g : Graph) : Prop where
  /-- Every stored id is in the arena, and a parent comes before its children. -/
  parent_root : (g.node root).parent = none
  exists_parent : ∀ id < g.size, id ≠ root → ∃ parent, (g.node id).parent = some parent
  parent_lt : ∀ id parent, (g.node id).parent = some parent → parent < id ∧ id < g.size
  child_lt : ∀ id, ∀ child ∈ g.children id, id < g.size ∧ child < g.size
  /-- No id is listed twice, and none is listed below another node than its parent. -/
  nodup_lists : (g.nodes.toList.flatMap (·.children)).Nodup
  parent_of_mem : ∀ id, ∀ child ∈ g.children id, (g.node child).parent = some id
  /-- A listing with a stack ends, with the nodes in the order of the recursion. -/
  listing : ∀ steps ≥ g.preorder.length, (Listing.next g)^[steps] ⟨[root], []⟩ = ⟨[], g.preorder⟩
  preorder_eq : g.preorder = g.branch root
  branch_eq : ∀ id < g.size, g.branch id = id :: (g.children id).flatMap g.branch
  nodup_preorder : g.preorder.Nodup
  /-- The branch of a node is a stretch of the listing: the reachable nodes at and below it. -/
  branch_infix : ∀ id ∈ g.preorder, g.branch id <:+: g.preorder
  mem_branch : ∀ id ∈ g.preorder, ∀ a,
    a ∈ g.branch id ↔ a ∈ g.preorder ∧ id ∈ a :: g.ancestors a
  /-- The depth by parents is the level of the recursion. -/
  ancestors_of_parent : ∀ id parent, (g.node id).parent = some parent →
    g.ancestors id = parent :: g.ancestors parent
  reachedAt : ∀ level id, g.ReachedAt level id ↔ id ∈ g.preorder ∧ g.depth id = level
  nodeCount : g.stats.nodeCount = g.preorder.length ∧
    g.stats.nodeCount = 1 + g.stats.directCount + g.stats.transitiveCount
  directCount : g.stats.directCount = (g.children root).length
  transitiveCount :
    g.stats.transitiveCount = g.preorder.countP fun id => decide (2 ≤ g.depth id)
  maxDepth : (∃ id ∈ g.preorder, g.depth id = g.stats.maxDepth) ∧
    ∀ id ∈ g.preorder, g.depth id ≤ g.stats.maxDepth

theorem WellLinked.showsTree {g : Graph} (hg : g.WellLinked) : g.ShowsTree where
  parent_root := hg.parent_root
  exists_parent id hid hroot := by
    obtain ⟨parent, -, hparent⟩ := hg.exists_parent hid hroot
    exact ⟨parent, hparent⟩
  parent_lt id parent h := hg.parent_lt h
  child_lt id child h := by
    obtain ⟨hlt, hsize⟩ := hg.lt_of_mem h
    exact ⟨Nat.lt_trans hlt hsize, hsize⟩
  nodup_lists := hg.nodup_lists
  parent_of_mem id child h := hg.parent_of_mem h
  listing steps h := hg.iterate_root h
  preorder_eq := g.preorder_eq_branch
  branch_eq id hid := hg.branch_eq hid
  nodup_preorder := hg.nodup_preorder
  branch_infix id hid := hg.branch_infix (hg.reachedAt_iff.2 ⟨hid, rfl⟩)
  mem_branch id hid a := hg.mem_branch_iff hid
  ancestors_of_parent id parent h := hg.ancestors_of_parent h
  reachedAt level id := hg.reachedAt_iff
  nodeCount := ⟨rfl, hg.nodeCount_stats⟩
  directCount := rfl
  transitiveCount := hg.transitiveCount_stats
  maxDepth := hg.maxDepth_stats

/-- **Whatever changes a graph goes through, it shows a tree**: adding nodes below existing ones,
cutting and thinning lists of children, pruning, management and mediation keep the links a tree, and
listing, depth and statistics are those of the tree. -/
theorem tree_of_changes (n : Node) {changes : List Change} (h : (ofRoot n).Admits changes) :
    ((ofRoot n).changed changes).ShowsTree :=
  ((wellLinked_ofRoot n).changed h).showsTree

/-- A node of the artifact `org:name:jar:1`. -/
def requested (name : String) : Node := { coordinate := some ⟨"org", name, "jar", "1", none⟩ }

/-- The project `app` asks for `web`, which asks for `mock` in the scope `test`, for `app` again and for
`log`. What stands below `mock` and below the repeated `app` goes when these are pruned and mediated;
later on `web` gets one more child and `log` loses its own. -/
def regrowth : List Change := [
  .addChild root (requested "web"), .addChild 1 { requested "mock" with scope := some .test },
  .addChild 1 { requested "app" with cycleOf := some root }, .addChild 1 (requested "log"),
  .addChild 2 (requested "util"), .addChild 3 (requested "util"), .addChild 4 (requested "util"),
  .pruneNestedTests, .manage (.ofList [("org:log:jar", { version := some "2" })]), .mediate,
  .addChild 1 (requested "text"), .retainChildren 1 [4, 8], .truncateChildren 4]

theorem tree_of_regrowth :
    (ofRoot (requested "app")).Admits regrowth ∧
      ((ofRoot (requested "app")).changed regrowth).preorder = [root, 1, 4, 8] ∧
      ((ofRoot (requested "app")).changed regrowth).ShowsTree := by
  have h : (ofRoot (requested "app")).Admits regrowth := by decide +kernel
  exact ⟨h, by decide +kernel, tree_of_changes (requested "app") h⟩

end Graph

end ArtifactTree
