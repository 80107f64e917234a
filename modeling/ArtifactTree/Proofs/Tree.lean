import ArtifactTree.Graph.Lemmas
import ArtifactTree.Proofs.Layout

/-!
# Arenas that hold a tree in depth-first order

`Graph.IsTree` says that the parents and the children of an arena describe one tree below the root,
numbered depth-first. The last of its fields is what breadth-first order needs of that numbering: of
two nodes on one level, the earlier one has its children before those of the other. A forest laid
out is such a tree (`isTree_toGraph`), and what changes neither parents nor children keeps it one
(`IsTree.congr`).

`Graph.Before` is the order in which a breadth-first walk meets the nodes: by depth, then by id.
-/

namespace ArtifactTree

namespace Graph

/-- The arena holds a tree below the root, numbered depth-first. -/
structure IsTree (g : Graph) : Prop where
  size_pos : 0 < g.size
  ancestors_root : g.ancestors root = []
  mem_children_iff : ∀ {id child}, child ∈ g.children id ↔ (g.node child).parent = some id
  lt_of_mem : ∀ {id child}, child ∈ g.children id → id < child ∧ child < g.size
  ancestors_child : ∀ {id child}, child ∈ g.children id → g.ancestors child = id :: g.ancestors id
  exists_parent : ∀ {id}, id < g.size → id ≠ root → ∃ parent, id ∈ g.children parent
  pairwise_children : ∀ id, (g.children id).Pairwise (· < ·)
  children_level : ∀ {id other child cousin}, id < other → g.depth id = g.depth other →
    child ∈ g.children id → cousin ∈ g.children other → child < cousin

/-- The order of a breadth-first walk: by depth, then by id. -/
def Before (g : Graph) (a b : Nat) : Prop :=
  g.depth a < g.depth b ∨ (g.depth a = g.depth b ∧ a < b)

theorem Before.irrefl {g : Graph} {a : Nat} : ¬ g.Before a a := by
  rintro (h | ⟨-, h⟩)
  · exact Nat.lt_irrefl _ h
  · exact Nat.lt_irrefl _ h

theorem Before.asymm {g : Graph} {a b : Nat} (h : g.Before a b) : ¬ g.Before b a := by
  rintro (h' | ⟨h', h''⟩) <;> rcases h with h | ⟨h, h'''⟩ <;> omega

theorem Before.ne {g : Graph} {a b : Nat} (h : g.Before a b) : a ≠ b := by
  rintro rfl
  exact h.irrefl

namespace IsTree

variable {g : Graph} (hg : g.IsTree)
include hg

theorem depth_root : g.depth root = 0 := by rw [depth, hg.ancestors_root, List.length_nil]

theorem depth_child {id child : Nat} (h : child ∈ g.children id) :
    g.depth child = g.depth id + 1 := by
  rw [depth, hg.ancestors_child h, List.length_cons, depth]

theorem root_not_mem (id : Nat) : root ∉ g.children id := by
  intro h
  exact Nat.not_lt_zero _ (hg.lt_of_mem h).1

/-- Depths are not larger than ids, so there are fewer levels than nodes. -/
theorem depth_le {id : Nat} (hid : id < g.size) : g.depth id ≤ id := by
  induction id using Nat.strongRecOn with
  | ind id ih =>
    by_cases hroot : id = root
    · rw [hroot, hg.depth_root]
      exact Nat.zero_le _
    · obtain ⟨parent, hparent⟩ := hg.exists_parent hid hroot
      have hlt := (hg.lt_of_mem hparent).1
      have := ih parent hlt (Nat.lt_trans hlt hid)
      rw [hg.depth_child hparent]
      omega

/-- The root comes before every node that has a parent. -/
theorem root_before {id child : Nat} (h : child ∈ g.children id) : g.Before root child := by
  left
  rw [hg.depth_root, hg.depth_child h]
  exact Nat.succ_pos _

theorem before_child {id child : Nat} (h : child ∈ g.children id) : g.Before id child := by
  left
  rw [hg.depth_child h]
  exact Nat.lt_succ_self _

/-- Children keep the order of their parents. -/
theorem before_cousin {id other child cousin : Nat} (h : g.Before id other)
    (hchild : child ∈ g.children id) (hcousin : cousin ∈ g.children other) :
    g.Before child cousin := by
  have hdepth := hg.depth_child hchild
  have hdepth' := hg.depth_child hcousin
  rcases h with h | ⟨h, hlt⟩
  · left
    omega
  · right
    exact ⟨by omega, hg.children_level hlt h hchild hcousin⟩

/-- Children of one node come in order. -/
theorem pairwise_before_children (id : Nat) : (g.children id).Pairwise g.Before := by
  refine (hg.pairwise_children id).imp_of_mem fun {a b} ha hb hlt => .inr ⟨?_, hlt⟩
  rw [hg.depth_child ha, hg.depth_child hb]

end IsTree

/-- Nodes outside the arena have nothing above them. -/
theorem lt_size_of_mem_ancestors {g : Graph} {id a : Nat} (ha : a ∈ g.ancestors id) :
    id < g.size := by
  by_contra hid
  have hparent : (g.node id).parent = none := by rw [node_of_size_le (Nat.le_of_not_lt hid)]
  unfold ancestors at ha
  cases hsize : g.size <;> simp [hsize, ancestorsWithin, hparent] at ha

/-! ## Graphs with the same parents and children -/

theorem ancestorsWithin_congr {g h : Graph} (hp : ∀ id, (g.node id).parent = (h.node id).parent)
    (limit id : Nat) : g.ancestorsWithin limit id = h.ancestorsWithin limit id := by
  induction limit generalizing id with
  | zero => rfl
  | succ limit ih => simp only [ancestorsWithin, hp, ih]

theorem ancestors_congr {g h : Graph} (hs : g.size = h.size)
    (hp : ∀ id, (g.node id).parent = (h.node id).parent) (id : Nat) :
    g.ancestors id = h.ancestors id := by
  rw [ancestors, ancestors, hs, ancestorsWithin_congr hp]

theorem preorderWithin_congr {g h : Graph} (hc : ∀ id, g.children id = h.children id)
    (limit id : Nat) : g.preorderWithin limit id = h.preorderWithin limit id := by
  induction limit generalizing id with
  | zero => rfl
  | succ limit ih =>
    rw [preorderWithin, preorderWithin, hc]
    exact congrArg (id :: ·) (List.flatMap_congr fun child _ => ih child)

theorem preorder_congr {g h : Graph} (hs : g.size = h.size)
    (hc : ∀ id, g.children id = h.children id) : g.preorder = h.preorder := by
  rw [preorder, preorder, hs, preorderWithin_congr hc]

theorem IsTree.congr {g h : Graph} (hg : g.IsTree) (hs : g.size = h.size)
    (hp : ∀ id, (g.node id).parent = (h.node id).parent)
    (hc : ∀ id, g.children id = h.children id) : h.IsTree where
  size_pos := hs ▸ hg.size_pos
  ancestors_root := by rw [← ancestors_congr hs hp, hg.ancestors_root]
  mem_children_iff {id child} := by rw [← hc, ← hp, hg.mem_children_iff]
  lt_of_mem {id child} hmem := by
    rw [← hs]
    exact hg.lt_of_mem (hc id ▸ hmem)
  ancestors_child {id child} hmem := by
    rw [← ancestors_congr hs hp, ← ancestors_congr hs hp]
    exact hg.ancestors_child (hc id ▸ hmem)
  exists_parent {id} hid hroot := by
    obtain ⟨parent, hmem⟩ := hg.exists_parent (hs ▸ hid) hroot
    exact ⟨parent, hc parent ▸ hmem⟩
  pairwise_children id := hc id ▸ hg.pairwise_children id
  children_level {id other child cousin} hlt hdepth hchild hcousin := by
    rw [depth, depth, ← ancestors_congr hs hp, ← ancestors_congr hs hp] at hdepth
    exact hg.children_level hlt hdepth (hc id ▸ hchild) (hc other ▸ hcousin)

end Graph

/-! ## A forest laid out is a tree -/

namespace Forest

open ArtifactTree.Graph

variable {forest : Forest} {project : Coordinate}

theorem one_le_length_ancestors {p : Place} (hp : p ∈ forest.placesBelow project) :
    1 ≤ p.ancestors.length := length_le_of_mem_places hp

/-- The children of a node are places, which have the node and its ancestors above them. -/
theorem exists_place_of_mem_children {id child : Nat}
    (h : child ∈ (forest.toGraph project).children id) :
    ∃ q ∈ forest.placesBelow project, q.id = child ∧
      q.ancestors = ((forest.toGraph project).ancestors id).reverse ++ [id] ∧ id < q.id := by
  by_cases hroot : id = root
  · subst hroot
    rw [children, node_toGraph_root] at h
    obtain ⟨q, hq, rfl, hancestors⟩ := exists_place_of_mem_ids [project] [root] h
    refine ⟨q, hq, rfl, ?_, (id_mem_placesBelow hq).1⟩
    rw [hancestors, ancestors_toGraph_root, List.reverse_nil, List.nil_append]
  · by_cases hid : id < (forest.toGraph project).size
    · obtain ⟨p, hp, rfl⟩ := exists_mem_placesBelow hid hroot
      rw [children_toGraph_of_mem_places hp] at h
      obtain ⟨q, hq, rfl, hancestors⟩ := exists_place_of_mem_ids p.innerPath p.innerAncestors h
      refine ⟨q, mem_places_of_mem_inner hp hq, rfl, ?_, (id_mem_places hq).1⟩
      rw [hancestors, ancestors_toGraph_of_mem_places hp, List.reverse_reverse, Place.innerAncestors]
    · rw [children, node_of_size_le (Nat.le_of_not_lt hid)] at h
      cases h

/-- A place is among the children of the last of its ancestors. -/
theorem mem_children_of_mem_places {q : Place} (hq : q ∈ forest.placesBelow project) :
    q.id ∈ (forest.toGraph project).children (q.ancestors.getLastD root) := by
  rcases exists_above_of_mem_places hq with ⟨hancestors, hid⟩ | ⟨p, hp, hancestors, hid⟩
  · rw [hancestors]
    change q.id ∈ (forest.toGraph project).children root
    rw [children, node_toGraph_root]
    exact hid
  · rw [hancestors, Place.innerAncestors, getLastD_snoc, children_toGraph_of_mem_places hp]
    exact hid

theorem parent_toGraph_of_mem_places {q : Place} (hq : q ∈ forest.placesBelow project) :
    ((forest.toGraph project).node q.id).parent = some (q.ancestors.getLastD root) := by
  rw [node_toGraph_of_mem_places hq, Place.node]

theorem mem_children_toGraph_iff {id child : Nat} :
    child ∈ (forest.toGraph project).children id ↔
      ((forest.toGraph project).node child).parent = some id := by
  constructor
  · intro h
    obtain ⟨q, hq, rfl, hancestors, -⟩ := exists_place_of_mem_children h
    rw [parent_toGraph_of_mem_places hq, hancestors, getLastD_snoc]
  · intro h
    by_cases hroot : child = root
    · rw [hroot, node_toGraph_root] at h
      cases h
    · by_cases hchild : child < (forest.toGraph project).size
      · obtain ⟨q, hq, rfl⟩ := exists_mem_placesBelow hchild hroot
        rw [parent_toGraph_of_mem_places hq, Option.some.injEq] at h
        exact h ▸ mem_children_of_mem_places hq
      · rw [node_of_size_le (Nat.le_of_not_lt hchild)] at h
        cases h

/-- Everything below a place comes before the next place on its level. -/
theorem children_level_toGraph {id other child cousin : Nat} (hlt : id < other)
    (hdepth : (forest.toGraph project).depth id = (forest.toGraph project).depth other)
    (hchild : child ∈ (forest.toGraph project).children id)
    (hcousin : cousin ∈ (forest.toGraph project).children other) : child < cousin := by
  obtain ⟨q, hq, rfl, -, hother⟩ := exists_place_of_mem_children hcousin
  have hother' : other < (forest.toGraph project).size :=
    Nat.lt_trans hother (id_mem_placesBelow hq).2
  obtain ⟨r, hr, rfl⟩ := exists_mem_placesBelow hother' (Nat.ne_of_gt (Nat.zero_lt_of_lt hlt))
  rw [depth_toGraph_of_mem_places hr] at hdepth
  have hr' := one_le_length_ancestors hr
  -- the root is alone on its level
  have hroot : id ≠ root := by
    rintro rfl
    rw [depth, ancestors_toGraph_root, List.length_nil] at hdepth
    omega
  obtain ⟨p, hp, rfl⟩ := exists_mem_placesBelow (Nat.lt_trans hlt hother') hroot
  rw [depth_toGraph_of_mem_places hp] at hdepth
  have hend := end_lt_of_mem_places hp hr hlt hdepth
  rw [children_toGraph_of_mem_places hp] at hchild
  obtain ⟨c, hc, rfl, -⟩ := exists_place_of_mem_ids p.innerPath p.innerAncestors hchild
  have := (id_mem_places hc).2
  omega

theorem isTree_toGraph (forest : Forest) (project : Coordinate) :
    (forest.toGraph project).IsTree where
  size_pos := by rw [size_toGraph]; exact Nat.succ_pos _
  ancestors_root := ancestors_toGraph_root forest project
  mem_children_iff := mem_children_toGraph_iff
  lt_of_mem {id child} h := by
    obtain ⟨q, hq, rfl, -, hlt⟩ := exists_place_of_mem_children h
    exact ⟨hlt, (id_mem_placesBelow hq).2⟩
  ancestors_child {id child} h := by
    obtain ⟨q, hq, rfl, hancestors, -⟩ := exists_place_of_mem_children h
    rw [ancestors_toGraph_of_mem_places hq, hancestors]
    simp
  exists_parent {id} hid hroot := by
    obtain ⟨q, hq, rfl⟩ := exists_mem_placesBelow hid hroot
    exact ⟨_, mem_children_of_mem_places hq⟩
  pairwise_children id := by
    by_cases hroot : id = root
    · rw [hroot, children, node_toGraph_root]
      exact pairwise_ids forest 1
    · by_cases hid : id < (forest.toGraph project).size
      · obtain ⟨p, hp, rfl⟩ := exists_mem_placesBelow hid hroot
        rw [children_toGraph_of_mem_places hp]
        exact pairwise_ids _ _
      · rw [children, node_of_size_le (Nat.le_of_not_lt hid)]
        exact .nil
  children_level := children_level_toGraph

end Forest

end ArtifactTree
