import ArtifactTree.Proofs.Listing

/-!
# Trees that grow node by node

A graph that is a root and has then been given one child after another (`Graph.Grown`) is a whole tree:
besides being well linked, every node but the root is listed below its parent (`Graph.Whole`). Nothing
else is known of it. Children may be added anywhere and in any order, so the ids say little about
where a node stands, and a node's own data may be anything.

The breadth-first order of such a tree is therefore defined by its links alone (`Graph.Earlier`). No two
nodes are each earlier than the other, even where nodes were dropped
(`WellLinked.not_earlier_of_earlier`).
-/

namespace ArtifactTree

namespace Graph

/-- A root to which children were added, one at a time. -/
inductive Grown : Graph → Prop
  | ofRoot (n : Node) : Grown (.ofRoot n)
  | addChild {g : Graph} (grown : Grown g) {parent : Nat} (h : parent < g.size) (n : Node) :
    Grown (g.addChild parent n)

/-- The links describe a tree below the root, of which no node was dropped. -/
structure Whole (g : Graph) : Prop extends g.WellLinked where
  listed : ∀ {id parent}, (g.node id).parent = some parent → id ∈ g.children parent

theorem Grown.whole {g : Graph} (hg : g.Grown) : g.Whole := by
  induction hg with
  | ofRoot n =>
    refine ⟨wellLinked_ofRoot n, fun {id parent} h => ?_⟩
    obtain ⟨hlt, hid⟩ := (wellLinked_ofRoot n).parent_lt h
    rw [size_ofRoot] at hid
    omega
  | @addChild g grown parent hp n ih =>
    refine ⟨ih.toWellLinked.addChild n hp, fun {id other} h => ?_⟩
    obtain ⟨-, hid⟩ := (ih.toWellLinked.addChild n hp).parent_lt h
    rw [size_addChild] at hid
    rw [children_addChild n hp]
    rcases Nat.lt_or_eq_of_le (Nat.le_of_lt_succ hid) with hid | rfl
    · rw [parent_addChild_of_lt n hp hid] at h
      have hlisted := ih.listed h
      split
      next hother => exact List.mem_append_left _ (hother ▸ hlisted)
      next => exact hlisted
    · rw [node_addChild_size n hp] at h
      rw [if_pos (Option.some.inj h).symm]
      exact List.mem_append_right _ List.mem_cons_self

namespace WellLinked

variable {g : Graph} (hg : g.WellLinked)
include hg

theorem root_not_mem (parent : Nat) : root ∉ g.children parent := by
  intro h
  have hparent := hg.parent_of_mem h
  rw [hg.parent_root] at hparent
  cases hparent

/-- No node has two parents. -/
theorem eq_of_mem_children {id parent other : Nat} (h : id ∈ g.children parent)
    (h' : id ∈ g.children other) : parent = other := by
  have hparent := hg.parent_of_mem h
  rw [hg.parent_of_mem h', Option.some.injEq] at hparent
  exact hparent.symm

end WellLinked

namespace Whole

variable {g : Graph} (hg : g.Whole)
include hg

theorem exists_listing {id : Nat} (hid : id < g.size) (hroot : id ≠ root) :
    ∃ parent, id ∈ g.children parent := by
  obtain ⟨parent, -, hparent⟩ := hg.exists_parent hid hroot
  exact ⟨parent, hg.listed hparent⟩

theorem exists_reachedAt {id : Nat} (hid : id < g.size) : ∃ level, g.ReachedAt level id := by
  induction id using Nat.strongRecOn with
  | ind id ih =>
    by_cases hroot : id = root
    · exact ⟨0, hroot ▸ .root⟩
    · obtain ⟨parent, hmem⟩ := hg.exists_listing hid hroot
      have hlt := (hg.lt_of_mem hmem).1
      obtain ⟨level, hlevel⟩ := ih parent hlt (Nat.lt_trans hlt hid)
      exact ⟨level + 1, hlevel.child hmem⟩

end Whole

/-! ## Breadth-first order -/

/-- The first node comes before the second one in breadth-first order: it is less deep, or below an
earlier node of one level, or the earlier of two children. -/
inductive Earlier (g : Graph) : Nat → Nat → Prop
  | shallower {a b : Nat} (h : g.depth a < g.depth b) : Earlier g a b
  | cousin {a b p q : Nat} (h : Earlier g p q) (level : g.depth p = g.depth q)
    (ha : a ∈ g.children p) (hb : b ∈ g.children q) : Earlier g a b
  | sibling {a b p : Nat} (h : [a, b].Sublist (g.children p)) : Earlier g a b

theorem mem_of_pair {a b : Nat} {ids : List Nat} (h : [a, b].Sublist ids) : a ∈ ids ∧ b ∈ ids :=
  ⟨h.subset List.mem_cons_self, h.subset (List.mem_cons_of_mem _ List.mem_cons_self)⟩

/-- Two ids stand in one order only. -/
theorem not_pair_swap {a b : Nat} {ids : List Nat} (hids : ids.Nodup) (h : [a, b].Sublist ids) :
    ¬ [b, a].Sublist ids := by
  induction ids with
  | nil => cases h
  | cons first ids ih =>
    obtain ⟨hfirst, hids⟩ := List.nodup_cons.1 hids
    intro h'
    cases h with
    | cons _ h =>
      cases h' with
      | cons _ h' => exact ih hids h h'
      | cons_cons _ h' => exact hfirst (mem_of_pair h).2
    | cons_cons _ h =>
      cases h' with
      | cons _ h' => exact hfirst (mem_of_pair h').2
      | cons_cons _ h' => exact hfirst (List.singleton_sublist.1 h)

namespace WellLinked

variable {g : Graph} (hg : g.WellLinked)
include hg

theorem root_earlier {id child : Nat} (h : child ∈ g.children id) : g.Earlier root child := by
  refine .shallower ?_
  rw [hg.depth_of_root, hg.depth_of_mem h]
  exact Nat.succ_pos _

theorem depth_le_of_earlier {a b : Nat} (h : g.Earlier a b) : g.depth a ≤ g.depth b := by
  cases h with
  | shallower h => exact Nat.le_of_lt h
  | cousin _ level ha hb =>
    have hdepth : g.depth a = g.depth b := by rw [hg.depth_of_mem ha, hg.depth_of_mem hb, level]
    exact Nat.le_of_eq hdepth
  | sibling h =>
    obtain ⟨ha, hb⟩ := mem_of_pair h
    have hdepth : g.depth a = g.depth b := by rw [hg.depth_of_mem ha, hg.depth_of_mem hb]
    exact Nat.le_of_eq hdepth

/-- What is below an earlier node is earlier. -/
theorem earlier_cousin {a b p q : Nat} (h : g.Earlier p q) (ha : a ∈ g.children p)
    (hb : b ∈ g.children q) : g.Earlier a b := by
  rcases Nat.lt_or_eq_of_le (hg.depth_le_of_earlier h) with hlt | heq
  · refine .shallower ?_
    rw [hg.depth_of_mem ha, hg.depth_of_mem hb]
    exact Nat.succ_lt_succ hlt
  · exact .cousin h heq ha hb

theorem ne_of_earlier {a b : Nat} (h : g.Earlier a b) : a ≠ b := by
  induction h with
  | shallower h =>
    rintro rfl
    exact Nat.lt_irrefl _ h
  | cousin _ _ ha hb ih =>
    rintro rfl
    exact ih (hg.eq_of_mem_children ha hb)
  | sibling h =>
    rintro rfl
    have hnodup := (hg.nodup_children _).sublist h
    simp at hnodup

theorem not_earlier_of_earlier {a b : Nat} (h : g.Earlier a b) : ¬ g.Earlier b a := by
  induction h with
  | shallower h => exact fun h' => absurd (hg.depth_le_of_earlier h') (Nat.not_le_of_lt h)
  | @cousin a b p q h level ha hb ih =>
    intro h'
    cases h' with
    | shallower h' =>
      rw [hg.depth_of_mem ha, hg.depth_of_mem hb, level] at h'
      exact Nat.lt_irrefl _ h'
    | cousin h' _ hb' ha' =>
      rw [hg.eq_of_mem_children hb' hb, hg.eq_of_mem_children ha' ha] at h'
      exact ih h'
    | sibling h' =>
      obtain ⟨hb', ha'⟩ := mem_of_pair h'
      exact hg.ne_of_earlier h ((hg.eq_of_mem_children ha ha').trans (hg.eq_of_mem_children hb' hb))
  | @sibling a b p h =>
    obtain ⟨ha, hb⟩ := mem_of_pair h
    intro h'
    cases h' with
    | shallower h' =>
      rw [hg.depth_of_mem ha, hg.depth_of_mem hb] at h'
      exact Nat.lt_irrefl _ h'
    | cousin h' _ hb' ha' =>
      exact hg.ne_of_earlier h' ((hg.eq_of_mem_children hb' hb).trans (hg.eq_of_mem_children ha ha'))
    | sibling h' =>
      rw [hg.eq_of_mem_children (mem_of_pair h').1 hb] at h'
      exact not_pair_swap (hg.nodup_children p) h h'

end WellLinked

end Graph

end ArtifactTree
