import ArtifactTree.Proofs.Frame
import Mathlib.Data.List.Nodup

/-!
# Arenas under change

A graph is put together node by node. Later on children are dropped from it: by a cut, by a condition,
by pruning, and by mediation where it breaks a cycle. All the while the links describe a tree
(`Graph.WellLinked`). A node that was dropped keeps its parent and is listed nowhere.

Two kinds of change are all there is. Adding a node appends it to the arena and to one list of
children. Every other operation keeps the parents and leaves each node some of its children, in order
(`Graph.Thins`); this is said of single steps and carried through the passes that repeat them.
-/

namespace ArtifactTree

namespace Graph

/-- The links describe a tree below the root, of which some nodes may have been dropped. -/
structure WellLinked (g : Graph) : Prop where
  size_pos : 0 < g.size
  parent_root : (g.node root).parent = none
  exists_parent : ∀ {id}, id < g.size → id ≠ root → ∃ parent < id, (g.node id).parent = some parent
  parent_of_mem : ∀ {id child}, child ∈ g.children id → (g.node child).parent = some id
  nodup_children : ∀ id, (g.children id).Nodup

namespace WellLinked

variable {g : Graph} (hg : g.WellLinked)
include hg

/-- A parent comes before the node, and both are in the arena. -/
theorem parent_lt {id parent : Nat} (h : (g.node id).parent = some parent) :
    parent < id ∧ id < g.size := by
  have hid : id < g.size := by
    by_contra hid
    rw [node_of_size_le (Nat.le_of_not_lt hid)] at h
    cases h
  have hroot : id ≠ root := by
    rintro rfl
    rw [hg.parent_root] at h
    cases h
  obtain ⟨stored, hlt, hstored⟩ := hg.exists_parent hid hroot
  rw [h, Option.some.injEq] at hstored
  exact ⟨hstored ▸ hlt, hid⟩

theorem lt_of_mem {id child : Nat} (h : child ∈ g.children id) : id < child ∧ child < g.size :=
  hg.parent_lt (hg.parent_of_mem h)

/-- Different nodes have different children. -/
theorem nodup_flatMap_children {ids : List Nat} (hids : ids.Nodup) :
    (ids.flatMap g.children).Nodup := by
  rw [List.nodup_flatMap]
  refine ⟨fun id _ => hg.nodup_children id, hids.imp ?_⟩
  intro id other hne child hchild hchild'
  have hparent := hg.parent_of_mem hchild
  rw [hg.parent_of_mem hchild', Option.some.injEq] at hparent
  exact hne hparent.symm

/-- No id is listed twice, neither in one list of children nor in two. -/
theorem nodup_lists : (g.nodes.toList.flatMap (·.children)).Nodup := by
  have hnodes : g.nodes.toList = (List.range g.size).map g.node := by
    apply List.ext_getElem
    · simp [size]
    · intro id hid _
      have hid : id < g.nodes.size := by simpa using hid
      simp [node_eq_getElem?, hid]
  rw [hnodes, List.flatMap_map]
  exact hg.nodup_flatMap_children List.nodup_range

end WellLinked

theorem IsTree.wellLinked {g : Graph} (hg : g.IsTree) : g.WellLinked where
  size_pos := hg.size_pos
  parent_root := by
    cases hparent : (g.node root).parent with
    | none => rfl
    | some parent => exact absurd (hg.mem_children_iff.2 hparent) (hg.root_not_mem parent)
  exists_parent {id} hid hroot := by
    obtain ⟨parent, hmem⟩ := hg.exists_parent hid hroot
    exact ⟨parent, (hg.lt_of_mem hmem).1, hg.mem_children_iff.1 hmem⟩
  parent_of_mem h := hg.mem_children_iff.1 h
  nodup_children id := (hg.pairwise_children id).imp Nat.ne_of_lt

/-! ## Adding a node -/

theorem wellLinked_ofRoot (n : Node) : (ofRoot n).WellLinked where
  size_pos := Nat.one_pos
  parent_root := by rw [node_ofRoot]
  exists_parent {id} hid hroot := by
    rw [size_ofRoot] at hid
    exact absurd (Nat.lt_one_iff.1 hid) hroot
  parent_of_mem {id child} h := by
    by_cases hroot : id = root
    · rw [hroot, children, node_ofRoot] at h
      cases h
    · have : id ≠ 0 := hroot
      rw [children, node_of_size_le (by rw [size_ofRoot]; omega)] at h
      cases h
  nodup_children id := by
    by_cases hroot : id = root
    · rw [hroot, children, node_ofRoot]
      exact .nil
    · have : id ≠ 0 := hroot
      rw [children, node_of_size_le (by rw [size_ofRoot]; omega)]
      exact .nil

section AddChild

variable {g : Graph} {parent : Nat} (n : Node)

/-- An old node keeps its parent. -/
theorem parent_addChild_of_lt {id : Nat} (hp : parent < g.size) (hid : id < g.size) :
    ((g.addChild parent n).node id).parent = (g.node id).parent := by
  by_cases hparent : id = parent
  · rw [hparent, node_addChild_parent n hp]
  · rw [node_addChild_of_ne n hid hparent]

/-- The new node is listed last below its parent, and nowhere else. -/
theorem children_addChild (hp : parent < g.size) (id : Nat) :
    (g.addChild parent n).children id =
      if id = parent then g.children parent ++ [g.size] else g.children id := by
  by_cases hparent : id = parent
  · rw [if_pos hparent, hparent, children, node_addChild_parent n hp]
  · rw [if_neg hparent]
    rcases Nat.lt_trichotomy id g.size with hid | hid | hid
    · rw [children, node_addChild_of_ne n hid hparent, children]
    · rw [hid, children, node_addChild_size n hp, children, node_of_size_le (Nat.le_refl _)]
    · rw [children, node_of_size_le (by rw [size_addChild]; exact hid), children,
        node_of_size_le (Nat.le_of_lt hid)]

theorem WellLinked.addChild (hg : g.WellLinked) (hp : parent < g.size) :
    (g.addChild parent n).WellLinked where
  size_pos := by rw [size_addChild]; exact Nat.succ_pos _
  parent_root := by
    have hroot : root < g.size := hg.size_pos
    rw [parent_addChild_of_lt n hp hroot, hg.parent_root]
  exists_parent {id} hid hroot := by
    rw [size_addChild] at hid
    rcases Nat.lt_or_eq_of_le (Nat.le_of_lt_succ hid) with hid | rfl
    · rw [parent_addChild_of_lt n hp hid]
      exact hg.exists_parent hid hroot
    · exact ⟨parent, hp, by rw [node_addChild_size n hp]⟩
  parent_of_mem {id child} h := by
    rw [children_addChild n hp] at h
    have hold : ∀ {id}, child ∈ g.children id →
        ((g.addChild parent n).node child).parent = some id := by
      intro id h
      rw [parent_addChild_of_lt n hp (hg.lt_of_mem h).2]
      exact hg.parent_of_mem h
    split at h
    next hparent =>
      rw [hparent]
      rcases List.mem_append.1 h with h | h
      · exact hold h
      · rw [List.mem_singleton.1 h, node_addChild_size n hp]
    next => exact hold h
  nodup_children id := by
    rw [children_addChild n hp]
    split
    · refine List.Nodup.append (hg.nodup_children parent) (List.nodup_singleton _) ?_
      intro child hchild hsize
      rw [List.mem_singleton.1 hsize] at hchild
      exact Nat.lt_irrefl _ (hg.lt_of_mem hchild).2
    · exact hg.nodup_children id

end AddChild

/-! ## Dropping children -/

/-- The second graph has the nodes of the first with the same parents, and below each of them some of
its children, in order. -/
structure Thins (g h : Graph) : Prop where
  size : h.size = g.size
  parent : ∀ id, (h.node id).parent = (g.node id).parent
  children : ∀ id, (h.children id).Sublist (g.children id)

theorem WellLinked.thins {g h : Graph} (hg : g.WellLinked) (hgh : g.Thins h) : h.WellLinked where
  size_pos := hgh.size ▸ hg.size_pos
  parent_root := by rw [hgh.parent, hg.parent_root]
  exists_parent {id} hid hroot := by
    rw [hgh.parent]
    exact hg.exists_parent (hgh.size ▸ hid) hroot
  parent_of_mem {id child} hchild := by
    rw [hgh.parent]
    exact hg.parent_of_mem ((hgh.children id).subset hchild)
  nodup_children id := (hg.nodup_children id).sublist (hgh.children id)

namespace Thins

variable {g h : Graph}

theorem refl (g : Graph) : g.Thins g := ⟨rfl, fun _ => rfl, fun _ => .refl _⟩

theorem trans {k : Graph} (hgh : g.Thins h) (hhk : h.Thins k) : g.Thins k where
  size := hhk.size.trans hgh.size
  parent id := (hhk.parent id).trans (hgh.parent id)
  children id := (hhk.children id).trans (hgh.children id)

/-- A change of one node that keeps its parent and drops some of its children. -/
theorem modify {id : Nat} {f : Node → Node} (hparent : (f (g.node id)).parent = (g.node id).parent)
    (hchildren : (f (g.node id)).children.Sublist (g.children id)) : g.Thins (g.modify id f) := by
  by_cases hid : id < g.size
  · refine ⟨size_modify g id f, fun other => ?_, fun other => ?_⟩
    · by_cases hother : other = id
      · rw [hother, node_modify_self f hid, hparent]
      · rw [node_modify_of_ne f hother]
    · rw [Graph.children]
      by_cases hother : other = id
      · rw [hother, node_modify_self f hid]
        exact hchildren
      · rw [node_modify_of_ne f hother]
        exact .refl _
  · rw [modify_of_size_le f (Nat.le_of_not_lt hid)]
    exact .refl g

/-- What every step thins, a pass of such steps thins. -/
theorem foldl {α β : Type} (graph : α → Graph) {step : α → β → α}
    (hstep : ∀ s b, (graph s).Thins (graph (step s b))) (bs : List β) (s : α) :
    (graph s).Thins (graph (bs.foldl step s)) := by
  induction bs generalizing s with
  | nil => exact .refl _
  | cons b bs ih => exact (hstep s b).trans (ih (step s b))

theorem truncateChildren (g : Graph) (id : Nat) : g.Thins (g.truncateChildren id) :=
  .modify rfl (List.nil_sublist _)

theorem keepChildren {g : Graph} {id : Nat} {kept : List Nat} (h : kept.Sublist (g.children id)) :
    g.Thins (g.keepChildren id kept) :=
  .modify rfl h

theorem retainChildren (g : Graph) (id : Nat) (keep : Node → Bool) :
    g.Thins (g.retainChildren id keep) :=
  keepChildren List.filter_sublist

theorem setStatus (g : Graph) (id : Nat) (status : Status) : g.Thins (g.setStatus id status) :=
  .modify rfl (.refl _)

theorem pruneNestedTests (g : Graph) : g.Thins g.pruneNestedTests.1 :=
  foldl Prod.fst (fun state id => retainChildren state.1 id mayNest) _ (g, 0)

theorem manageAt (t : Management) (state : Graph × Nat) (id : Nat) :
    state.1.Thins (Graph.manageAt t state id).1 := by
  rw [Graph.manageAt]
  cases t.override? (state.1.node id) with
  | none => exact .refl _
  | some o => exact .modify rfl (.refl _)

theorem manage (g : Graph) (t : Management) : g.Thins (g.manage t).1 :=
  foldl Prod.fst (manageAt t) _ (g, 0)

theorem clearStatuses (g : Graph) : g.Thins g.clearStatuses where
  size := size_clearStatuses g
  parent id := by rw [node_clearStatuses, Node.unjudged]
  children id := by
    rw [Graph.children, node_clearStatuses]
    exact .refl _

/-! ### Mediation -/

section Mediation

open Mediation

theorem meet (s : State) (child : Nat) : s.graph.Thins (s.meet child).graph := by
  rw [State.meet]
  split
  · exact (truncateChildren s.graph child).trans (setStatus _ child _)
  · split
    · exact .refl _
    · exact .refl _

theorem includeNode (s : State) (id : Nat) : s.graph.Thins (s.include id).graph := by
  refine (setStatus s.graph id .included).trans ?_
  exact foldl State.graph meet _ { s with winners := _, graph := s.graph.setStatus id .included }

theorem judge (s : State) (id : Nat) : s.graph.Thins (s.judge id).graph := by
  rw [State.judge]
  split
  · exact setStatus s.graph id _
  · exact includeNode s id

theorem run (limit : Nat) (s : State) : s.graph.Thins (s.run limit).graph := by
  induction limit generalizing s with
  | zero => exact .refl _
  | succ limit ih =>
    rw [State.run]
    split
    · exact .refl _
    next id queue _ => exact (judge { s with queue } id).trans (ih _)

theorem mediate (g : Graph) : g.Thins g.mediate :=
  (clearStatuses g).trans
    (run g.size { graph := g.clearStatuses, met := [root], queue := [root] })

end Mediation

end Thins

/-! ## Graphs that are put together -/

/-- A change that a graph may go through. -/
inductive Change where
  | addChild (parent : Nat) (node : Node)
  | truncateChildren (id : Nat)
  /-- Keeps some of the children. A condition may remember the children before, so these may be any. -/
  | retainChildren (id : Nat) (kept : List Nat)
  | pruneNestedTests
  | manage (t : Management)
  | mediate

namespace Change

def apply (g : Graph) : Change → Graph
  | addChild parent node => g.addChild parent node
  | truncateChildren id => g.truncateChildren id
  | retainChildren id kept => g.keepChildren id kept
  | pruneNestedTests => g.pruneNestedTests.1
  | manage t => (g.manage t).1
  | mediate => g.mediate

/-- A node is added below an existing one, and what is kept was there, in this order. -/
def Admissible (g : Graph) : Change → Prop
  | addChild parent _ => parent < g.size
  | retainChildren id kept => kept.Sublist (g.children id)
  | _ => True

instance (g : Graph) : (c : Change) → Decidable (c.Admissible g)
  | addChild parent _ => inferInstanceAs (Decidable (parent < g.size))
  | retainChildren id kept => inferInstanceAs (Decidable (kept.Sublist (g.children id)))
  | truncateChildren _ | pruneNestedTests | manage _ | mediate => inferInstanceAs (Decidable True)

end Change

/-- The graph after one change after the other. -/
def changed (g : Graph) (changes : List Change) : Graph := changes.foldl Change.apply g

/-- Each change is admissible where it is made. -/
def Admits (g : Graph) : List Change → Prop
  | [] => True
  | c :: changes => c.Admissible g ∧ (c.apply g).Admits changes

instance Admits.decidable (g : Graph) : (changes : List Change) → Decidable (g.Admits changes)
  | [] => inferInstanceAs (Decidable True)
  | c :: changes =>
    have := decidable (c.apply g) changes
    inferInstanceAs (Decidable (c.Admissible g ∧ (c.apply g).Admits changes))

theorem WellLinked.change {g : Graph} (hg : g.WellLinked) {c : Change} (hc : c.Admissible g) :
    (c.apply g).WellLinked := by
  cases c with
  | addChild parent node => exact hg.addChild node hc
  | truncateChildren id => exact hg.thins (.truncateChildren g id)
  | retainChildren id kept => exact hg.thins (.keepChildren hc)
  | pruneNestedTests => exact hg.thins (.pruneNestedTests g)
  | manage t => exact hg.thins (.manage g t)
  | mediate => exact hg.thins (.mediate g)

/-- No change breaks the links. -/
theorem WellLinked.changed {g : Graph} (hg : g.WellLinked) {changes : List Change}
    (h : g.Admits changes) : (g.changed changes).WellLinked := by
  induction changes generalizing g with
  | nil => exact hg
  | cons c changes ih => exact ih (hg.change h.1) h.2

end Graph

end ArtifactTree
