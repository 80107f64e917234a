import ArtifactTree.Proofs.Rendering.Shown

/-!
# Once around the rendered tree

A walk hands its lineage down from visit to visit, and bounds its recursion by the size of the arena. In
a tree neither matters: the visit that a node gets is read off its links (`Graph.visitOf`), and the
events at and below a node are the node, the edge to it, the events of the children that are shown, and
the leave (`WellLinked.tour_eq`). So facts about events follow by induction on what is below a node.

Main statement: `walksTree_of_wellLinked`.
-/

namespace ArtifactTree

namespace Graph

/-! ## The visit of a node -/

/-- The children below which the walk goes on. -/
def shownBelow (g : Graph) (id : Nat) : List Nat := if g.entered id then g.renderedChildren id else []

/-- Whether no sibling that may be shown comes after the node. -/
def isLastShown (g : Graph) (id : Nat) : Bool :=
  (g.node id).parent.all fun parent => (g.renderedChildren parent).getLast? == some id

/-- The lineage of a node, by its parents. -/
def lineage (g : Graph) (id : Nat) : List Bool :=
  ((id :: g.ancestors id).dropLast.map g.isLastShown).reverse

/-- The visit that a walk pays to a node. -/
def visitOf (g : Graph) (id : Nat) : Visit := ⟨id, (g.node id).parent, g.lineage id⟩

/-- The events of a walk through a node and all below it. -/
def tour (g : Graph) (id : Nat) : List Event := g.walkWithin g.size (g.visitOf id)

/-- Among items that do not repeat, the last one is known by itself. -/
theorem withLast_of_nodup {items : List Nat} (h : items.Nodup) :
    withLast items = items.map fun item => (item, items.getLast? == some item) := by
  fun_induction withLast items with
  | case1 => rfl
  | case2 item => simp
  | case3 item next rest ih =>
    obtain ⟨hitem, hrest⟩ := List.nodup_cons.1 h
    have hlast : (next :: rest).getLast? ≠ some item := fun hlast =>
      hitem (List.mem_of_getLast? hlast)
    rw [ih hrest, List.map_cons (l := next :: rest)]
    simp only [List.getLast?_cons_cons, beq_eq_false_iff_ne.2 hlast]

theorem shownBelow_eq_filter (g : Graph) (id : Nat) :
    g.shownBelow id = (g.children id).filter fun child => g.entered id && g.shows id child := by
  by_cases hentered : g.entered id <;> simp [shownBelow, hentered, renderedChildren]

theorem mem_shownBelow {g : Graph} {id child : Nat} :
    child ∈ g.shownBelow id ↔ g.entered id = true ∧ child ∈ g.renderedChildren id := by
  by_cases hentered : g.entered id <;> simp [shownBelow, hentered]

theorem mem_children_of_mem_shownBelow {g : Graph} {id child : Nat} (h : child ∈ g.shownBelow id) :
    child ∈ g.children id := (List.mem_filter.1 (mem_shownBelow.1 h).2).1

namespace WellLinked

variable {g : Graph} (hg : g.WellLinked)
include hg

theorem visitOf_root : g.visitOf root = ⟨root, none, []⟩ := by
  rw [visitOf, hg.parent_root, lineage, hg.ancestors_of_root]
  rfl

theorem isLastShown_of_mem {id child : Nat} (h : child ∈ g.children id) :
    g.isLastShown child = ((g.renderedChildren id).getLast? == some child) := by
  rw [isLastShown, hg.parent_of_mem h]
  rfl

theorem lineage_of_parent {id parent : Nat} (h : (g.node id).parent = some parent) :
    g.lineage id = g.lineage parent ++ [g.isLastShown id] := by
  rw [lineage, hg.ancestors_of_parent h, List.dropLast_cons_cons, List.map_cons, List.reverse_cons,
    lineage]

theorem visitOf_of_mem {id child : Nat} (h : child ∈ g.children id) :
    g.visitOf child = ⟨child, some id, g.lineage id ++ [g.isLastShown child]⟩ := by
  rw [visitOf, hg.lineage_of_parent (hg.parent_of_mem h), hg.parent_of_mem h]

theorem visitsBelow_visitOf (id : Nat) :
    g.visitsBelow (g.visitOf id) = (g.shownBelow id).map g.visitOf := by
  have hnodup : (g.renderedChildren id).Nodup := (hg.nodup_children id).filter _
  rw [visitsBelow, shownBelow, show (g.visitOf id).id = id from rfl, withLast_of_nodup hnodup,
    List.map_map]
  split
  · refine List.map_congr_left fun child hchild => ?_
    have hmem := (List.mem_filter.1 hchild).1
    rw [hg.visitOf_of_mem hmem, hg.isLastShown_of_mem hmem]
    rfl
  · rfl

theorem walkWithin_of_le {limit limit' id : Nat} (hid : id < g.size) (h : g.size ≤ id + limit)
    (h' : g.size ≤ id + limit') :
    g.walkWithin limit (g.visitOf id) = g.walkWithin limit' (g.visitOf id) := by
  induction limit generalizing limit' id with
  | zero => omega
  | succ limit ih =>
    obtain ⟨limit', rfl⟩ : ∃ k, limit' = k + 1 := ⟨limit' - 1, by omega⟩
    rw [walkWithin_succ, walkWithin_succ, hg.visitsBelow_visitOf, List.flatMap_map, List.flatMap_map]
    have hbelow : (g.shownBelow id).flatMap (fun child => g.walkWithin limit (g.visitOf child)) =
        (g.shownBelow id).flatMap fun child => g.walkWithin limit' (g.visitOf child) := by
      refine List.flatMap_congr fun child hchild => ?_
      obtain ⟨hlt, hsize⟩ := hg.lt_of_mem (mem_children_of_mem_shownBelow hchild)
      exact ih hsize (by omega) (by omega)
    rw [hbelow]

/-- The events of a tour: the node is reached, all tours below follow, and the node is left. -/
theorem tour_eq {id : Nat} (hid : id < g.size) :
    g.tour id = .node (g.visitOf id) :: ((g.node id).parent.map (Event.edge · id)).toList ++
      (g.shownBelow id).flatMap g.tour ++ [.leave id] := by
  obtain ⟨limit, hlimit⟩ : ∃ k, g.size = k + 1 := ⟨g.size - 1, by omega⟩
  have hbelow : (g.shownBelow id).flatMap (fun child => g.walkWithin limit (g.visitOf child)) =
      (g.shownBelow id).flatMap g.tour := by
    refine List.flatMap_congr fun child hchild => ?_
    obtain ⟨hlt, hsize⟩ := hg.lt_of_mem (mem_children_of_mem_shownBelow hchild)
    exact hg.walkWithin_of_le hsize (by omega) (by omega)
  rw [tour, hlimit, walkWithin_succ, hg.visitsBelow_visitOf, List.flatMap_map, hbelow]
  rfl

theorem walk_eq_tour : g.walk = g.tour root := by rw [walk, tour, hg.visitOf_root]

end WellLinked

/-! ## Which nodes are reached -/

/-- All that is above the node has a coordinate and is not omitted, and neither the node nor anything
above it is left out. -/
def Unobstructed (g : Graph) (id : Nat) : Prop :=
  (∀ a ∈ g.ancestors id, (g.node a).coordinate.isSome ∧ ¬ (g.node a).isOmitted) ∧
    ∀ a ∈ id :: g.ancestors id, ¬ g.LeftOut a

instance (g : Graph) (id : Nat) : Decidable (g.LeftOut id) :=
  inferInstanceAs (Decidable (2 ≤ g.depth id ∧ (g.node id).effectiveScope = some .test))

instance (g : Graph) (id : Nat) : Decidable (g.Unobstructed id) :=
  inferInstanceAs (Decidable
    ((∀ a ∈ g.ancestors id, (g.node a).coordinate.isSome ∧ ¬ (g.node a).isOmitted) ∧
      ∀ a ∈ id :: g.ancestors id, ¬ g.LeftOut a))

theorem entered_iff {g : Graph} {id : Nat} :
    g.entered id = true ↔ (g.node id).coordinate.isSome ∧ ¬ (g.node id).isOmitted := by
  simp [entered]

theorem shownBy_flatMap {α : Type} (f : α → List Event) (items : List α) :
    shownBy (items.flatMap f) = items.flatMap fun item => shownBy (f item) := List.filterMap_flatMap

/-- The nodes that the events leave, in order. -/
def leftBy (events : List Event) : List Nat :=
  events.filterMap fun
    | .leave id => some id
    | _ => none

theorem leftBy_flatMap {α : Type} (f : α → List Event) (items : List α) :
    leftBy (items.flatMap f) = items.flatMap fun item => leftBy (f item) := List.filterMap_flatMap

namespace WellLinked

variable {g : Graph} (hg : g.WellLinked)
include hg

theorem shownBy_tour_eq {id : Nat} (hid : id < g.size) :
    shownBy (g.tour id) = id :: (g.shownBelow id).flatMap fun child => shownBy (g.tour child) := by
  rw [hg.tour_eq hid, ← shownBy_flatMap]
  cases (g.node id).parent <;> simp [shownBy, shownId?, visitOf, List.filterMap_cons]

theorem leftBy_tour_eq {id : Nat} (hid : id < g.size) :
    leftBy (g.tour id) = ((g.shownBelow id).flatMap fun child => leftBy (g.tour child)) ++ [id] := by
  rw [hg.tour_eq hid, ← leftBy_flatMap]
  cases (g.node id).parent <;> simp [leftBy]

theorem unobstructed_root : g.Unobstructed root := by
  have hroot : ¬ g.LeftOut root := fun hleft => by
    rw [LeftOut, hg.depth_of_root] at hleft
    exact absurd hleft.1 (by decide)
  rw [Unobstructed, hg.ancestors_of_root]
  exact ⟨List.forall_mem_nil _, List.forall_mem_singleton.2 hroot⟩

/-- The way to a child is free if that to its parent is and the walk goes on to the child. -/
theorem unobstructed_child {id child : Nat} (h : child ∈ g.children id) :
    g.Unobstructed child ↔ g.Unobstructed id ∧ child ∈ g.shownBelow id := by
  rw [mem_shownBelow, renderedChildren, List.mem_filter, hg.shows_iff h, entered_iff, Unobstructed,
    Unobstructed, hg.ancestors_of_parent (hg.parent_of_mem h), List.forall_mem_cons,
    List.forall_mem_cons]
  tauto

/-- What is in the branch of an obstructed node is obstructed. -/
theorem not_unobstructed_of_mem_branch {id a : Nat} (hid : id < g.size) (h : ¬ g.Unobstructed id)
    (ha : a ∈ g.branch id) : ¬ g.Unobstructed a := by
  induction id, hid using hg.below_induction with
  | node id hid ih =>
    rw [hg.branch_eq hid] at ha
    rcases List.mem_cons.1 ha with rfl | ha
    · exact h
    · obtain ⟨child, hchild, ha⟩ := List.mem_flatMap.1 ha
      exact ih child hchild (fun hfree => h ((hg.unobstructed_child hchild).1 hfree).1) ha

/-- A tour from an unobstructed node shows the unobstructed nodes of the branch. -/
theorem shownBy_tour {id : Nat} (hid : id < g.size) : g.Unobstructed id →
    shownBy (g.tour id) = (g.branch id).filter fun a => g.Unobstructed a := by
  induction id, hid using hg.below_induction with
  | node id hid ih =>
    intro h
    rw [hg.shownBy_tour_eq hid, hg.branch_eq hid, List.filter_cons_of_pos (by simpa using h),
      List.filter_flatMap]
    have hchild_iff : ∀ child ∈ g.children id,
        g.Unobstructed child ↔ (g.entered id && g.shows id child) = true := by
      intro child hchild
      rw [hg.unobstructed_child hchild, shownBelow_eq_filter, List.mem_filter]
      exact ⟨fun hfree => hfree.2.2, fun hshown => ⟨h, hchild, hshown⟩⟩
    rw [shownBelow_eq_filter]
    refine congrArg (id :: ·) (flatMap_filter_eq (fun child hchild hshown => ?_)
      fun child hchild hhidden => ?_)
    · exact ih child hchild ((hchild_iff child hchild).2 hshown)
    · refine List.filter_eq_nil_iff.2 fun a ha => ?_
      have hobstructed := mt (hchild_iff child hchild).1 hhidden
      simpa using hg.not_unobstructed_of_mem_branch (hg.lt_of_mem hchild).2 hobstructed ha

/-- Every visit is the one that the links of the node tell. -/
theorem eq_visitOf_of_mem_tour {id : Nat} (hid : id < g.size) {visit : Visit} :
    .node visit ∈ g.tour id → visit = g.visitOf visit.id := by
  induction id, hid using hg.below_induction with
  | node id hid ih =>
    intro h
    rw [hg.tour_eq hid] at h
    simp only [List.mem_append, List.mem_cons, Event.node.injEq, Option.mem_toList,
      Option.map_eq_some_iff, reduceCtorEq, and_false, exists_false, or_false, List.not_mem_nil,
      List.mem_flatMap] at h
    rcases h with rfl | ⟨child, hchild, h⟩
    · rfl
    · exact ih child (mem_children_of_mem_shownBelow hchild) h

end WellLinked

/-! ## How nodes are left -/

/-- Reading the events while the given nodes are open, the innermost one first, leaves every node that is
open. A node is open from the event that reaches it to the one that leaves it, and all but the root are
reached from the innermost open node, their parent, with the edge right after them. -/
inductive Nests (g : Graph) : List Nat → List Event → Prop
  | done : Nests g [] []
  | root {visit : Visit} {events : List Event} (parent : (g.node visit.id).parent = none)
    (rest : Nests g [visit.id] events) : Nests g [] (.node visit :: events)
  | child {visit : Visit} {parent : Nat} {opened : List Nat} {events : List Event}
    (parent_eq : (g.node visit.id).parent = some parent)
    (rest : Nests g (visit.id :: parent :: opened) events) :
    Nests g (parent :: opened) (.node visit :: .edge parent visit.id :: events)
  | leave {id : Nat} {opened : List Nat} {events : List Event} (rest : Nests g opened events) :
    Nests g (id :: opened) (.leave id :: events)

theorem Nests.flatMap {g : Graph} {opened ids : List Nat} {f : Nat → List Event}
    (h : ∀ id ∈ ids, ∀ rest, g.Nests opened rest → g.Nests opened (f id ++ rest))
    {rest : List Event} (hrest : g.Nests opened rest) : g.Nests opened (ids.flatMap f ++ rest) := by
  induction ids with
  | nil => exact hrest
  | cons id ids ih =>
    obtain ⟨hid, hids⟩ := List.forall_mem_cons.1 h
    rw [List.flatMap_cons, List.append_assoc]
    exact hid _ (ih hids)

namespace WellLinked

variable {g : Graph} (hg : g.WellLinked)
include hg

/-- A tour starts with the ancestors open, and leaves them open. -/
theorem nests_tour {id : Nat} (hid : id < g.size) : ∀ rest, g.Nests (g.ancestors id) rest →
    g.Nests (g.ancestors id) (g.tour id ++ rest) := by
  induction id, hid using hg.below_induction with
  | node id hid ih =>
    intro rest hrest
    have hbelow : g.Nests (id :: g.ancestors id)
        ((g.shownBelow id).flatMap g.tour ++ .leave id :: rest) := by
      refine Nests.flatMap (fun child hchild => ?_) (.leave hrest)
      have hmem := mem_children_of_mem_shownBelow hchild
      have hchain := hg.ancestors_of_parent (hg.parent_of_mem hmem)
      exact hchain ▸ ih child hmem
    rw [hg.tour_eq hid]
    by_cases hroot : id = root
    · subst hroot
      rw [hg.ancestors_of_root] at hbelow ⊢
      have hreached : g.Nests [] (.node (g.visitOf root) ::
          ((g.shownBelow root).flatMap g.tour ++ .leave root :: rest)) := .root hg.parent_root hbelow
      simpa [hg.parent_root] using hreached
    · obtain ⟨parent, -, hparent⟩ := hg.exists_parent hid hroot
      rw [hg.ancestors_of_parent hparent] at hbelow ⊢
      have hreached : g.Nests (parent :: g.ancestors parent) (.node (g.visitOf id) ::
          .edge parent id :: ((g.shownBelow id).flatMap g.tour ++ .leave id :: rest)) :=
        .child hparent hbelow
      simpa [hparent] using hreached

theorem leftBy_tour_perm {id : Nat} (hid : id < g.size) :
    (leftBy (g.tour id)).Perm (shownBy (g.tour id)) := by
  induction id, hid using hg.below_induction with
  | node id hid ih =>
    have hbelow : ((g.shownBelow id).flatMap fun child => leftBy (g.tour child)).Perm
        ((g.shownBelow id).flatMap fun child => shownBy (g.tour child)) :=
      List.Perm.flatMap_left _ fun child hchild => ih child (mem_children_of_mem_shownBelow hchild)
    rw [hg.leftBy_tour_eq hid, hg.shownBy_tour_eq hid]
    exact (List.perm_append_singleton id _).trans (hbelow.cons id)

theorem mem_branch_of_mem_leftBy {id a : Nat} (hid : id < g.size) :
    a ∈ leftBy (g.tour id) → a ∈ g.branch id := by
  induction id, hid using hg.below_induction with
  | node id hid ih =>
    intro ha
    rw [hg.leftBy_tour_eq hid] at ha
    rw [hg.branch_eq hid]
    rcases List.mem_append.1 ha with ha | ha
    · obtain ⟨child, hchild, ha⟩ := List.mem_flatMap.1 ha
      have hmem := mem_children_of_mem_shownBelow hchild
      exact List.mem_cons_of_mem _ (List.mem_flatMap.2 ⟨child, hmem, ih child hmem ha⟩)
    · rw [List.mem_singleton.1 ha]
      exact List.mem_cons_self

/-- No node is left before a node below it. -/
theorem pairwise_leftBy_tour {id : Nat} (hid : id < g.size) :
    (leftBy (g.tour id)).Pairwise fun a later => a ∉ g.ancestors later := by
  induction id, hid using hg.below_induction with
  | node id hid ih =>
    have hsub : (g.shownBelow id).Sublist (g.children id) := by
      rw [shownBelow_eq_filter]
      exact List.filter_sublist
    have hbranch : ∀ child ∈ g.children id, ∀ a ∈ leftBy (g.tour child),
        a < g.size ∧ child ∈ a :: g.ancestors a := by
      intro child hchild a ha
      have hsize := (hg.lt_of_mem hchild).2
      exact hg.of_mem_branch hsize a (hg.mem_branch_of_mem_leftBy hsize ha)
    rw [hg.leftBy_tour_eq hid, List.pairwise_append, List.pairwise_flatMap]
    refine ⟨⟨fun child hchild => ih child (hsub.subset hchild), ?_⟩, List.pairwise_singleton _ _, ?_⟩
    · -- Two children are not on one chain, so nothing below the one is above anything below the other.
      refine ((hg.nodup_children id).sublist hsub).imp_of_mem ?_
      intro child other hchild hother hne a ha later hlater habove
      have hchild := hsub.subset hchild
      have hother := hsub.subset hother
      obtain ⟨-, hchain⟩ := hbranch child hchild a ha
      obtain ⟨hsize, hchain'⟩ := hbranch other hother later hlater
      have hdepth : g.depth child = g.depth other := by
        rw [hg.depth_of_mem hchild, hg.depth_of_mem hother]
      refine hne (hg.eq_of_mem_chain hsize (List.mem_cons_of_mem _ ?_) hchain' hdepth)
      rcases List.mem_cons.1 hchain with rfl | hchain
      · exact habove
      · exact hg.mem_ancestors_trans hchain habove hsize
    · intro a ha last hlast habove
      rw [List.mem_singleton.1 hlast] at habove
      obtain ⟨child, hchild, ha⟩ := List.mem_flatMap.1 ha
      have hmem := hsub.subset hchild
      have hsize := (hg.lt_of_mem hmem).2
      have hle := hg.depth_le_of_mem_branch hsize (hg.mem_branch_of_mem_leftBy hsize ha)
      have hlt := hg.depth_lt_of_mem_ancestors hid habove
      rw [hg.depth_of_mem hmem] at hle
      omega

end WellLinked

/-! ## What a lineage says -/

/-- The node is the last of the children of its parent that are not left out. -/
def LastShown (g : Graph) (id : Nat) : Prop :=
  ∃ parent, (g.node id).parent = some parent ∧
    ((g.children parent).filter fun child => ¬ g.LeftOut child).getLast? = some id

theorem length_lineage (g : Graph) (id : Nat) : (g.lineage id).length = g.depth id := by
  simp [lineage, depth]

namespace WellLinked

variable {g : Graph} (hg : g.WellLinked)
include hg

theorem renderedChildren_eq (id : Nat) :
    g.renderedChildren id = (g.children id).filter fun child => ¬ g.LeftOut child :=
  List.filter_congr fun child hchild => by rw [Bool.eq_iff_iff, hg.shows_iff hchild, decide_eq_true_iff]

theorem isLastShown_iff {id parent : Nat} (h : (g.node id).parent = some parent) :
    g.isLastShown id = true ↔ g.LastShown id := by
  rw [isLastShown, h, Option.all_some, beq_iff_eq, hg.renderedChildren_eq, LastShown, h]
  simp

/-- Each level down to a node has an entry in its lineage, that of the node on this level of its chain. -/
theorem lineage_getElem? {id k : Nat} (hid : id < g.size) (hk : k < g.depth id) :
    ∃ a ∈ id :: g.ancestors id, g.depth a = k + 1 ∧ (g.node a).parent.isSome ∧
      (g.lineage id)[k]? = some (g.isLastShown a) := by
  induction id using Nat.strongRecOn with
  | ind id ih =>
    by_cases hroot : id = root
    · rw [hroot, hg.depth_of_root] at hk
      exact absurd hk (Nat.not_lt_zero k)
    · obtain ⟨parent, hlt, hparent⟩ := hg.exists_parent hid hroot
      have hlength := g.length_lineage parent
      rw [hg.lineage_of_parent hparent, hg.ancestors_of_parent hparent]
      rw [hg.depth_of_parent hparent] at hk
      rcases Nat.lt_or_eq_of_le (Nat.le_of_lt_succ hk) with hk | rfl
      · obtain ⟨a, ha, hdepth, hsome, hentry⟩ := ih parent hlt (Nat.lt_trans hlt hid) hk
        refine ⟨a, List.mem_cons_of_mem _ ha, hdepth, hsome, ?_⟩
        rw [List.getElem?_append_left (hlength ▸ hk), hentry]
      · refine ⟨id, List.mem_cons_self, hg.depth_of_parent hparent, Option.isSome_of_mem hparent, ?_⟩
        rw [← hlength, List.getElem?_concat_length]

end WellLinked

/-! ## The events of a walk -/

/-- The events of a walk tell the rendered tree. -/
structure WalksTree (g : Graph) : Prop where
  /-- The nodes are reached in the order of the listing, all but the obstructed ones. -/
  shown : shownBy g.walk = g.preorder.filter fun id => g.Unobstructed id
  nodup : (shownBy g.walk).Nodup
  /-- Right after each node but the root comes the edge from its parent, which is the innermost node that
  was reached and not left yet; and every node is left when it is the innermost one. -/
  nests : g.Nests [] g.walk
  /-- The nodes that are left are those that are reached. -/
  left : (leftBy g.walk).Perm (shownBy g.walk)
  left_below : (leftBy g.walk).Pairwise fun id later => id ∉ g.ancestors later
  parent : ∀ visit, .node visit ∈ g.walk → visit.parent = (g.node visit.id).parent
  /-- The lineage has an entry for each level down to the node: whether the node on this level of the
  chain is the last of the children of its parent that are not left out. -/
  length_lineage : ∀ visit, .node visit ∈ g.walk → visit.lineage.length = g.depth visit.id
  lineage : ∀ visit, .node visit ∈ g.walk → ∀ k < g.depth visit.id,
    ∃ a ∈ visit.id :: g.ancestors visit.id, g.depth a = k + 1 ∧
      (visit.lineage[k]? = some true ↔ g.LastShown a)

theorem WellLinked.shownBy_walk {g : Graph} (hg : g.WellLinked) :
    shownBy g.walk = g.preorder.filter fun id => g.Unobstructed id := by
  have hroot : root < g.size := hg.size_pos
  rw [hg.walk_eq_tour, hg.shownBy_tour hroot hg.unobstructed_root, preorder_eq_branch]

theorem WellLinked.nodup_shownBy {g : Graph} (hg : g.WellLinked) : (shownBy g.walk).Nodup := by
  rw [hg.shownBy_walk]
  exact hg.nodup_preorder.filter _

theorem WellLinked.lt_of_mem_shownBy {g : Graph} (hg : g.WellLinked) {id : Nat}
    (h : id ∈ shownBy g.walk) : id < g.size := by
  rw [hg.shownBy_walk] at h
  exact hg.lt_of_mem_preorder (List.mem_filter.1 h).1

theorem WellLinked.eq_visitOf {g : Graph} (hg : g.WellLinked) {visit : Visit}
    (h : .node visit ∈ g.walk) : visit = g.visitOf visit.id :=
  hg.eq_visitOf_of_mem_tour hg.size_pos (hg.walk_eq_tour ▸ h)

/-- **The events of a walk are the rendered tree**, for every graph of which the links describe a tree,
whether it is mediated or not. -/
theorem walksTree_of_wellLinked {g : Graph} (hg : g.WellLinked) : g.WalksTree where
  shown := hg.shownBy_walk
  nodup := hg.nodup_shownBy
  nests := by
    have hroot : root < g.size := hg.size_pos
    have hnests := hg.nests_tour hroot []
    rw [hg.ancestors_of_root, List.append_nil, ← hg.walk_eq_tour] at hnests
    exact hnests .done
  left := by
    rw [hg.walk_eq_tour]
    exact hg.leftBy_tour_perm hg.size_pos
  left_below := by
    rw [hg.walk_eq_tour]
    exact hg.pairwise_leftBy_tour hg.size_pos
  parent visit h := by
    rw [hg.eq_visitOf h]
    rfl
  length_lineage visit h := by
    rw [hg.eq_visitOf h]
    exact g.length_lineage visit.id
  lineage visit h k hk := by
    have hid : visit.id < g.size := hg.lt_of_mem_shownBy (mem_shownBy.2 ⟨visit, h, rfl⟩)
    obtain ⟨a, ha, hdepth, hsome, hentry⟩ := hg.lineage_getElem? hid hk
    obtain ⟨parent, hparent⟩ := Option.isSome_iff_exists.1 hsome
    have hlineage : visit.lineage = g.lineage visit.id := congrArg Visit.lineage (hg.eq_visitOf h)
    refine ⟨a, ha, hdepth, ?_⟩
    rw [hlineage, hentry, Option.some.injEq, hg.isLastShown_iff hparent]

/-- Of the children of `web`, the last one is a test node and hidden. Below the omitted `text` and below
the node without a coordinate nothing is shown, and the test node `fake` is shown as it is the project
that asks for it. -/
def hiddenSiblings : Graph :=
  (ofRoot (requested "app")).changed [
    .addChild root (requested "web"), .addChild 1 (requested "log"),
    .addChild 1 { requested "mock" with scope := some .test }, .addChild 3 (requested "stub"),
    .addChild root { requested "text" with status := .omitted .optional },
    .addChild 5 (requested "util"), .addChild root {}, .addChild 7 (requested "lost"),
    .addChild root { requested "fake" with scope := some .test }]

theorem walksTree_hiddenSiblings :
    hiddenSiblings.WellLinked ∧ hiddenSiblings.WalksTree ∧
      shownBy hiddenSiblings.walk = [root, 1, 2, 5, 7, 9] ∧
      .node ⟨2, some 1, [false, true]⟩ ∈ hiddenSiblings.walk := by
  have h : hiddenSiblings.WellLinked :=
    (wellLinked_ofRoot (requested "app")).changed (by decide +kernel)
  exact ⟨h, walksTree_of_wellLinked h, by decide +kernel, by decide +kernel⟩

end Graph

end ArtifactTree
