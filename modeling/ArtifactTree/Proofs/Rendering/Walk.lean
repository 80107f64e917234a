import ArtifactTree.Render.Label
import ArtifactTree.Render.Walk

/-!
# The tree that a walk tells

A walk through a node is the node, the edge to it, the walks through what is shown below
(`Graph.visitsBelow`) and the leave. So what is read off the events, like the edges
(`Graph.shownEdges`), is read off level by level.
-/

namespace ArtifactTree.Graph

/-- The visits right below a visit. -/
def visitsBelow (g : Graph) (visit : Visit) : List Visit :=
  if g.entered visit.id then
    (withLast (g.renderedChildren visit.id)).map fun (child, last) =>
      ⟨child, some visit.id, visit.lineage ++ [last]⟩
  else []

theorem walkWithin_succ (g : Graph) (limit : Nat) (visit : Visit) :
    g.walkWithin (limit + 1) visit =
      .node visit :: (visit.parent.map (Event.edge · visit.id)).toList ++
        (g.visitsBelow visit).flatMap (g.walkWithin limit) ++ [.leave visit.id] := by
  rw [walkWithin, visitsBelow]
  split
  · rw [List.flatMap_map]
  · rfl

theorem of_mem_visitsBelow {g : Graph} {visit v : Visit} (h : v ∈ g.visitsBelow visit) :
    v.parent = some visit.id ∧ v.depth = visit.depth + 1 := by
  unfold visitsBelow at h
  split at h
  · obtain ⟨⟨child, last⟩, -, rfl⟩ := List.mem_map.1 h
    exact ⟨rfl, by simp [Visit.depth]⟩
  · cases h

/-! ## Nodes -/

def shownId? : Event → Option Nat
  | .node visit => some visit.id
  | _ => none

def shownBy (events : List Event) : List Nat := events.filterMap shownId?

theorem mem_shownBy {events : List Event} {id : Nat} :
    id ∈ shownBy events ↔ ∃ visit, .node visit ∈ events ∧ visit.id = id := by
  constructor
  · intro h
    obtain ⟨event, hevent, hid⟩ := List.mem_filterMap.1 h
    cases event with
    | node visit => exact ⟨visit, hevent, Option.some.inj hid⟩
    | edge parent child => cases hid
    | leave id => cases hid
  · rintro ⟨visit, hvisit, rfl⟩
    exact List.mem_filterMap.2 ⟨_, hvisit, rfl⟩

theorem mem_shownBy_succ (g : Graph) (limit : Nat) (visit : Visit) :
    visit.id ∈ shownBy (g.walkWithin (limit + 1) visit) := by
  rw [walkWithin_succ]
  exact mem_shownBy.2 ⟨visit, by simp, rfl⟩

/-- An edge joins two nodes that are shown, unless it comes from above the walk. -/
theorem mem_shownBy_of_edge {g : Graph} {limit : Nat} {visit : Visit} {parent child : Nat}
    (h : .edge parent child ∈ g.walkWithin limit visit) :
    (visit.parent = some parent ∨ parent ∈ shownBy (g.walkWithin limit visit)) ∧
      child ∈ shownBy (g.walkWithin limit visit) := by
  induction limit generalizing visit with
  | zero => cases h
  | succ limit ih =>
    have hvisit := mem_shownBy_succ g limit visit
    rw [walkWithin_succ] at h
    simp only [List.mem_append, List.mem_cons, reduceCtorEq, false_or, List.not_mem_nil, or_false,
      Option.mem_toList, Option.map_eq_some_iff, Event.edge.injEq, List.mem_flatMap] at h
    rcases h with ⟨p, hp, rfl, rfl⟩ | ⟨v, hv, hedge⟩
    · exact ⟨.inl hp, hvisit⟩
    · -- the edge is below, where all that is shown is shown here as well
      have hbelow : ∀ id ∈ shownBy (g.walkWithin limit v),
          id ∈ shownBy (g.walkWithin (limit + 1) visit) := by
        intro id hid
        obtain ⟨w, hw, rfl⟩ := mem_shownBy.1 hid
        rw [walkWithin_succ]
        refine mem_shownBy.2 ⟨w, ?_, rfl⟩
        simp only [List.mem_append, List.mem_flatMap]
        exact .inl (.inr ⟨v, hv, hw⟩)
      obtain ⟨hparent, hchild⟩ := ih hedge
      refine ⟨.inr ?_, hbelow child hchild⟩
      rcases hparent with hparent | hparent
      · rw [(of_mem_visitsBelow hv).1, Option.some.injEq] at hparent
        exact hparent ▸ hvisit
      · exact hbelow parent hparent

/-- Every edge of a walk joins two nodes that it shows. -/
theorem mem_shownBy_walk {g : Graph} {parent child : Nat} (h : .edge parent child ∈ g.walk) :
    parent ∈ shownBy g.walk ∧ child ∈ shownBy g.walk := by
  obtain ⟨hparent | hparent, hchild⟩ := mem_shownBy_of_edge h
  · cases hparent
  · exact ⟨hparent, hchild⟩

/-! ## Edges -/

def edge? (g : Graph) : Event → Option (String × String)
  | .edge parent child => some ((g.node parent).label, (g.node child).label)
  | _ => none

def edgesOf (g : Graph) (events : List Event) : List (String × String) := events.filterMap g.edge?

/-- The edges of the rendered tree, in the order of the walk. -/
def shownEdges (g : Graph) : List (String × String) := g.edgesOf g.walk

theorem edgesOf_flatMap (g : Graph) {α : Type} (f : α → List Event) (items : List α) :
    g.edgesOf (items.flatMap f) = items.flatMap fun item => g.edgesOf (f item) :=
  List.filterMap_flatMap

theorem edgesOf_walkWithin_succ (g : Graph) (limit : Nat) (visit : Visit) :
    g.edgesOf (g.walkWithin (limit + 1) visit) =
      (visit.parent.map fun p => ((g.node p).label, (g.node visit.id).label)).toList ++
        (g.visitsBelow visit).flatMap fun v => g.edgesOf (g.walkWithin limit v) := by
  rw [walkWithin_succ, ← edgesOf_flatMap]
  cases visit.parent <;> simp [edgesOf, List.filterMap_cons, List.filterMap_append, edge?]

end ArtifactTree.Graph
