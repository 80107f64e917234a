import ArtifactTree.Unfolding
import Mathlib.Data.List.Forall2

/-!
# Forests in the arena

`Forest.layOut` hangs a forest below one node of the arena, in depth-first order. Where each
declaration ends up is computed here from the forest alone: its `Place`. The arena holds exactly the
nodes of these places (`node_toGraph_of_mem_places`), each with the ids of what is below it as
children, and one place for each id (`map_id_places`).

What follows speaks of places. Everything below a place has consecutive ids that follow its own, so
of two places on one level the earlier one has all its descendants before the other
(`end_lt_of_mem_places`).
-/

namespace ArtifactTree

namespace Forest

/-- The declarations that a forest starts with, without what is below them. -/
def declarations : Forest → List Declaration
  | nil => []
  | cons d _ _ rest => d :: rest.declarations

/-- The ids of these declarations, laid out from `base` on. -/
def ids : Forest → (base : Nat) → List Nat
  | nil, _ => []
  | cons _ _ below rest, base => base :: rest.ids (base + 1 + below.size)

/-- A declaration of a forest and where it is laid out. -/
structure Place where
  /-- The coordinates above it, the project first. -/
  path : List Coordinate
  /-- The ids above it, the root first. -/
  ancestors : List Nat
  id : Nat
  declaration : Declaration
  cycle : Option Nat
  below : Forest

namespace Place

/-- The coordinates above what is below a place. -/
def innerPath (p : Place) : List Coordinate := p.path ++ [p.declaration.coordinate]

/-- The ids above what is below a place. -/
def innerAncestors (p : Place) : List Nat := p.ancestors ++ [p.id]

def node (p : Place) : Node :=
  { Node.ofDeclaration p.declaration with
    cycleOf := p.cycle.bind (p.ancestors[·]?)
    parent := some (p.ancestors.getLastD Graph.root)
    children := p.below.ids (p.id + 1) }

end Place

/-- The places of a forest that is laid out from `base` on, in the order of their ids. -/
def places : Forest → List Coordinate → List Nat → (base : Nat) → List Place
  | nil, _, _, _ => []
  | cons d cycle below rest, path, ancestors, base =>
    ⟨path, ancestors, base, d, cycle, below⟩ ::
      (below.places (path ++ [d.coordinate]) (ancestors ++ [base]) (base + 1) ++
        rest.places path ancestors (base + 1 + below.size))

def Place.inner (p : Place) : List Place := p.below.places p.innerPath p.innerAncestors (p.id + 1)

section Places

variable {forest : Forest} {path : List Coordinate} {ancestors : List Nat} {base : Nat}

theorem mem_places_cons {d : Declaration} {cycle : Option Nat} {below rest : Forest} {p : Place} :
    p ∈ (cons d cycle below rest).places path ancestors base ↔
      p = ⟨path, ancestors, base, d, cycle, below⟩ ∨
      p ∈ below.places (path ++ [d.coordinate]) (ancestors ++ [base]) (base + 1) ∨
      p ∈ rest.places path ancestors (base + 1 + below.size) := by
  simp [places]

/-! ## Ids -/

/-- The ids of the places are the numbers from `base` on, each once. -/
theorem map_id_places (forest : Forest) (path : List Coordinate) (ancestors : List Nat)
    (base : Nat) :
    (forest.places path ancestors base).map (·.id) = List.range' base forest.size := by
  induction forest generalizing path ancestors base with
  | nil => rfl
  | cons d cycle below rest ihBelow ihRest =>
    simp only [places, size, List.map_cons, List.map_append, ihBelow, ihRest, List.range'_succ,
      List.range'_append_1]

theorem id_mem_places {p : Place} (hp : p ∈ forest.places path ancestors base) :
    base ≤ p.id ∧ p.id < base + forest.size := by
  have h : p.id ∈ (forest.places path ancestors base).map (·.id) := List.mem_map_of_mem hp
  rw [map_id_places, List.mem_range'_1] at h
  exact h

theorem exists_mem_places {id : Nat} (h : base ≤ id) (h' : id < base + forest.size) :
    ∃ p ∈ forest.places path ancestors base, p.id = id := by
  have hid : id ∈ (forest.places path ancestors base).map (·.id) := by
    rw [map_id_places, List.mem_range'_1]
    exact ⟨h, h'⟩
  exact List.mem_map.1 hid

/-- What is below a place is laid out before the forest ends. -/
theorem end_le_of_mem_places {p : Place} (hp : p ∈ forest.places path ancestors base) :
    p.id + 1 + p.below.size ≤ base + forest.size := by
  induction forest generalizing path ancestors base with
  | nil => simp [places] at hp
  | cons d cycle below rest ihBelow ihRest =>
    simp only [size]
    rcases mem_places_cons.1 hp with rfl | hp | hp
    · simp only
      omega
    · have := ihBelow hp
      omega
    · have := ihRest hp
      omega

/-! ## Ancestors -/

theorem length_le_of_mem_places {p : Place} (hp : p ∈ forest.places path ancestors base) :
    ancestors.length ≤ p.ancestors.length := by
  induction forest generalizing path ancestors base with
  | nil => simp [places] at hp
  | cons d cycle below rest ihBelow ihRest =>
    rcases mem_places_cons.1 hp with rfl | hp | hp
    · exact Nat.le_refl _
    · have := ihBelow hp
      rw [List.length_append, List.length_singleton] at this
      omega
    · exact ihRest hp

/-- What holds of the path above a forest, and passes from the path above a place to the path above
what is below it, holds of the paths above all places. -/
theorem above_of_mem_places {motive : List Coordinate → List Nat → Prop}
    (hbase : motive path ancestors)
    (hstep : ∀ p ∈ forest.places path ancestors base, motive p.path p.ancestors →
      motive p.innerPath p.innerAncestors) :
    ∀ p ∈ forest.places path ancestors base, motive p.path p.ancestors := by
  induction forest generalizing path ancestors base with
  | nil => simp [places]
  | cons d cycle below rest ihBelow ihRest =>
    have hfirst := hstep _ (mem_places_cons.2 (.inl rfl)) hbase
    intro p hp
    rcases mem_places_cons.1 hp with rfl | hp | hp
    · exact hbase
    · exact ihBelow hfirst (fun q hq => hstep q (mem_places_cons.2 (.inr (.inl hq)))) p hp
    · exact ihRest hbase (fun q hq => hstep q (mem_places_cons.2 (.inr (.inr hq)))) p hp

/-- Of two places on one level, the earlier one has everything below it before the other. -/
theorem end_lt_of_mem_places {p q : Place} (hp : p ∈ forest.places path ancestors base)
    (hq : q ∈ forest.places path ancestors base) (hlt : p.id < q.id)
    (hlevel : p.ancestors.length = q.ancestors.length) : p.id + p.below.size < q.id := by
  induction forest generalizing path ancestors base with
  | nil => simp [places] at hp
  | cons d cycle below rest ihBelow ihRest =>
    -- in different parts of the forest, ids and levels alone decide
    rcases mem_places_cons.1 hp with rfl | hp | hp <;>
      rcases mem_places_cons.1 hq with rfl | hq | hq
    · exact absurd hlt (Nat.lt_irrefl _)
    · have := length_le_of_mem_places hq
      simp only [List.length_append, List.length_singleton] at this hlevel
      omega
    · have := (id_mem_places hq).1
      simp only
      omega
    · have := (id_mem_places hp).1
      simp only at hlt
      omega
    · exact ihBelow hp hq
    · have := end_le_of_mem_places hp
      have := (id_mem_places hq).1
      omega
    · have := (id_mem_places hp).1
      simp only at hlt
      omega
    · have := (id_mem_places hp).1
      have := (id_mem_places hq).2
      omega
    · exact ihRest hp hq

/-! ## Places below places -/

theorem mem_places_of_mem_inner {p q : Place} (hp : p ∈ forest.places path ancestors base)
    (hq : q ∈ p.inner) : q ∈ forest.places path ancestors base := by
  induction forest generalizing path ancestors base with
  | nil => simp [places] at hp
  | cons d cycle below rest ihBelow ihRest =>
    rcases mem_places_cons.1 hp with rfl | hp | hp
    · exact mem_places_cons.2 (.inr (.inl hq))
    · exact mem_places_cons.2 (.inr (.inl (ihBelow hp)))
    · exact mem_places_cons.2 (.inr (.inr (ihRest hp)))

/-- The declarations that a forest starts with are at the ids that it starts with, in order. -/
theorem forall₂_ids_declarations (forest : Forest) (path : List Coordinate) (ancestors : List Nat)
    (base : Nat) :
    List.Forall₂ (fun id d => ∃ p ∈ forest.places path ancestors base,
      p.id = id ∧ p.declaration = d ∧ p.path = path ∧ p.ancestors = ancestors)
      (forest.ids base) forest.declarations := by
  induction forest generalizing path ancestors base with
  | nil => exact .nil
  | cons d cycle below rest ihBelow ihRest =>
    refine .cons ⟨_, mem_places_cons.2 (.inl rfl), rfl, rfl, rfl, rfl⟩ ?_
    refine (ihRest path ancestors (base + 1 + below.size)).imp ?_
    rintro id e ⟨p, hp, hplace⟩
    exact ⟨p, mem_places_cons.2 (.inr (.inr hp)), hplace⟩

theorem exists_place_of_mem_ids (path : List Coordinate) (ancestors : List Nat) {id : Nat}
    (h : id ∈ forest.ids base) :
    ∃ p ∈ forest.places path ancestors base, p.id = id ∧ p.ancestors = ancestors := by
  induction forest generalizing base with
  | nil => simp [ids] at h
  | cons d cycle below rest ihBelow ihRest =>
    rcases List.mem_cons.1 h with rfl | h
    · exact ⟨_, mem_places_cons.2 (.inl rfl), rfl, rfl⟩
    · obtain ⟨p, hp, hplace⟩ := ihRest h
      exact ⟨p, mem_places_cons.2 (.inr (.inr hp)), hplace⟩

/-- A place is one that the forest starts with, or one that another place has directly below. -/
theorem exists_above_of_mem_places {q : Place} (hq : q ∈ forest.places path ancestors base) :
    (q.ancestors = ancestors ∧ q.id ∈ forest.ids base) ∨
      ∃ p ∈ forest.places path ancestors base,
        q.ancestors = p.innerAncestors ∧ q.id ∈ p.below.ids (p.id + 1) := by
  induction forest generalizing path ancestors base with
  | nil => simp [places] at hq
  | cons d cycle below rest ihBelow ihRest =>
    rcases mem_places_cons.1 hq with rfl | hq | hq
    · exact .inl ⟨rfl, List.mem_cons_self⟩
    · rcases ihBelow hq with ⟨hancestors, hid⟩ | ⟨p, hp, hplace⟩
      · exact .inr ⟨_, mem_places_cons.2 (.inl rfl), hancestors, hid⟩
      · exact .inr ⟨p, mem_places_cons.2 (.inr (.inl hp)), hplace⟩
    · rcases ihRest hq with ⟨hancestors, hid⟩ | ⟨p, hp, hplace⟩
      · exact .inl ⟨hancestors, List.mem_cons_of_mem _ hid⟩
      · exact .inr ⟨p, mem_places_cons.2 (.inr (.inr hp)), hplace⟩

theorem pairwise_ids (forest : Forest) (base : Nat) : (forest.ids base).Pairwise (· < ·) := by
  induction forest generalizing base with
  | nil => exact .nil
  | cons d cycle below rest ihBelow ihRest =>
    refine List.pairwise_cons.2 ⟨?_, ihRest _⟩
    intro id hid
    obtain ⟨p, hp, rfl, -⟩ := exists_place_of_mem_ids [] [] hid
    have := (id_mem_places hp).1
    omega

end Places

/-! ## The nodes of the arena -/

section Arena

open ArtifactTree.Graph

theorem getLastD_snoc (ancestors : List Nat) (id : Nat) :
    (ancestors ++ [id]).getLastD root = id := by simp

theorem node_layOut_of_ne (forest : Forest) {ancestors : List Nat} {g : Graph} {id : Nat}
    (hid : id < g.size) (hne : id ≠ ancestors.getLastD root) :
    (forest.layOut ancestors g).node id = g.node id := by
  induction forest generalizing ancestors g with
  | nil => rfl
  | cons d cycle below rest ihBelow ihRest =>
    simp only [layOut]
    rw [ihRest (by simp only [size_layOut, size_addChild]; omega) hne,
      ihBelow (by simp only [size_addChild]; omega) (by rw [getLastD_snoc]; exact Nat.ne_of_lt hid),
      node_addChild_of_ne _ hid hne]

/-- The node that a forest hangs below lists the ids that the forest starts with. -/
theorem node_layOut_parent (forest : Forest) (ancestors : List Nat) (g : Graph)
    (hp : ancestors.getLastD root < g.size) :
    (forest.layOut ancestors g).node (ancestors.getLastD root) =
      { g.node (ancestors.getLastD root) with
        children := g.children (ancestors.getLastD root) ++ forest.ids g.size } := by
  induction forest generalizing ancestors g with
  | nil => simp [layOut, ids, children]
  | cons d cycle below rest _ ihRest =>
    simp only [layOut, ids]
    rw [ihRest _ _ (by simp only [size_layOut, size_addChild]; omega), children,
      node_layOut_of_ne below (by simp only [size_addChild]; omega)
        (by rw [getLastD_snoc]; exact Nat.ne_of_lt hp),
      node_addChild_parent _ hp]
    simp [size_layOut, children]

/-- Every place of the forest is laid out as its node. -/
theorem node_layOut_of_mem_places {forest : Forest} {path : List Coordinate}
    (ancestors : List Nat) (g : Graph) (hg : ancestors.getLastD root < g.size) {p : Place}
    (hp : p ∈ forest.places path ancestors g.size) :
    (forest.layOut ancestors g).node p.id = p.node := by
  induction forest generalizing path ancestors g with
  | nil => simp [places] at hp
  | cons d cycle below rest ihBelow ihRest =>
    simp only [layOut]
    rcases mem_places_cons.1 hp with rfl | hp | hp
    · rw [node_layOut_of_ne rest (by simp only [size_layOut, size_addChild]; omega)
        (Nat.ne_of_gt hg)]
      have hparent := node_layOut_parent below (ancestors ++ [g.size])
        (g.addChild (ancestors.getLastD root)
          { Node.ofDeclaration d with cycleOf := cycle.bind (ancestors[·]?) })
        (by rw [getLastD_snoc, size_addChild]; omega)
      rw [getLastD_snoc] at hparent
      rw [hparent, children, node_addChild_size _ hg]
      simp [Place.node]
    · have := id_mem_places hp
      rw [node_layOut_of_ne rest (by simp only [size_layOut, size_addChild]; omega) (by omega)]
      rw [← size_addChild] at hp
      exact ihBelow _ _ (by rw [getLastD_snoc, size_addChild]; omega) hp
    · rw [← size_addChild, ← size_layOut] at hp
      exact ihRest _ _ (by simp only [size_layOut, size_addChild]; omega) hp

variable {forest : Forest} {project : Coordinate}

/-- The places of a forest below a project. -/
def placesBelow (forest : Forest) (project : Coordinate) : List Place :=
  forest.places [project] [root] 1

theorem node_toGraph_root (forest : Forest) (project : Coordinate) :
    (forest.toGraph project).node root =
      { Node.project project with children := forest.ids 1 } :=
  node_layOut_parent forest [root] (.ofProject project) Nat.one_pos

theorem node_toGraph_of_mem_places {p : Place} (hp : p ∈ forest.placesBelow project) :
    (forest.toGraph project).node p.id = p.node :=
  node_layOut_of_mem_places [root] (.ofProject project) Nat.one_pos hp

theorem id_mem_placesBelow {p : Place} (hp : p ∈ forest.placesBelow project) :
    0 < p.id ∧ p.id < (forest.toGraph project).size := by
  have := id_mem_places hp
  rw [size_toGraph]
  omega

/-- An id is the root's or that of a place. -/
theorem exists_mem_placesBelow {id : Nat} (h : id < (forest.toGraph project).size)
    (hroot : id ≠ root) : ∃ p ∈ forest.placesBelow project, p.id = id := by
  rw [size_toGraph] at h
  have : id ≠ 0 := hroot
  exact exists_mem_places (by omega) (by omega)

theorem children_toGraph_of_mem_places {p : Place} (hp : p ∈ forest.placesBelow project) :
    (forest.toGraph project).children p.id = p.below.ids (p.id + 1) := by
  rw [children, node_toGraph_of_mem_places hp, Place.node]

/-! ## Ancestors in the arena -/

/-- Following parents from a node whose parent is the last of `ancestors` gives these backwards. -/
def Leads (g : Graph) (ancestors : List Nat) : Prop :=
  ∀ limit id, ancestors.length ≤ limit → (g.node id).parent = some (ancestors.getLastD root) →
    g.ancestorsWithin limit id = ancestors.reverse

theorem leads_root {g : Graph} (h : (g.node root).parent = none) : Leads g [root] := by
  intro limit id hlimit hparent
  have hstop : ∀ limit, g.ancestorsWithin limit root = [] := by
    intro limit
    cases limit <;> simp [ancestorsWithin, h]
  cases limit with
  | zero => simp at hlimit
  | succ limit => simp [ancestorsWithin, hparent, hstop]

theorem leads_snoc {g : Graph} {ancestors : List Nat} {id : Nat} (h : Leads g ancestors)
    (hid : (g.node id).parent = some (ancestors.getLastD root)) : Leads g (ancestors ++ [id]) := by
  intro limit other hlimit hparent
  rw [List.length_append, List.length_singleton] at hlimit
  cases limit with
  | zero => omega
  | succ limit =>
    rw [getLastD_snoc] at hparent
    simp only [ancestorsWithin, hparent]
    rw [h limit id (by omega) hid, List.reverse_append, List.reverse_singleton,
      List.singleton_append]

theorem leads_of_mem_places {p : Place} (hp : p ∈ forest.placesBelow project) :
    Leads (forest.toGraph project) p.ancestors := by
  refine above_of_mem_places (motive := fun _ ancestors => Leads _ ancestors)
    (leads_root ?_) ?_ p hp
  · rw [node_toGraph_root, Node.project]
  · intro q hq hleads
    exact leads_snoc hleads (by rw [node_toGraph_of_mem_places hq, Place.node])

/-- Ancestors lie before a place, so there are at most as many as its id says. -/
theorem length_ancestors_le {forest : Forest} {path : List Coordinate} {ancestors : List Nat}
    {base : Nat} (h : ancestors.length ≤ base) {p : Place}
    (hp : p ∈ forest.places path ancestors base) : p.ancestors.length ≤ p.id := by
  induction forest generalizing path ancestors base with
  | nil => simp [places] at hp
  | cons d cycle below rest ihBelow ihRest =>
    rcases mem_places_cons.1 hp with rfl | hp | hp
    · exact h
    · exact ihBelow (by simpa using h) hp
    · exact ihRest (by omega) hp

/-- The ancestors in the arena are those of the place. -/
theorem ancestors_toGraph_of_mem_places {p : Place} (hp : p ∈ forest.placesBelow project) :
    (forest.toGraph project).ancestors p.id = p.ancestors.reverse := by
  have hlength := length_ancestors_le (Nat.le_refl 1) hp
  have hid := (id_mem_placesBelow hp).2
  apply leads_of_mem_places hp _ _ (by omega)
  rw [node_toGraph_of_mem_places hp, Place.node]

theorem ancestors_toGraph_root (forest : Forest) (project : Coordinate) :
    (forest.toGraph project).ancestors root = [] := by
  rw [ancestors, size_toGraph, ancestorsWithin, node_toGraph_root, Node.project]

theorem depth_toGraph_of_mem_places {p : Place} (hp : p ∈ forest.placesBelow project) :
    (forest.toGraph project).depth p.id = p.ancestors.length := by
  rw [depth, ancestors_toGraph_of_mem_places hp, List.length_reverse]

/-! ## Depth-first order -/

/-- Where a forest is laid out in a graph, walking depth-first meets its ids in order. -/
theorem flatMap_preorderWithin (g : Graph) (forest : Forest) {path : List Coordinate}
    {ancestors : List Nat} {base : Nat} (limit : Nat) (hlimit : forest.size ≤ limit)
    (hg : ∀ p ∈ forest.places path ancestors base, g.node p.id = p.node) :
    (forest.ids base).flatMap (g.preorderWithin limit) = List.range' base forest.size := by
  induction forest generalizing path ancestors base limit with
  | nil => rfl
  | cons d cycle below rest ihBelow ihRest =>
    rw [size] at hlimit ⊢
    have hfirst := hg _ (mem_places_cons.2 (.inl rfl))
    have hbelow := ihBelow (limit - 1) (by omega) fun p hp =>
      hg p (mem_places_cons.2 (.inr (.inl hp)))
    have hrest := ihRest limit (by omega) fun p hp =>
      hg p (mem_places_cons.2 (.inr (.inr hp)))
    obtain ⟨limit, rfl⟩ : ∃ k, limit = k + 1 := ⟨limit - 1, by omega⟩
    rw [ids, List.flatMap_cons, hrest, preorderWithin, children, hfirst, Place.node]
    simp only [Nat.add_sub_cancel] at hbelow
    rw [hbelow, List.cons_append, List.range'_append_1, List.range'_succ]

/-- The ids of the arena are the numbers of the nodes in depth-first order. -/
theorem preorder_toGraph (forest : Forest) (project : Coordinate) :
    (forest.toGraph project).preorder = List.range (forest.toGraph project).size := by
  have h := flatMap_preorderWithin (forest.toGraph project) forest forest.size (Nat.le_refl _)
    fun p hp => node_toGraph_of_mem_places hp
  rw [preorder, size_toGraph, preorderWithin, children, node_toGraph_root, h, List.range_eq_range',
    List.range'_succ]
  rfl

end Arena

end Forest

end ArtifactTree
