import ArtifactTree.Proofs.Caching
import ArtifactTree.Proofs.Unfolding

/-!
# Direct dependencies are unfolded independently

The subtrees of the direct dependencies are expanded one after another into one arena, by one collector.
All the same none of them sees another. A collector that answers consistently may be replaced by a table
(`unfold_eq_of_consistent`), and with a table the forest of two lists of declarations is that of the
first with that of the second behind it (`Forest.ofProject_append`). Laid out behind another forest, a
forest gets the nodes that it has when it is laid out alone, with all ids but the root's shifted
(`Forest.places_shift`).

Main statement: `exec_unfold_append`. It says what the graph of `xs ++ ys` is in terms of the graphs of
`xs` and of `ys` (`Graph.append`), and which fault there is if one of them has none.
-/

namespace ArtifactTree

open ArtifactTree.Graph

/-! ## One graph behind another -/

/-- The id of a node that is put behind `offset` nodes. The root stays the root. -/
def Graph.shift (offset id : Nat) : Nat := if id = root then root else id + offset

theorem Graph.shift_root (offset : Nat) : shift offset root = root := if_pos rfl

theorem Graph.shift_of_ne {offset id : Nat} (h : id ≠ root) : shift offset id = id + offset := if_neg h

/-- The node with all ids in it shifted. -/
def Node.shift (n : Node) (offset : Nat) : Node :=
  { n with
    parent := n.parent.map (Graph.shift offset)
    children := n.children.map (Graph.shift offset)
    cycleOf := n.cycleOf.map (Graph.shift offset) }

namespace Graph

/-- The nodes of the first graph and then those of the second one but its root, shifted by as many ids
as the first graph has nodes besides the root. The root has the children of both roots. -/
def append (g h : Graph) : Graph :=
  let offset := g.size - 1
  let joined := g.modify root fun n =>
    { n with children := n.children ++ (h.children root).map (shift offset) }
  ⟨joined.nodes ++ (h.nodes.extract 1).map (·.shift offset)⟩

variable {g h : Graph} {id : Nat}

theorem size_append (g h : Graph) : (g.append h).size = g.size + (h.size - 1) := by
  simp [append, size, modify]

/-- In the place of the first graph, only the root is changed. -/
theorem node_append_of_lt (hid : id < g.size) : (g.append h).node id =
    (g.modify root fun n =>
      { n with children := n.children ++ (h.children root).map (shift (g.size - 1)) }).node id := by
  rw [node_eq_getElem?, node_eq_getElem?, append, Array.getElem?_append_left]
  simpa [modify, size] using hid

theorem node_append_root (hg : 0 < g.size) : (g.append h).node root =
    { g.node root with
      children := g.children root ++ (h.children root).map (shift (g.size - 1)) } := by
  exact (node_append_of_lt hg).trans (node_modify_self _ hg)

theorem node_append_of_ne (hid : id < g.size) (hroot : id ≠ root) :
    (g.append h).node id = g.node id := by
  rw [node_append_of_lt hid, node_modify_of_ne _ hroot]

/-- The node at `id` of the second graph. -/
theorem node_append_add (hg : 0 < g.size) (hid : id < h.size) (hroot : id ≠ root) :
    (g.append h).node (id + (g.size - 1)) = (h.node id).shift (g.size - 1) := by
  have hpos : 0 < id := Nat.pos_of_ne_zero hroot
  have hle : g.size ≤ id + (g.size - 1) := by omega
  have hindex : id + (g.size - 1) - g.size = id - 1 := by omega
  have hback : 1 + (id - 1) = id := by omega
  rw [node_eq_getElem?, append, Array.getElem?_append_right (by simpa [modify, size] using hle)]
  have hsize : (g.modify root fun n =>
      { n with children := n.children ++ (h.children root).map (shift (g.size - 1)) }).nodes.size =
      g.size := size_modify g root _
  have hbound : id - 1 < min h.nodes.size h.nodes.size - 1 := by
    simp only [size] at hid
    omega
  rw [hsize, hindex, Array.getElem?_map, Array.getElem?_extract, if_pos hbound, hback,
    getElem?_nodes hid]
  rfl

end Graph

namespace Forest

/-! ## One forest behind another -/

/-- The declarations of the first forest and then those of the second one. -/
def append : Forest → Forest → Forest
  | nil, forest => forest
  | cons d cycle below rest, forest => cons d cycle below (rest.append forest)

theorem size_append (forest behind : Forest) :
    (forest.append behind).size = forest.size + behind.size := by
  induction forest with
  | nil => simp [append, size]
  | cons d cycle below rest _ ih =>
    simp only [append, size, ih]
    omega

theorem ids_append (forest behind : Forest) (base : Nat) :
    (forest.append behind).ids base = forest.ids base ++ behind.ids (base + forest.size) := by
  induction forest generalizing base with
  | nil => rfl
  | cons d cycle below rest _ ih =>
    rw [append, ids, ids, ih, size, List.cons_append]
    congr 3
    omega

theorem places_append (forest behind : Forest) (path : List Coordinate) (ancestors : List Nat)
    (base : Nat) :
    (forest.append behind).places path ancestors base =
      forest.places path ancestors base ++ behind.places path ancestors (base + forest.size) := by
  induction forest generalizing base with
  | nil => rfl
  | cons d cycle below rest _ ih =>
    have hbase : base + 1 + below.size + rest.size = base + (below.size + rest.size + 1) := by omega
    rw [append, places, places, ih, size, hbase, List.cons_append, List.append_assoc]

/-- Of a project, each direct dependency is expanded on its own. -/
theorem ofProject_append {m : Type → Type} [Monad m] [LawfulMonad m] (collector : Collector m)
    (limit : Nat) (project : Coordinate) (xs ys : List Declaration) :
    ofProject collector limit project (xs ++ ys) = do
      let forest ← ofProject collector limit project xs
      let behind ← ofProject collector limit project ys
      return forest.append behind := by
  induction xs with
  | nil => simp [ofProject, append]
  | cons d xs ih => simp [ofProject, append, ih]

/-! ## Forests laid out further back -/

/-- The place with all ids shifted. -/
def Place.shift (p : Place) (offset : Nat) : Place :=
  { p with ancestors := p.ancestors.map (Graph.shift offset), id := p.id + offset }

theorem ids_shift (forest : Forest) {base : Nat} (hbase : base ≠ root) (offset : Nat) :
    forest.ids (base + offset) = (forest.ids base).map (Graph.shift offset) := by
  induction forest generalizing base with
  | nil => rfl
  | cons d cycle below rest _ ih =>
    have hrest : base + offset + 1 + below.size = base + 1 + below.size + offset := by omega
    have hne : base + 1 + below.size ≠ root := by simp [root]
    rw [ids, ids, List.map_cons, Graph.shift_of_ne hbase, hrest, ih hne]

/-- A forest that is laid out further back has its places there, and its ancestors with them. -/
theorem places_shift (forest : Forest) (path : List Coordinate) (ancestors : List Nat) {base : Nat}
    (hbase : base ≠ root) (offset : Nat) :
    forest.places path (ancestors.map (Graph.shift offset)) (base + offset) =
      (forest.places path ancestors base).map (·.shift offset) := by
  induction forest generalizing path ancestors base with
  | nil => rfl
  | cons d cycle below rest ihBelow ihRest =>
    have hbelow : base + offset + 1 = base + 1 + offset := by omega
    have hrest : base + 1 + offset + below.size = base + 1 + below.size + offset := by omega
    have hancestors : ancestors.map (Graph.shift offset) ++ [base + offset] =
        (ancestors ++ [base]).map (Graph.shift offset) := by
      rw [List.map_append, List.map_singleton, Graph.shift_of_ne hbase]
    rw [places, places, hbelow, hrest, hancestors, ihBelow _ _ (by simp [root]),
      ihRest _ _ (by simp [root]), List.map_cons, List.map_append]
    rfl

theorem Place.node_shift (p : Place) (offset : Nat) :
    (p.shift offset).node = p.node.shift offset := by
  have hparent : (p.ancestors.map (Graph.shift offset)).getLastD root =
      Graph.shift offset (p.ancestors.getLastD root) := by
    rw [List.getLastD_eq_getLast?, List.getLast?_map, List.getLastD_eq_getLast?]
    cases p.ancestors.getLast? with
    | none => exact (Graph.shift_root offset).symm
    | some last => rfl
  have hcycle : p.cycle.bind ((p.ancestors.map (Graph.shift offset))[·]?) =
      (p.cycle.bind (p.ancestors[·]?)).map (Graph.shift offset) := by
    cases p.cycle with
    | none => rfl
    | some level => exact List.getElem?_map
  have hbelow : p.id + offset + 1 = p.id + 1 + offset := by omega
  simp only [Place.node, Place.shift, Node.shift]
  rw [hparent, hcycle, hbelow, ids_shift p.below (by simp [root])]
  rfl

/-- Laid out behind another forest, a forest has the graph behind that of the other one. -/
theorem toGraph_append (forest behind : Forest) (project : Coordinate) :
    (forest.append behind).toGraph project =
      (forest.toGraph project).append (behind.toGraph project) := by
  have hsize : (forest.toGraph project).size - 1 = forest.size := by
    rw [size_toGraph, Nat.add_sub_cancel]
  have hplaces : (forest.append behind).placesBelow project = forest.placesBelow project ++
      (behind.placesBelow project).map (·.shift forest.size) := by
    have hshift := places_shift behind [project] [root] Nat.one_ne_zero forest.size
    rw [List.map_singleton, Graph.shift_root] at hshift
    rw [placesBelow, places_append, hshift]
    rfl
  have hsome : 0 < (forest.toGraph project).size := by
    rw [size_toGraph]
    exact Nat.succ_pos _
  refine ext_node ?_ fun id hid => ?_
  · rw [Graph.size_append, size_toGraph, size_toGraph, size_toGraph, Forest.size_append]
    omega
  by_cases hroot : id = root
  · rw [hroot, node_append_root hsome, node_toGraph_root, node_toGraph_root, children, children,
      node_toGraph_root, node_toGraph_root, ids_append, hsize, ids_shift behind Nat.one_ne_zero]
  obtain ⟨p, hp, rfl⟩ := exists_mem_placesBelow hid hroot
  rw [node_toGraph_of_mem_places hp]
  rw [hplaces, List.mem_append, List.mem_map] at hp
  rcases hp with hp | ⟨q, hq, rfl⟩
  · rw [node_append_of_ne (id_mem_placesBelow hp).2 hroot, node_toGraph_of_mem_places hp]
  · obtain ⟨hpos, hlt⟩ := id_mem_placesBelow hq
    have hnode := node_append_add hsome hlt (Nat.ne_of_gt hpos)
    rw [hsize] at hnode
    rw [Place.node_shift, ← node_toGraph_of_mem_places hq]
    exact hnode.symm

end Forest

/-! ## Two lists of dependencies -/

section Exec

variable {m : Type → Type} {σ : Type} [Monad m] [Execution m σ] {collector : Collector m}
  {answer : Coordinate → Answer} {s : σ}

/-- The pruning that follows has nothing to detach. -/
theorem exec_unfold_eq_map (collector : Collector m) (limit : Nat) (project : Coordinate)
    (ds : List Declaration) (s : σ) :
    (exec (Graph.unfold collector limit project ds).run s).1 =
      (exec (Forest.ofProject collector limit project ds).run s).1.map (·.toGraph project) := by
  rw [Graph.unfold, exec_run_bind]
  rcases hrun : exec (Forest.ofProject collector limit project ds).run s with ⟨⟨⟩ | forest, t⟩
  · rfl
  · have hunfolds := Forest.unfoldsProject_of_exec collector.answers_anything trivial hrun
    dsimp only
    rw [ExceptT.run_pure, exec_pure, Forest.pruneNestedTests_toGraph hunfolds]
    rfl

/-- **Direct dependencies are unfolded independently**, if the collector answers consistently. The graph
of two lists of dependencies is that of the first with that of the second behind it, and the first
fault of the two is that of both. -/
theorem exec_unfold_append (hconsistent : collector.ConsistentFrom s answer) (limit : Nat)
    (project : Coordinate) (xs ys : List Declaration) :
    (exec (Graph.unfold collector limit project (xs ++ ys)).run s).1 = (do
      let g ← (exec (Graph.unfold collector limit project xs).run s).1
      let h ← (exec (Graph.unfold collector limit project ys).run s).1
      return g.append h) := by
  let table : Collector Id := .ofFunction answer
  have hsame : table.ConsistentFrom () answer := fun _ _ => rfl
  have htable : ∀ ds, (exec (Graph.unfold collector limit project ds).run s).1 =
      (exec (Forest.ofProject table limit project ds).run ()).1.map (·.toGraph project) := fun ds => by
    rw [exec_unfold_eq_map, ofProject_eq_of_consistent hconsistent hsame]
  rw [htable, htable, htable, Forest.ofProject_append, exec_run_bind]
  rcases exec (Forest.ofProject table limit project xs).run () with ⟨fault | forest, ⟨⟩⟩
  · rfl
  · dsimp only
    rw [exec_run_bind]
    rcases exec (Forest.ofProject table limit project ys).run () with ⟨fault | behind, ⟨⟩⟩
    · rfl
    · exact congrArg Except.ok (Forest.toGraph_append forest behind project)

end Exec

/-- What the artifacts of `mutualRequests` declare, where nothing is known about `gone`. -/
def partialAnswer (c : Coordinate) : Answer :=
  if c.name = "gone" then .error ⟨.noDescriptor c none, []⟩ else mutualAnswer c

/-- Below `web` the node 3 asks for `web` again, and below `log` for `log`. Both asked for, the second
marker is the node 6. -/
theorem unfold_append_mutualRequests :
    let unfolded := fun ds =>
      (exec (Graph.unfold (.ofFunction partialAnswer : Collector Id) 3 mutualRequests.coordinate ds).run
        ()).1
    let web : Declaration := { coordinate := ⟨"org", "web", "jar", "1", none⟩ }
    let log : Declaration := { coordinate := ⟨"org", "log", "jar", "1", none⟩, scope := .test }
    let gone : Declaration := { coordinate := ⟨"org", "gone", "jar", "1", none⟩ }
    ∃ g h fault, unfolded [web] = .ok g ∧ unfolded [log] = .ok h ∧ unfolded [gone] = .error fault ∧
      unfolded ([web] ++ [log]) = .ok (g.append h) ∧ unfolded ([web] ++ [gone]) = .error fault ∧
      (h.node 3).cycleOf = some 1 ∧ ((g.append h).node 6).cycleOf = some 4 ∧
      (g.append h).children root = [1, 4] := by
  have hconsistent : (.ofFunction partialAnswer : Collector Id).ConsistentFrom () partialAnswer :=
    fun _ _ => rfl
  have happend := exec_unfold_append hconsistent 3 mutualRequests.coordinate
  refine ⟨_, _, _, rfl, rfl, rfl, happend _ _, happend _ _, ?_, ?_, ?_⟩ <;> decide +kernel

end ArtifactTree
