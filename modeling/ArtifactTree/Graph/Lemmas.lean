import ArtifactTree.Graph.Traversal

/-!
# What each operation does to a node

The view of a graph is `node`. Each operation of the arena is described by the nodes it leaves
behind: the changed one, and all others, which it leaves alone.
-/

namespace ArtifactTree.Graph

/-! ## Reading -/

theorem node_eq_getElem? (g : Graph) (id : Nat) : g.node id = g.nodes[id]?.getD {} := by
  simp [node]

theorem getElem?_nodes {g : Graph} {id : Nat} (h : id < g.size) :
    g.nodes[id]? = some (g.node id) := by
  have h : id < g.nodes.size := h
  simp [node_eq_getElem?, h]

theorem node_of_size_le {g : Graph} {id : Nat} (h : g.size ≤ id) : g.node id = {} := by
  have h : g.nodes.size ≤ id := h
  simp [node_eq_getElem?, h]

/-- Two graphs of one size with the same nodes are the same. -/
theorem ext_node {g h : Graph} (hs : g.size = h.size)
    (hn : ∀ id, id < g.size → g.node id = h.node id) : g = h := by
  have hnodes : g.nodes = h.nodes := by
    apply Array.ext_getElem?
    intro id
    by_cases hid : id < g.size
    · rw [getElem?_nodes hid, getElem?_nodes (hs ▸ hid), hn id hid]
    · have hg : g.nodes.size ≤ id := Nat.le_of_not_lt hid
      have hh : h.nodes.size ≤ id := by simp only [size] at hs; omega
      simp [hg, hh]
  cases g
  cases h
  simp_all

@[simp] theorem size_ofRoot (n : Node) : (ofRoot n).size = 1 := rfl

@[simp] theorem node_ofRoot (n : Node) :
    (ofRoot n).node root = { n with parent := none, children := [] } := rfl

/-! ## Changing one node -/

@[simp] theorem size_modify (g : Graph) (id : Nat) (f : Node → Node) :
    (g.modify id f).size = g.size := by simp [modify, size]

theorem node_modify_self {g : Graph} {id : Nat} (f : Node → Node) (h : id < g.size) :
    (g.modify id f).node id = f (g.node id) := by
  rw [node_eq_getElem?]
  simp [modify, Array.getElem?_modify, getElem?_nodes h]

theorem node_modify_of_ne {g : Graph} {id other : Nat} (f : Node → Node) (h : other ≠ id) :
    (g.modify id f).node other = g.node other := by
  simp [node_eq_getElem?, modify, Array.getElem?_modify, Ne.symm h]

theorem node_modify (g : Graph) (id : Nat) (f : Node → Node) {other : Nat} (h : other < g.size) :
    (g.modify id f).node other = if other = id then f (g.node other) else g.node other := by
  by_cases hid : other = id
  · rw [if_pos hid, ← hid]
    exact node_modify_self f h
  · rw [if_neg hid]
    exact node_modify_of_ne f hid

theorem modify_of_size_le {g : Graph} {id : Nat} (f : Node → Node) (h : g.size ≤ id) :
    g.modify id f = g := by
  apply ext_node (by simp)
  intro other ho
  exact node_modify_of_ne f (by simp at ho; omega)

theorem modify_eq_self {g : Graph} {id : Nat} {f : Node → Node} (h : f (g.node id) = g.node id) :
    g.modify id f = g := by
  apply ext_node (by simp)
  intro other ho
  by_cases hother : other = id
  · subst hother
    rw [node_modify_self f (by simpa using ho), h]
  · exact node_modify_of_ne f hother

@[simp] theorem size_link (g : Graph) (parent child : Nat) :
    (g.link parent child).size = g.size := by simp [link]

@[simp] theorem size_truncateChildren (g : Graph) (id : Nat) :
    (g.truncateChildren id).size = g.size := by simp [truncateChildren]

@[simp] theorem size_keepChildren (g : Graph) (id : Nat) (kept : List Nat) :
    (g.keepChildren id kept).size = g.size := by simp [keepChildren]

@[simp] theorem size_retainChildren (g : Graph) (id : Nat) (keep : Node → Bool) :
    (g.retainChildren id keep).size = g.size := by simp [retainChildren]

@[simp] theorem size_setStatus (g : Graph) (id : Nat) (status : Status) :
    (g.setStatus id status).size = g.size := by simp [setStatus]

theorem children_setStatus (g : Graph) (id : Nat) (status : Status) (other : Nat) :
    (g.setStatus id status).children other = g.children other := by
  by_cases h : other = id
  · subst h
    by_cases hs : other < g.size
    · simp [children, setStatus, node_modify_self _ hs]
    · rw [setStatus, modify_of_size_le _ (Nat.le_of_not_lt hs)]
  · simp [children, setStatus, node_modify_of_ne _ h]

theorem status_setStatus_self {g : Graph} {id : Nat} (status : Status) (h : id < g.size) :
    ((g.setStatus id status).node id).status = status := by
  simp [setStatus, node_modify_self _ h]

/-! ## Adding a node -/

@[simp] theorem size_addChild (g : Graph) (parent : Nat) (n : Node) :
    (g.addChild parent n).size = g.size + 1 := by simp [addChild, link, modify, size]

/-- The new node hangs below its parent and has no children yet. -/
theorem node_addChild_size {g : Graph} {parent : Nat} (n : Node) (h : parent < g.size) :
    (g.addChild parent n).node g.size = { n with parent := some parent, children := [] } := by
  simp only [addChild, link]
  rw [node_modify_of_ne _ (Nat.ne_of_gt h)]
  simp [node_eq_getElem?, size]

/-- All nodes but the parent stay as they are. -/
theorem node_addChild_of_ne {g : Graph} {parent other : Nat} (n : Node) (h : other < g.size)
    (hp : other ≠ parent) : (g.addChild parent n).node other = g.node other := by
  simp only [addChild, link]
  rw [node_modify_of_ne _ hp]
  have hne : other ≠ g.nodes.size := Nat.ne_of_lt h
  simp [node_eq_getElem?, Array.getElem?_push, hne]

/-- The parent lists the new node behind its other children. -/
theorem node_addChild_parent {g : Graph} {parent : Nat} (n : Node) (h : parent < g.size) :
    (g.addChild parent n).node parent =
      { g.node parent with children := g.children parent ++ [g.size] } := by
  have hlt : parent < g.nodes.size := h
  have hne : parent ≠ g.nodes.size := Nat.ne_of_lt h
  simp only [addChild, link]
  rw [node_modify_self _ (by simp only [size, Array.size_push]; omega)]
  simp [node_eq_getElem?, Array.getElem?_push, hne, children]

end ArtifactTree.Graph
