import ArtifactTree.Mediation
import ArtifactTree.Proofs.Unfolding

/-!
# What management and mediation leave alone

Management writes managed versions and scopes, mediation writes statuses. What a graph is apart from
such marks is read off a graph without them: `Graph.bare` drops all three, `Graph.clearStatuses` the
statuses. A pass leaves the rest alone exactly if it keeps the graph without its marks.

`Graph.IsUnfolding` collects what mediation relies on. It looks at bare nodes only, so it passes from
an unfolded graph to the managed and the mediated one (`IsUnfolding.congr`).
-/

namespace ArtifactTree

/-- The node without what management and mediation recorded on it. -/
def Node.bare (n : Node) : Node :=
  { n with managedVersion := none, managedScope := none, status := .unvisited }

/-- The node without what mediation decided about it. -/
def Node.unjudged (n : Node) : Node := { n with status := .unvisited }

/-- The node is `n`, but for what management and mediation recorded on it. -/
def Node.MarkedFrom (marked n : Node) : Prop :=
  marked = { n with
    managedVersion := marked.managedVersion
    managedScope := marked.managedScope
    status := marked.status }

/-- The node is `n`, but for what mediation decided about it. -/
def Node.JudgedFrom (judged n : Node) : Prop := judged = { n with status := judged.status }

theorem Node.markedFrom_iff {marked n : Node} : marked.MarkedFrom n ↔ marked.bare = n.bare := by
  unfold MarkedFrom
  cases marked
  cases n
  simp [bare]

theorem Node.judgedFrom_iff {judged n : Node} :
    judged.JudgedFrom n ↔ judged.unjudged = n.unjudged := by
  unfold JudgedFrom
  cases judged
  cases n
  simp [unjudged]

namespace Graph

/-- The graph without what management and mediation recorded on it. -/
def bare (g : Graph) : Graph := ⟨g.nodes.map Node.bare⟩

@[simp] theorem size_bare (g : Graph) : g.bare.size = g.size := by simp [bare, size]

@[simp] theorem node_bare (g : Graph) (id : Nat) : g.bare.node id = (g.node id).bare := by
  simp only [node_eq_getElem?, bare, Array.getElem?_map]
  cases g.nodes[id]? <;> rfl

@[simp] theorem size_clearStatuses (g : Graph) : g.clearStatuses.size = g.size := by
  simp [clearStatuses, size]

@[simp] theorem node_clearStatuses (g : Graph) (id : Nat) :
    g.clearStatuses.node id = (g.node id).unjudged := by
  simp only [node_eq_getElem?, clearStatuses, Array.getElem?_map]
  cases g.nodes[id]? <;> rfl

@[simp] theorem bare_clearStatuses (g : Graph) : g.clearStatuses.bare = g.bare := by
  apply ext_node (by simp)
  intro id _
  rw [node_bare, node_clearStatuses, node_bare]
  rfl

@[simp] theorem clearStatuses_clearStatuses (g : Graph) :
    g.clearStatuses.clearStatuses = g.clearStatuses := by
  apply ext_node (by simp)
  intro id _
  simp only [node_clearStatuses]
  rfl

/-- A change of marks keeps the graph without marks. -/
theorem bare_modify {g : Graph} {id : Nat} {f : Node → Node} (h : ∀ n, (f n).bare = n.bare) :
    (g.modify id f).bare = g.bare := by
  apply ext_node (by simp)
  intro other hother
  rw [node_bare, node_bare]
  by_cases hid : other = id
  · subst hid
    rw [node_modify_self f (by simpa using hother), h]
  · rw [node_modify_of_ne f hid]

theorem clearStatuses_modify {g : Graph} {id : Nat} {f : Node → Node}
    (h : ∀ n, (f n).unjudged = n.unjudged) : (g.modify id f).clearStatuses = g.clearStatuses := by
  apply ext_node (by simp)
  intro other hother
  rw [node_clearStatuses, node_clearStatuses]
  by_cases hid : other = id
  · subst hid
    rw [node_modify_self f (by simpa using hother), h]
  · rw [node_modify_of_ne f hid]

@[simp] theorem clearStatuses_setStatus (g : Graph) (id : Nat) (status : Status) :
    (g.setStatus id status).clearStatuses = g.clearStatuses :=
  clearStatuses_modify fun _ => rfl

theorem status_setStatus {g : Graph} {id : Nat} (status : Status) (hid : id < g.size)
    (other : Nat) :
    ((g.setStatus id status).node other).status =
      if other = id then status else (g.node other).status := by
  by_cases h : other = id
  · rw [if_pos h, h, status_setStatus_self status hid]
  · rw [if_neg h, setStatus, node_modify_of_ne _ h]

theorem truncateChildren_eq_self {g : Graph} {id : Nat} (h : g.children id = []) :
    g.truncateChildren id = g := by
  apply modify_eq_self
  rw [← h]
  rfl

section Same

variable {g h : Graph}

theorem size_eq_of_bare (hgh : g.bare = h.bare) : g.size = h.size := by
  simpa using congrArg size hgh

/-- What can be read off bare nodes is the same in both graphs. -/
theorem read_eq_of_bare {α : Type} {read : Node → α} (hread : ∀ n, read n.bare = read n)
    (hgh : g.bare = h.bare) (id : Nat) : read (g.node id) = read (h.node id) := by
  rw [← hread, ← node_bare, hgh, node_bare, hread]

theorem parent_eq_of_bare (hgh : g.bare = h.bare) (id : Nat) :
    (g.node id).parent = (h.node id).parent :=
  read_eq_of_bare (fun _ => rfl) hgh id

theorem children_eq_of_bare (hgh : g.bare = h.bare) (id : Nat) : g.children id = h.children id := by
  rw [children, children]
  exact read_eq_of_bare (fun _ => rfl) hgh id

theorem coordinate_eq_of_bare (hgh : g.bare = h.bare) (id : Nat) :
    (g.node id).coordinate = (h.node id).coordinate :=
  read_eq_of_bare (fun _ => rfl) hgh id

theorem scope_eq_of_bare (hgh : g.bare = h.bare) (id : Nat) :
    (g.node id).scope = (h.node id).scope :=
  read_eq_of_bare (fun _ => rfl) hgh id

theorem cycleOf_eq_of_bare (hgh : g.bare = h.bare) (id : Nat) :
    (g.node id).cycleOf = (h.node id).cycleOf :=
  read_eq_of_bare (fun _ => rfl) hgh id

theorem ancestors_eq_of_bare (hgh : g.bare = h.bare) (id : Nat) : g.ancestors id = h.ancestors id :=
  ancestors_congr (size_eq_of_bare hgh) (parent_eq_of_bare hgh) id

end Same

/-! ## What mediation relies on -/

/-- The graph is a tree as unfolding builds it: markers repeat an ancestor and have nothing below
them, every node has a coordinate, and every node but the root a scope. -/
structure IsUnfolding (g : Graph) (project : Coordinate) : Prop where
  tree : g.IsTree
  coordinate_root : (g.node root).coordinate = some project
  scope_root : (g.node root).scope = none
  coordinate : ∀ {id}, id < g.size → ∃ c, (g.node id).coordinate = some c
  scope : ∀ {id}, id < g.size → id ≠ root → ∃ scope, (g.node id).scope = some scope
  cycleOf_mem : ∀ {id target}, (g.node id).cycleOf = some target → target ∈ g.ancestors id
  marker : ∀ {id target}, (g.node id).cycleOf = some target → g.children id = []

theorem IsUnfolding.congr {g h : Graph} {project : Coordinate} (hg : g.IsUnfolding project)
    (hgh : g.bare = h.bare) : h.IsUnfolding project where
  tree := hg.tree.congr (size_eq_of_bare hgh) (parent_eq_of_bare hgh) (children_eq_of_bare hgh)
  coordinate_root := by rw [← coordinate_eq_of_bare hgh, hg.coordinate_root]
  scope_root := by rw [← scope_eq_of_bare hgh, hg.scope_root]
  coordinate {id} hid := by
    rw [← coordinate_eq_of_bare hgh]
    exact hg.coordinate (size_eq_of_bare hgh ▸ hid)
  scope {id} hid hroot := by
    rw [← scope_eq_of_bare hgh]
    exact hg.scope (size_eq_of_bare hgh ▸ hid) hroot
  cycleOf_mem {id target} hcycle := by
    rw [← cycleOf_eq_of_bare hgh] at hcycle
    rw [← ancestors_eq_of_bare hgh]
    exact hg.cycleOf_mem hcycle
  marker {id target} hcycle := by
    rw [← cycleOf_eq_of_bare hgh] at hcycle
    rw [← children_eq_of_bare hgh]
    exact hg.marker hcycle

theorem IsUnfolding.cycleOf_root {g : Graph} {project : Coordinate} (hg : g.IsUnfolding project) :
    (g.node root).cycleOf = none := by
  cases hcycle : (g.node root).cycleOf with
  | none => rfl
  | some target =>
    have := hg.cycleOf_mem hcycle
    rw [hg.tree.ancestors_root] at this
    cases this

end Graph

namespace Forest

open ArtifactTree.Graph

variable {declares : Coordinate → List Declaration → Prop} {project : Coordinate}
  {dependencies : List Declaration} {forest : Forest}

theorem isUnfolding_toGraph (h : UnfoldsProject declares project dependencies forest) :
    (forest.toGraph project).IsUnfolding project where
  tree := isTree_toGraph forest project
  coordinate_root := by rw [node_toGraph_root, Node.project]
  scope_root := by rw [node_toGraph_root, Node.project]
  coordinate {id} hid := by
    by_cases hroot : id = root
    · exact ⟨project, by rw [hroot, node_toGraph_root, Node.project]⟩
    · obtain ⟨p, hp, rfl⟩ := exists_mem_placesBelow hid hroot
      exact ⟨_, (requests_of_mem_places hp).coordinate⟩
  scope {id} hid hroot := by
    obtain ⟨p, hp, rfl⟩ := exists_mem_placesBelow hid hroot
    exact ⟨_, (requests_of_mem_places hp).scope⟩
  cycleOf_mem := h.cycleOf_mem_ancestors
  marker hcycle := h.children_of_marker (by rw [hcycle]; exact Option.some_ne_none _)

theorem bare_toGraph (forest : Forest) (project : Coordinate) :
    (forest.toGraph project).bare = forest.toGraph project := by
  apply ext_node (by simp)
  intro id hid
  rw [size_bare] at hid
  rw [node_bare]
  by_cases hroot : id = root
  · rw [hroot, node_toGraph_root]
    rfl
  · obtain ⟨p, hp, rfl⟩ := exists_mem_placesBelow hid hroot
    rw [node_toGraph_of_mem_places hp]
    rfl

end Forest

/-! ## Management -/

/-- An override comes from the table, less what the node declares itself. -/
theorem Management.exists_of_override? {t : Management} {n : Node} {o : Override}
    (h : t.override? n = some o) :
    ∃ c stated, n.coordinate = some c ∧ t.get? c.artifactKey = some stated ∧
      o = ⟨stated.forcedVersion c.version, stated.forcedScope n.scope⟩ := by
  obtain ⟨c, hc, h⟩ := Option.bind_eq_some_iff.1 h
  obtain ⟨stated, hstated, h⟩ := Option.bind_eq_some_iff.1 h
  obtain ⟨-, -, h⟩ := Option.bind_eq_some_iff.1 h
  exact ⟨c, stated, hc, hstated, (Option.some.inj h).symm⟩

/-- A version that an override forces is one of the table. -/
theorem Management.exists_entry_of_override? {t : Management} {n : Node} {o : Override}
    (h : t.override? n = some o) {version : String} (hversion : o.version = some version) :
    ∃ entry ∈ t.entries, entry.2.version = some version := by
  obtain ⟨c, stated, -, hstated, rfl⟩ := exists_of_override? h
  obtain ⟨before, after, hentries, -⟩ := List.lookup_eq_some_iff.1 hstated
  refine ⟨(c.artifactKey, stated), ?_, (Option.filter_eq_some_iff.1 hversion).1⟩
  rw [hentries]
  exact List.mem_append_right _ List.mem_cons_self

namespace Graph

theorem manageAt_frame (t : Management) (state : Graph × Nat) {id : Nat} (hid : id ≠ root) :
    (manageAt t state id).1.bare = state.1.bare ∧
      (manageAt t state id).1.node root = state.1.node root := by
  rw [manageAt]
  cases t.override? (state.1.node id) with
  | none => exact ⟨rfl, rfl⟩
  | some o => exact ⟨bare_modify fun _ => rfl, node_modify_of_ne _ hid.symm⟩

/-- Management writes managed values only, and none on the root. -/
theorem manage_frame (g : Graph) (t : Management) :
    (g.manage t).1.bare = g.bare ∧ (g.manage t).1.node root = g.node root := by
  have hfold : ∀ (ids : List Nat) (state : Graph × Nat), (∀ id ∈ ids, id ≠ root) →
      (ids.foldl (manageAt t) state).1.bare = state.1.bare ∧
        (ids.foldl (manageAt t) state).1.node root = state.1.node root := by
    intro ids
    induction ids with
    | nil => intro _ _; exact ⟨rfl, rfl⟩
    | cons id ids ih =>
      intro state hids
      obtain ⟨hbare, hroot⟩ := manageAt_frame t state (hids id List.mem_cons_self)
      obtain ⟨hbare', hroot'⟩ := ih (manageAt t state id) fun other ho =>
        hids other (List.mem_cons_of_mem _ ho)
      exact ⟨hbare'.trans hbare, hroot'.trans hroot⟩
  apply hfold
  intro id hid
  simpa using (List.mem_filter.1 hid).2

theorem managedVersion_manageAt {t : Management} {state : Graph × Nat} {other id : Nat}
    {version : String} (h : ((manageAt t state other).1.node id).managedVersion = some version) :
    (state.1.node id).managedVersion = some version ∨
      ∃ entry ∈ t.entries, entry.2.version = some version := by
  rw [manageAt] at h
  cases ho : t.override? (state.1.node other) with
  | none =>
    rw [ho] at h
    exact .inl h
  | some o =>
    rw [ho] at h
    dsimp only at h
    by_cases hid : id = other
    · subst hid
      by_cases hsize : id < state.1.size
      · rw [node_modify_self _ hsize, Node.managedBy] at h
        cases hversion : o.version with
        | some forced =>
          rw [hversion] at h
          exact .inr (Management.exists_entry_of_override? ho (hversion.trans h))
        | none =>
          rw [hversion] at h
          exact .inl h
      · rw [modify_of_size_le _ (Nat.le_of_not_lt hsize)] at h
        exact .inl h
    · rw [node_modify_of_ne _ hid] at h
      exact .inl h

/-- A managed version was there before or is one of the table. -/
theorem managedVersion_manage {g : Graph} {t : Management} {id : Nat} {version : String}
    (h : ((g.manage t).1.node id).managedVersion = some version) :
    (g.node id).managedVersion = some version ∨
      ∃ entry ∈ t.entries, entry.2.version = some version := by
  have hfold : ∀ (ids : List Nat) (state : Graph × Nat),
      ((ids.foldl (manageAt t) state).1.node id).managedVersion = some version →
      (state.1.node id).managedVersion = some version ∨
        ∃ entry ∈ t.entries, entry.2.version = some version := by
    intro ids
    induction ids with
    | nil =>
      intro _ h
      exact .inl h
    | cons other ids ih =>
      intro state h
      rcases ih _ h with h | h
      · exact managedVersion_manageAt h
      · exact .inr h
  exact hfold _ _ h

end Graph

end ArtifactTree
