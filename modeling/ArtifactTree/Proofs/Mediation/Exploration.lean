import ArtifactTree.Proofs.Growth
import ArtifactTree.Proofs.Mediation.Progress

/-!
# How far mediation goes in any tree

Mediation may be asked about any tree that grew node by node. There a cycle marker may name any id, one
that was met, one that comes later or one that is not there, and may have children; a node may lack its
coordinate and carry an old status. `Explores` says what a state of mediation knows of such a tree:
which nodes were judged, which were closed as markers of a node met before, and which children of the
node being included are still due. It is kept when a node is omitted (`omitNext`), when one is included
(`includeNext`) and its children are met (`meet`), and so by a run. Nodes that were dropped from the
tree are never met, so all this asks only for links that describe a tree (`WellLinked`).

At the end nothing waits and nothing is due. So all children of the included nodes, and no others, have
a status, and what is no longer reached is below a closed marker (`Graph.Explored`).
-/

namespace ArtifactTree

/-- The node without what is below it. -/
def Node.leaf (n : Node) : Node := { n with children := [] }

namespace Graph

/-! ## Cutting off what is below some nodes -/

/-- The graph without what is below the given nodes. -/
def cut (g : Graph) (ids : List Nat) : Graph := ids.foldl truncateChildren g

theorem cut_snoc (g : Graph) (ids : List Nat) (id : Nat) :
    g.cut (ids ++ [id]) = (g.cut ids).truncateChildren id := by
  rw [cut, List.foldl_append]
  rfl

@[simp] theorem size_cut (g : Graph) (ids : List Nat) : (g.cut ids).size = g.size := by
  induction ids using List.reverseRecOn with
  | nil => rfl
  | append_singleton ids id ih => rw [cut_snoc, size_truncateChildren, ih]

theorem node_truncateChildren (g : Graph) (id other : Nat) :
    (g.truncateChildren id).node other = if other = id then (g.node other).leaf else g.node other := by
  by_cases hother : other = id
  · rw [if_pos hother, hother]
    by_cases hid : id < g.size
    · exact node_modify_self _ hid
    · rw [truncateChildren, modify_of_size_le _ (Nat.le_of_not_lt hid),
        node_of_size_le (Nat.le_of_not_lt hid)]
      rfl
  · rw [if_neg hother, truncateChildren, node_modify_of_ne _ hother]

/-- Nodes keep all but their children, and these too unless they are among those given. -/
theorem node_cut (g : Graph) (ids : List Nat) (id : Nat) :
    (g.cut ids).node id = if id ∈ ids then (g.node id).leaf else g.node id := by
  induction ids using List.reverseRecOn with
  | nil => rfl
  | append_singleton ids last ih =>
    rw [cut_snoc, node_truncateChildren, ih]
    by_cases hlast : id = last
    · simp only [hlast, List.mem_append, List.mem_singleton, or_true, if_true]
      split <;> rfl
    · simp only [hlast, List.mem_append, List.mem_singleton, or_false, if_false]

theorem clearStatuses_truncateChildren (g : Graph) (id : Nat) :
    (g.truncateChildren id).clearStatuses = g.clearStatuses.truncateChildren id := by
  apply ext_node (by simp)
  intro other _
  rw [node_clearStatuses, node_truncateChildren, node_truncateChildren, node_clearStatuses]
  split <;> rfl

theorem status_truncateChildren (g : Graph) (id other : Nat) :
    ((g.truncateChildren id).node other).status = (g.node other).status := by
  rw [node_truncateChildren]
  split <;> rfl

end Graph

namespace Mediation

open ArtifactTree.Graph

theorem State.closesCycle_iff {s : State} {id : Nat} :
    s.closesCycle id = true ↔ ∃ target ∈ s.met, (s.graph.node id).cycleOf = some target := by
  rw [State.closesCycle]
  cases (s.graph.node id).cycleOf with
  | none => simp
  | some target => simp

/-! ## The invariant -/

/-- What mediating `g` has come to: these nodes were judged, these of them included, these children of
included ones were closed as markers, and these are still to be met. -/
structure Explores (g : Graph) (judged included closed due : List Nat) (s : State) : Prop where
  frame : s.graph.clearStatuses = g.clearStatuses.cut closed
  met : s.met.reverse = judged ++ s.queue
  root_met : root ∈ s.met
  sorted : s.met.reverse.Pairwise g.Earlier
  disjoint : ∀ id ∈ closed, id ∉ s.met
  /-- What is due comes after all that was met or closed. -/
  later : ∀ id, id ∈ s.met ∨ id ∈ closed → ∀ child ∈ due, g.Earlier id child
  due_sorted : due.Pairwise g.Earlier
  /-- What was met or closed, and what is due, is the root or stands below an included node. -/
  above : ∀ id, id ∈ s.met ∨ id ∈ closed ∨ id ∈ due →
    id = root ∨ ∃ parent ∈ included, id ∈ g.children parent
  /-- What stands below an included node was met or closed, or is due. -/
  below : ∀ parent ∈ included, ∀ id ∈ g.children parent, id ∈ s.met ∨ id ∈ closed ∨ id ∈ due
  status : ∀ id, (s.graph.node id).status ≠ .unvisited ↔ id ∈ judged ∨ id ∈ closed
  status_included : ∀ id, (s.graph.node id).status = .included ↔ id ∈ included
  status_closed : ∀ id ∈ closed, (s.graph.node id).status = .omitted (markerOmission (g.node id))
  /-- What was closed is a marker of an earlier node that was met. -/
  closes : ∀ id ∈ closed, ∃ target ∈ s.met, (g.node id).cycleOf = some target ∧ g.Earlier target id
  /-- What was met is no such marker. -/
  opens : ∀ id ∈ s.met, ∀ target ∈ s.met, (g.node id).cycleOf = some target → ¬ g.Earlier target id

namespace Explores

variable {g : Graph} {judged included closed due : List Nat} {s : State}

theorem start (hg : g.WellLinked) :
    Explores g [] [] [] [] { graph := g.clearStatuses, met := [root], queue := [root] } where
  frame := clearStatuses_clearStatuses g
  met := rfl
  root_met := List.mem_cons_self
  sorted := List.pairwise_singleton _ _
  disjoint id hid := absurd hid List.not_mem_nil
  later id _ child hchild := absurd hchild List.not_mem_nil
  due_sorted := .nil
  above id hid := by simpa using hid
  below parent hparent := absurd hparent List.not_mem_nil
  status id := by simp [Node.unjudged]
  status_included id := by simp [Node.unjudged]
  status_closed id hid := absurd hid List.not_mem_nil
  closes id hid := absurd hid List.not_mem_nil
  opens id hid target htarget _ hearlier := by
    rw [List.mem_singleton.1 hid, List.mem_singleton.1 htarget] at hearlier
    exact hg.ne_of_earlier hearlier rfl

section Read

variable (h : Explores g judged included closed due s)
include h

theorem mem_met {id : Nat} : id ∈ s.met ↔ id ∈ judged ∨ id ∈ s.queue := by
  rw [← List.mem_reverse, h.met, List.mem_append]

/-- Only judged nodes are included. -/
theorem mem_judged_of_included {id : Nat} (hid : id ∈ included) : id ∈ judged := by
  have hstatus := (h.status_included id).2 hid
  have hvisited : (s.graph.node id).status ≠ .unvisited := by
    rw [hstatus]
    exact Status.noConfusion
  rcases (h.status id).1 hvisited with hjudged | hclosed
  · exact hjudged
  · rw [h.status_closed id hclosed] at hstatus
    cases hstatus

theorem size_eq : s.graph.size = g.size := by
  rw [← size_clearStatuses, h.frame, size_cut, size_clearStatuses]

theorem lt_size (hg : g.WellLinked) {id : Nat} (hid : id ∈ s.met ∨ id ∈ closed ∨ id ∈ due) :
    id < s.graph.size := by
  rw [h.size_eq]
  rcases h.above id hid with rfl | ⟨parent, -, hchild⟩
  · exact hg.size_pos
  · exact (hg.lt_of_mem hchild).2

/-- Of what was not closed, all but the status is as it was. -/
theorem read_eq {α : Type} {read : Node → α} (hread : ∀ n, read n.unjudged = read n) {id : Nat}
    (hid : id ∉ closed) : read (s.graph.node id) = read (g.node id) := by
  rw [← hread, ← node_clearStatuses, h.frame, node_cut, if_neg hid, node_clearStatuses, hread]

end Read

/-! ## Judging a node -/

section Judge

variable {id : Nat} {queue : List Nat}

theorem mem_met_head (h : Explores g judged included closed due s) (hq : s.queue = id :: queue) :
    id ∈ s.met := h.mem_met.2 (.inr (by rw [hq]; exact List.mem_cons_self))

/-- What was judged comes before what waits. -/
theorem earlier_head (h : Explores g judged included closed due s) (hq : s.queue = id :: queue)
    {other : Nat} (hother : other ∈ judged) : g.Earlier other id := by
  have hsorted := h.sorted
  rw [h.met, hq, List.pairwise_append] at hsorted
  exact hsorted.2.2 other hother id List.mem_cons_self

/-- What waits is in order. -/
theorem earlier_queue (h : Explores g judged included closed due s) (hq : s.queue = id :: queue)
    {other : Nat} (hother : other ∈ queue) : g.Earlier id other := by
  have hsorted := h.sorted
  rw [h.met, hq, List.pairwise_append] at hsorted
  exact (List.pairwise_cons.1 hsorted.2.1).1 other hother

/-- What was met or closed comes before the children of the node to be judged. -/
theorem earlier_children (hg : g.WellLinked) (h : Explores g judged included closed due s)
    (hq : s.queue = id :: queue) {other child : Nat} (hother : other ∈ s.met ∨ other ∈ closed)
    (hchild : child ∈ g.children id) : g.Earlier other child := by
  rcases h.above other (hother.imp_right .inl) with rfl | ⟨parent, hparent, hmem⟩
  · exact hg.root_earlier hchild
  · exact hg.earlier_cousin (h.earlier_head hq (h.mem_judged_of_included hparent)) hmem hchild

theorem met_next (h : Explores g judged included closed due s) (hq : s.queue = id :: queue) :
    s.met.reverse = judged ++ [id] ++ queue := by
  rw [h.met, hq, List.append_assoc, List.singleton_append]

section Status

variable (hg : g.WellLinked) (h : Explores g judged included closed due s) (hq : s.queue = id :: queue)
  {status : Status}
include hg h hq

theorem read_status (other : Nat) : ((s.graph.setStatus id status).node other).status =
    if other = id then status else (s.graph.node other).status :=
  status_setStatus status (h.lt_size hg (.inl (h.mem_met_head hq))) other

theorem status_next (hstatus : status ≠ .unvisited) (other : Nat) :
    ((s.graph.setStatus id status).node other).status ≠ .unvisited ↔
      other ∈ judged ++ [id] ∨ other ∈ closed := by
  rw [h.read_status hg hq, List.mem_append, List.mem_singleton]
  by_cases hother : other = id
  · simp [hother, hstatus]
  · simp [hother, h.status other]

theorem status_closed_next : ∀ other ∈ closed,
    ((s.graph.setStatus id status).node other).status =
      .omitted (markerOmission (g.node other)) := by
  intro other hother
  have hne : other ≠ id := fun heq => h.disjoint other hother (heq ▸ h.mem_met_head hq)
  rw [h.read_status hg hq, if_neg hne, h.status_closed other hother]

theorem not_mem_included : id ∉ included := fun hid =>
  hg.ne_of_earlier (h.earlier_head hq (h.mem_judged_of_included hid)) rfl

end Status

/-- A node that is omitted leaves its children alone. -/
theorem omitNext (hg : g.WellLinked) (h : Explores g judged included closed [] s)
    (hq : s.queue = id :: queue) (omission : Omission) :
    Explores g (judged ++ [id]) included closed []
      { s with queue, graph := s.graph.setStatus id (.omitted omission) } := by
  refine ⟨?_, h.met_next hq, h.root_met, h.sorted, h.disjoint, h.later, h.due_sorted, h.above,
    h.below, h.status_next hg hq Status.noConfusion, ?_, h.status_closed_next hg hq, h.closes,
    h.opens⟩
  · rw [clearStatuses_setStatus, h.frame]
  · intro other
    rw [h.read_status hg hq, ← h.status_included]
    by_cases hother : other = id
    · have hold := mt (h.status_included id).1 (h.not_mem_included hg hq)
      simp [hother, hold]
    · rw [if_neg hother]

/-- Of a node that is included, the children are due. -/
theorem includeNext (hg : g.WellLinked) (h : Explores g judged included closed [] s)
    (hq : s.queue = id :: queue) (winners : Winners) :
    Explores g (judged ++ [id]) (included ++ [id]) closed (g.children id)
      { s with queue, winners, graph := s.graph.setStatus id .included } := by
  refine ⟨?_, h.met_next hq, h.root_met, h.sorted, h.disjoint, ?_, ?_, ?_, ?_,
    h.status_next hg hq Status.noConfusion, ?_, h.status_closed_next hg hq, h.closes, h.opens⟩
  · rw [clearStatuses_setStatus, h.frame]
  · exact fun other hother child hchild => h.earlier_children hg hq hother hchild
  · exact List.pairwise_iff_forall_sublist.2 .sibling
  · intro other hother
    rw [← or_assoc] at hother
    rcases hother with hold | hchild
    · refine (h.above other (hold.imp_right .inl)).imp_right ?_
      rintro ⟨parent, hparent, hmem⟩
      exact ⟨parent, List.mem_append_left _ hparent, hmem⟩
    · exact .inr ⟨id, List.mem_append_right _ List.mem_cons_self, hchild⟩
  · intro parent hparent child hchild
    rcases List.mem_append.1 hparent with hparent | hparent
    · refine (h.below parent hparent child hchild).imp_right (.imp_right fun hdue => ?_)
      exact absurd hdue List.not_mem_nil
    · exact .inr (.inr (List.mem_singleton.1 hparent ▸ hchild))
  · intro other
    rw [h.read_status hg hq, List.mem_append, List.mem_singleton, ← h.status_included]
    by_cases hother : other = id
    · simp [hother]
    · simp [hother]

end Judge

/-! ## Meeting a child -/

section Meet

variable {child : Nat}

theorem not_mem_of_due (hg : g.WellLinked) (h : Explores g judged included closed (child :: due) s) :
    child ∉ s.met ∧ child ∉ closed := by
  constructor
  · intro hmet
    exact hg.ne_of_earlier (h.later child (.inl hmet) child List.mem_cons_self) rfl
  · intro hclosed
    exact hg.ne_of_earlier (h.later child (.inr hclosed) child List.mem_cons_self) rfl

theorem closesCycle_iff (hg : g.WellLinked) (h : Explores g judged included closed (child :: due) s) :
    s.closesCycle child = true ↔ ∃ target ∈ s.met, (g.node child).cycleOf = some target := by
  have hcycle : (s.graph.node child).cycleOf = (g.node child).cycleOf :=
    h.read_eq (fun _ => rfl) (h.not_mem_of_due hg).2
  rw [State.closesCycle_iff, hcycle]

/-- A marker of a node that was met is closed. -/
theorem close (hg : g.WellLinked) (h : Explores g judged included closed (child :: due) s) {target : Nat}
    (htarget : target ∈ s.met) (hcycle : (g.node child).cycleOf = some target) :
    Explores g judged included (closed ++ [child]) due
      { s with
        graph := (s.graph.truncateChildren child).setStatus child
          (.omitted (markerOmission (g.node child))) } := by
  obtain ⟨hmet, hclosed⟩ := h.not_mem_of_due hg
  obtain ⟨hfirst, hsorted⟩ := List.pairwise_cons.1 h.due_sorted
  have hsize : child < (s.graph.truncateChildren child).size := by
    rw [size_truncateChildren]
    exact h.lt_size hg (.inr (.inr List.mem_cons_self))
  have hread : ∀ other, (((s.graph.truncateChildren child).setStatus child
      (.omitted (markerOmission (g.node child)))).node other).status =
      if other = child then .omitted (markerOmission (g.node child))
      else (s.graph.node other).status := by
    intro other
    rw [status_setStatus _ hsize, status_truncateChildren]
  have hunvisited : (s.graph.node child).status = .unvisited := by
    by_contra hvisited
    rcases (h.status child).1 hvisited with hjudged | hmem
    · exact hmet (h.mem_met.2 (.inl hjudged))
    · exact hclosed hmem
  -- what is due moves to what was closed
  have hmoved : ∀ id, id ∈ s.met ∨ id ∈ closed ++ [child] ∨ id ∈ due ↔
      id ∈ s.met ∨ id ∈ closed ∨ id ∈ child :: due := by
    intro id
    rw [List.mem_append, List.mem_singleton, List.mem_cons, or_assoc]
  refine ⟨?_, h.met, h.root_met, h.sorted, ?_, ?_, hsorted, fun id hid => h.above id ((hmoved id).1 hid),
    fun parent hparent id hid => (hmoved id).2 (h.below parent hparent id hid), ?_, ?_, ?_, ?_,
    h.opens⟩
  · rw [clearStatuses_setStatus, clearStatuses_truncateChildren, h.frame, cut_snoc]
  · intro id hid
    rcases List.mem_append.1 hid with hid | hid
    · exact h.disjoint id hid
    · exact List.mem_singleton.1 hid ▸ hmet
  · intro id hid next hnext
    rw [List.mem_append, List.mem_singleton, ← or_assoc] at hid
    rcases hid with hid | rfl
    · exact h.later id hid next (List.mem_cons_of_mem _ hnext)
    · exact hfirst next hnext
  · intro id
    rw [hread, List.mem_append, List.mem_singleton]
    by_cases hid : id = child
    · simp [hid]
    · simp [hid, h.status id]
  · intro id
    rw [hread, ← h.status_included]
    by_cases hid : id = child
    · simp [hid, hunvisited]
    · rw [if_neg hid]
  · intro id hid
    rw [hread]
    rcases List.mem_append.1 hid with hid | hid
    · rw [if_neg (ne_of_mem_of_not_mem hid hclosed), h.status_closed id hid]
    · obtain rfl := List.mem_singleton.1 hid
      rw [if_pos rfl]
  · intro id hid
    rcases List.mem_append.1 hid with hid | hid
    · exact h.closes id hid
    · obtain rfl := List.mem_singleton.1 hid
      exact ⟨target, htarget, hcycle, h.later target (.inl htarget) id List.mem_cons_self⟩

/-- Any other child is met. -/
theorem enqueue (hg : g.WellLinked) (h : Explores g judged included closed (child :: due) s)
    (hopen : ∀ target ∈ s.met, (g.node child).cycleOf ≠ some target) :
    Explores g judged included closed due
      { s with met := child :: s.met, queue := s.queue ++ [child] } := by
  obtain ⟨hmet, hclosed⟩ := h.not_mem_of_due hg
  obtain ⟨hfirst, hsorted⟩ := List.pairwise_cons.1 h.due_sorted
  have hlater : ∀ id ∈ s.met, g.Earlier id child := fun id hid =>
    h.later id (.inl hid) child List.mem_cons_self
  -- what is due moves to what was met
  have hmoved : ∀ id, id ∈ child :: s.met ∨ id ∈ closed ∨ id ∈ due ↔
      id ∈ s.met ∨ id ∈ closed ∨ id ∈ child :: due := by
    intro id
    rw [List.mem_cons, List.mem_cons]
    tauto
  refine ⟨h.frame, ?_, List.mem_cons_of_mem _ h.root_met, ?_, ?_, ?_, hsorted,
    fun id hid => h.above id ((hmoved id).1 hid),
    fun parent hparent id hid => (hmoved id).2 (h.below parent hparent id hid), h.status,
    h.status_included, h.status_closed, ?_, ?_⟩
  · rw [List.reverse_cons, h.met, List.append_assoc]
  · rw [List.reverse_cons, List.pairwise_append]
    refine ⟨h.sorted, List.pairwise_singleton _ _, fun id hid last hlast => ?_⟩
    rw [List.mem_singleton.1 hlast]
    exact hlater id (List.mem_reverse.1 hid)
  · intro id hid hmem
    rcases List.mem_cons.1 hmem with rfl | hmem
    · exact hclosed hid
    · exact h.disjoint id hid hmem
  · intro id hid next hnext
    rw [List.mem_cons, or_assoc] at hid
    rcases hid with rfl | hid
    · exact hfirst next hnext
    · exact h.later id hid next (List.mem_cons_of_mem _ hnext)
  · intro id hid
    obtain ⟨target, htarget, hcloses⟩ := h.closes id hid
    exact ⟨target, List.mem_cons_of_mem _ htarget, hcloses⟩
  · intro id hid target htarget hcycle hearlier
    rcases List.mem_cons.1 hid with rfl | hmem
    · rcases List.mem_cons.1 htarget with rfl | htarget
      · exact hg.ne_of_earlier hearlier rfl
      · exact hopen target htarget hcycle
    · rcases List.mem_cons.1 htarget with rfl | htarget
      · exact hg.not_earlier_of_earlier hearlier (hlater id hmem)
      · exact h.opens id hmem target htarget hcycle hearlier

theorem meet (hg : g.WellLinked) (h : Explores g judged included closed (child :: due) s) :
    ∃ closed', Explores g judged included closed' due (s.meet child) := by
  obtain ⟨hmet, hclosed⟩ := h.not_mem_of_due hg
  rw [State.meet]
  by_cases hcloses : s.closesCycle child
  · obtain ⟨target, htarget, hcycle⟩ := (h.closesCycle_iff hg).1 hcloses
    have homission : markerOmission (s.graph.node child) = markerOmission (g.node child) :=
      h.read_eq (fun _ => rfl) hclosed
    rw [if_pos hcloses]
    dsimp only
    rw [homission]
    exact ⟨_, h.close hg htarget hcycle⟩
  · rw [if_neg hcloses, if_neg (by simpa using hmet)]
    refine ⟨_, h.enqueue hg fun target htarget hcycle => hcloses ?_⟩
    exact (h.closesCycle_iff hg).2 ⟨target, htarget, hcycle⟩

theorem foldl_meet (hg : g.WellLinked) (h : Explores g judged included closed due s) :
    ∃ closed', Explores g judged included closed' [] (due.foldl State.meet s) := by
  induction due generalizing closed s with
  | nil => exact ⟨closed, h⟩
  | cons child due ih =>
    obtain ⟨closed', h'⟩ := h.meet hg
    exact ih h'

end Meet

/-! ## The run -/

theorem judge (hg : g.WellLinked) (h : Explores g judged included closed [] s) {id : Nat}
    {queue : List Nat} (hq : s.queue = id :: queue) :
    ∃ included' closed', Explores g (judged ++ [id]) included' closed' []
      ({ s with queue }.judge id) := by
  rw [State.judge]
  cases s.winners.omission? (s.graph.node id) with
  | some omission => exact ⟨included, closed, h.omitNext hg hq omission⟩
  | none =>
    have hopen : id ∉ closed := fun hid => h.disjoint id hid (h.mem_met_head hq)
    have hchildren : (s.graph.setStatus id .included).children id = g.children id := by
      rw [children_setStatus]
      exact h.read_eq (fun _ => rfl) hopen
    dsimp only [State.include]
    rw [hchildren]
    exact ⟨_, (h.includeNext hg hq _).foldl_meet hg⟩

theorem run (hg : g.WellLinked) (h : Explores g judged included closed [] s) (limit : Nat) :
    ∃ included' closed', Explores g (judged ++ s.judged limit) included' closed' [] (s.run limit) ∧
      ((s.run limit).queue = [] ∨ (s.judged limit).length = limit) := by
  induction limit generalizing judged included closed s with
  | zero => exact ⟨included, closed, by rwa [State.judged, List.append_nil], .inr rfl⟩
  | succ limit ih =>
    rw [State.run, State.judged]
    cases hq : s.queue with
    | nil => exact ⟨included, closed, by rwa [List.append_nil], .inl hq⟩
    | cons id queue =>
      obtain ⟨included', closed', h'⟩ := h.judge hg hq
      obtain ⟨included'', closed'', h'', hend⟩ := ih h'
      refine ⟨included'', closed'', ?_, hend.imp_right fun hlength => ?_⟩
      · rwa [List.append_assoc] at h''
      · rw [List.length_cons, hlength]

/-- No node is met twice, and all are in the arena. -/
theorem length_met_le (hg : g.WellLinked) (h : Explores g judged included closed due s) :
    judged.length + s.queue.length ≤ g.size := by
  have hsub : s.met.reverse ⊆ List.range g.size := by
    intro id hid
    rw [List.mem_range, ← h.size_eq]
    exact h.lt_size hg (.inl (List.mem_reverse.1 hid))
  have hnodup : s.met.reverse.Nodup := h.sorted.imp hg.ne_of_earlier
  have hlength := (hnodup.subperm hsub).length_le
  rwa [h.met, List.length_append, List.length_range] at hlength

/-! ## The end of a run -/

section End

variable (h : Explores g judged included closed [] s) (hq : s.queue = [])
include h hq

theorem mem_met_iff {id : Nat} : id ∈ s.met ↔ id ∈ judged := by
  rw [h.mem_met, hq]
  simp

/-- What was closed are the markers of earlier judged nodes below included ones. -/
theorem mem_closed_iff {id : Nat} :
    id ∈ closed ↔ ∃ parent target, (s.graph.node parent).status = .included ∧
      id ∈ g.children parent ∧ (g.node id).cycleOf = some target ∧ target ∈ judged ∧
      g.Earlier target id := by
  constructor
  · intro hid
    obtain ⟨target, htarget, hcycle, hearlier⟩ := h.closes id hid
    rcases h.above id (.inr (.inl hid)) with rfl | ⟨parent, hincluded, hchild⟩
    · exact absurd h.root_met (h.disjoint root hid)
    · exact ⟨parent, target, (h.status_included parent).2 hincluded, hchild, hcycle,
        (h.mem_met_iff hq).1 htarget, hearlier⟩
  · rintro ⟨parent, target, hincluded, hchild, hcycle, htarget, hearlier⟩
    have hreached := h.below parent ((h.status_included parent).1 hincluded) id hchild
    rcases hreached with hmet | hclosed | hdue
    · exact absurd hearlier (h.opens id hmet target ((h.mem_met_iff hq).2 htarget) hcycle)
    · exact hclosed
    · exact absurd hdue List.not_mem_nil

/-- A node has a status exactly if its parent is included. -/
theorem unvisited_iff (hg : g.WellLinked) {id parent : Nat} (hchild : id ∈ g.children parent) :
    (s.graph.node id).status = .unvisited ↔ (s.graph.node parent).status ≠ .included := by
  constructor
  · intro hid hincluded
    refine (h.status id).2 ?_ hid
    have hreached := h.below parent ((h.status_included parent).1 hincluded) id hchild
    rcases hreached with hmet | hclosed | hdue
    · exact .inl ((h.mem_met_iff hq).1 hmet)
    · exact .inr hclosed
    · exact absurd hdue List.not_mem_nil
  · intro hparent
    by_contra hvisited
    have hreached : id ∈ s.met ∨ id ∈ closed :=
      ((h.status id).1 hvisited).imp_left (h.mem_met_iff hq).2
    rcases h.above id (hreached.imp_right .inl) with rfl | ⟨other, hincluded, hother⟩
    · exact hg.root_not_mem parent hchild
    · rw [hg.eq_of_mem_children hother hchild] at hincluded
      exact hparent ((h.status_included parent).2 hincluded)

end End

end Explores

end Mediation

/-! ## The mediated tree -/

namespace Graph

open Mediation

/-- A cycle marker that mediation closes: a child of an included node, of which the target comes earlier
in breadth-first order and was judged. -/
def ClosesCycle (g : Graph) (id : Nat) : Prop :=
  ∃ parent target, (g.mediate.node parent).status = .included ∧ id ∈ g.children parent ∧
    (g.node id).cycleOf = some target ∧ target ∈ g.judged ∧ g.Earlier target id

/-- What mediation made of the graph. It went from the root through the children of the included nodes,
and gave a status to these alone. It closed markers, and changed nothing else. -/
structure Explored (g : Graph) : Prop where
  size : g.mediate.size = g.size
  root_visited : (g.mediate.node root).status ≠ .unvisited
  unvisited_iff : ∀ id, id < g.size → id ≠ root →
    ∃ parent, (g.node id).parent = some parent ∧
      ((g.mediate.node id).status = .unvisited ↔ (g.mediate.node parent).status ≠ .included)
  kept : ∀ id, ¬ g.ClosesCycle id → (g.mediate.node id).JudgedFrom (g.node id)
  closed : ∀ id, g.ClosesCycle id → (g.mediate.node id).JudgedFrom (g.node id).leaf ∧
    (g.mediate.node id).status = .omitted (markerOmission (g.node id))
  /-- All other nodes with a status were judged, in breadth-first order. -/
  mem_judged_iff : ∀ id,
    id ∈ g.judged ↔ (g.mediate.node id).status ≠ .unvisited ∧ ¬ g.ClosesCycle id
  judged_sorted : g.judged.Pairwise g.Earlier
  /-- Before, every node was reachable. -/
  reachable : ∀ id, id < g.size → id ∈ g.preorder
  /-- What is reachable no longer was below a closed marker, and has no status. -/
  unreachable_iff : ∀ id, id < g.size →
    (id ∉ g.mediate.preorder ↔ ∃ marker ∈ g.ancestors id, g.ClosesCycle marker)
  unvisited_of_unreachable : ∀ id, id < g.size → id ∉ g.mediate.preorder →
    (g.mediate.node id).status = .unvisited

namespace WellLinked

variable {g : Graph} (hg : g.WellLinked)
include hg

/-- As many steps as there are nodes come to an end. -/
theorem queue_run_eq_nil :
    (State.run g.size { graph := g.clearStatuses, met := [root], queue := [root] }).queue = [] := by
  obtain ⟨included, closed, h, hend⟩ := (Explores.start hg).run hg g.size
  rcases hend with hend | hlength
  · exact hend
  · have hle := h.length_met_le hg
    rw [List.nil_append, hlength] at hle
    exact List.length_eq_zero_iff.1 (by omega)

/-- Mediation ends with an empty queue, and has closed what closes a cycle. -/
theorem exists_explores : ∃ included closed s, Explores g g.judged included closed [] s ∧
    s.queue = [] ∧ g.mediate = s.graph ∧ ∀ id, id ∈ closed ↔ g.ClosesCycle id := by
  obtain ⟨included, closed, h, -⟩ := (Explores.start hg).run hg g.size
  exact ⟨included, closed, _, h, hg.queue_run_eq_nil, rfl, fun id =>
    h.mem_closed_iff hg.queue_run_eq_nil⟩

theorem status_mediate_root : (g.mediate.node root).status ≠ .unvisited := by
  obtain ⟨included, closed, s, h, hq, hs, -⟩ := hg.exists_explores
  rw [hs, h.status]
  exact .inl ((h.mem_met_iff hq).1 h.root_met)

theorem status_mediate_child {id parent : Nat} (hchild : id ∈ g.children parent) :
    (g.mediate.node id).status = .unvisited ↔ (g.mediate.node parent).status ≠ .included := by
  obtain ⟨included, closed, s, h, hq, hs, -⟩ := hg.exists_explores
  rw [hs]
  exact h.unvisited_iff hq hg hchild

theorem judged_sorted : g.judged.Pairwise g.Earlier := by
  obtain ⟨included, closed, s, h, hq, -, -⟩ := hg.exists_explores
  have hmet := h.met
  rw [hq, List.append_nil] at hmet
  rw [← hmet]
  exact h.sorted

theorem mem_judged_iff (id : Nat) :
    id ∈ g.judged ↔ (g.mediate.node id).status ≠ .unvisited ∧ ¬ g.ClosesCycle id := by
  obtain ⟨included, closed, s, h, hq, hs, hclosed⟩ := hg.exists_explores
  have hdisjoint : id ∈ closed → id ∉ g.judged := fun hid hjudged =>
    h.disjoint id hid ((h.mem_met_iff hq).2 hjudged)
  rw [← hclosed, hs, h.status]
  tauto

/-- Mediation closes the markers that it should, and keeps all other nodes. -/
theorem node_mediate (id : Nat) :
    (¬ g.ClosesCycle id → (g.mediate.node id).JudgedFrom (g.node id)) ∧
    (g.ClosesCycle id → (g.mediate.node id).JudgedFrom (g.node id).leaf ∧
      (g.mediate.node id).status = .omitted (markerOmission (g.node id))) := by
  obtain ⟨included, closed, s, h, hq, hs, hclosed⟩ := hg.exists_explores
  have hnode : (g.mediate.node id).unjudged =
      if id ∈ closed then (g.clearStatuses.node id).leaf else g.clearStatuses.node id := by
    rw [hs, ← node_clearStatuses, h.frame, node_cut]
  rw [← hclosed]
  constructor
  · intro hid
    rw [if_neg hid, node_clearStatuses] at hnode
    exact Node.judgedFrom_iff.2 hnode
  · intro hid
    rw [if_pos hid, node_clearStatuses] at hnode
    refine ⟨Node.judgedFrom_iff.2 hnode, ?_⟩
    rw [hs]
    exact h.status_closed id hid

theorem children_mediate_of_closesCycle {id : Nat} (h : g.ClosesCycle id) :
    g.mediate.children id = [] := by
  rw [children, ((hg.node_mediate id).2 h).1]
  rfl

theorem children_mediate {id : Nat} (h : ¬ g.ClosesCycle id) :
    g.mediate.children id = g.children id := by
  rw [children, (hg.node_mediate id).1 h]
  rfl

theorem wellLinked_mediate : g.mediate.WellLinked := hg.thins (Thins.mediate g)

/-- What was reachable still is, unless it was below a closed marker. -/
theorem reachable_or_below_closed {level id : Nat} (h : g.ReachedAt level id) :
    (∃ level, g.mediate.ReachedAt level id) ∨ ∃ marker ∈ g.ancestors id, g.ClosesCycle marker := by
  induction h with
  | root => exact .inl ⟨0, .root⟩
  | @child level id child above mem ih =>
    rw [hg.ancestors_of_parent (hg.parent_of_mem mem)]
    by_cases hcloses : g.ClosesCycle id
    · exact .inr ⟨id, List.mem_cons_self, hcloses⟩
    · obtain ⟨level, hlevel⟩ | ⟨marker, hmarker, hcloses⟩ := ih
      · exact .inl ⟨level + 1, hlevel.child (hg.children_mediate hcloses ▸ mem)⟩
      · exact .inr ⟨marker, List.mem_cons_of_mem _ hmarker, hcloses⟩

/-- What is still reachable is below no closed marker. -/
theorem not_closesCycle_of_reachedAt {level id : Nat} (h : g.mediate.ReachedAt level id) :
    ∀ marker ∈ g.ancestors id, ¬ g.ClosesCycle marker := by
  induction h with
  | root =>
    intro marker hmarker
    rw [hg.ancestors_of_root] at hmarker
    cases hmarker
  | @child level id child above mem ih =>
    have hchild := ((Thins.mediate g).children id).subset mem
    rw [hg.ancestors_of_parent (hg.parent_of_mem hchild)]
    intro marker hmarker hcloses
    rcases List.mem_cons.1 hmarker with rfl | hmarker
    · rw [hg.children_mediate_of_closesCycle hcloses] at mem
      cases mem
    · exact ih marker hmarker hcloses

/-- Nothing below a closed marker has a status. -/
theorem unvisited_below_closed {level id : Nat} (h : g.ReachedAt level id) :
    (∃ marker ∈ g.ancestors id, g.ClosesCycle marker) →
      (g.mediate.node id).status = .unvisited := by
  induction h with
  | root =>
    rintro ⟨marker, hmarker, -⟩
    rw [hg.ancestors_of_root] at hmarker
    cases hmarker
  | @child level id child above mem ih =>
    rintro ⟨marker, hmarker, hcloses⟩
    rw [hg.ancestors_of_parent (hg.parent_of_mem mem)] at hmarker
    rw [hg.status_mediate_child mem]
    rcases List.mem_cons.1 hmarker with rfl | hmarker
    · rw [((hg.node_mediate marker).2 hcloses).2]
      exact Status.noConfusion
    · rw [ih ⟨marker, hmarker, hcloses⟩]
      exact Status.noConfusion

end WellLinked

theorem Whole.unreachable_iff {g : Graph} (hg : g.Whole) {id : Nat} (hid : id < g.size) :
    id ∉ g.mediate.preorder ↔ ∃ marker ∈ g.ancestors id, g.ClosesCycle marker := by
  constructor
  · intro hgone
    obtain ⟨level, hlevel⟩ := hg.exists_reachedAt hid
    rcases hg.reachable_or_below_closed hlevel with ⟨level, hreached⟩ | hbelow
    · exact absurd (hg.wellLinked_mediate.of_reachedAt hreached).1 hgone
    · exact hbelow
  · rintro ⟨marker, hmarker, hcloses⟩ hmem
    have hreached := hg.wellLinked_mediate.reachedAt_iff.2 ⟨hmem, rfl⟩
    exact hg.not_closesCycle_of_reachedAt hreached marker hmarker hcloses

/-- **Mediation explores exactly below included nodes**, in every tree that grew node by node. -/
theorem explored_of_grown {g : Graph} (h : g.Grown) : g.Explored := by
  have hg := h.whole
  refine ⟨(Thins.mediate g).size, hg.status_mediate_root, ?_, fun id => (hg.node_mediate id).1,
    fun id => (hg.node_mediate id).2, hg.mem_judged_iff, hg.judged_sorted, ?_,
    fun id => hg.unreachable_iff, ?_⟩
  · intro id hid hroot
    obtain ⟨parent, hmem⟩ := hg.exists_listing hid hroot
    exact ⟨parent, hg.parent_of_mem hmem, hg.status_mediate_child hmem⟩
  · intro id hid
    obtain ⟨level, hlevel⟩ := hg.exists_reachedAt hid
    exact (hg.of_reachedAt hlevel).1
  · intro id hid hgone
    obtain ⟨level, hlevel⟩ := hg.exists_reachedAt hid
    exact hg.unvisited_below_closed hlevel ((hg.unreachable_iff hid).1 hgone)

/-- A tree with markers of its root: one names a node that was met and has a child, one names a node
that comes later. The root has an old status, and the last node but one lacks its coordinate. -/
def strangeTree : Graph :=
  let named (name : String) : Node := { coordinate := some ⟨"org", name, "jar", "1", none⟩ }
  Graph.ofRoot { named "app" with cycleOf := some 9, status := .omitted .optional }
    |>.addChild 0 (named "web")
    |>.addChild 1 (named "log")
    |>.addChild 0 { named "app" with cycleOf := some 0 }
    |>.addChild 3 { named "core" with status := .included }
    |>.addChild 0 { named "late" with cycleOf := some 6 }
    |>.addChild 5 {}
    |>.addChild 5 { named "util" with optional := true }

theorem grown_strangeTree : strangeTree.Grown := by
  unfold strangeTree
  repeat' apply Grown.addChild
  · exact .ofRoot _
  all_goals decide

theorem explored_strangeTree :
    strangeTree.Explored ∧ strangeTree.size = 8 ∧
      (strangeTree.mediate.node 3).status = .omitted (.cycle ⟨"org", "app", "jar", "1", none⟩) ∧
      strangeTree.mediate.preorder = [0, 1, 2, 3, 5, 6, 7] := by
  refine ⟨explored_of_grown grown_strangeTree, ?_, ?_, ?_⟩
  · decide
  · decide +kernel
  · decide +kernel

end Graph

end ArtifactTree
