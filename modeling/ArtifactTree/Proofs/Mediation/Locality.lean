import ArtifactTree.Proofs.Mediation.Exploration

/-!
# What is deeper does not matter

Mediation goes through a tree level by level, so what it decides down to some level does not depend on
anything below. To show this, a run on one tree is followed by a run on another tree that looks like an
upper part of the first (`Mirrors`). A step at a node of that part is a step of both runs; any other
step is hidden from the second run, and comes when that run has ended already.

The part is arbitrary, except that with a node it holds all that was reached on its level and above, and
the ids of the two trees may differ. So the same run lemma says what happens when a tree is cut off at a
level, and what two trees have in common that share only their first level.

Main statement: `status_of_upper_levels`.
-/

namespace ArtifactTree

/-- What a node says itself, without its links to other nodes. -/
def Node.unlinked (n : Node) : Node := { n with parent := none, children := [], cycleOf := none }

namespace Graph

/-- The second graph looks like a part of the first one, of which the node `id` has the id `ρ id`
there. -/
structure Mirrors (part : Nat → Bool) (ρ : Nat → Nat) (g h : Graph) : Prop where
  lt_size : ∀ id, part id → id < g.size ∧ ρ id < h.size
  injective : ∀ a b, part a → part b → ρ a = ρ b → a = b
  node : ∀ id, part id → (h.node (ρ id)).unlinked = (g.node id).unlinked
  children : ∀ id, part id → h.children (ρ id) = ((g.children id).filter part).map ρ
  cycleOf : ∀ id target, part id → part target →
    ((g.node id).cycleOf = some target ↔ (h.node (ρ id)).cycleOf = some (ρ target))

/-- With a node, the part holds all that is reached on its level and above. -/
def Upper (g : Graph) (part : Nat → Bool) : Prop :=
  ∀ a b, part a → (b = root ∨ ∃ parent, b ∈ g.children parent) → g.depth b ≤ g.depth a →
    part b

namespace Mirrors

variable {part : Nat → Bool} {ρ : Nat → Nat} {g h : Graph} {id : Nat}

/-- A change of a node of the part that is made in both graphs. -/
theorem modify (hm : Mirrors part ρ g h) (hid : part id) {f : Node → Node}
    (hnode : (f (h.node (ρ id))).unlinked = (f (g.node id)).unlinked)
    (hchildren : (f (h.node (ρ id))).children = ((f (g.node id)).children.filter part).map ρ)
    (hcycle : ∀ n, (f n).cycleOf = n.cycleOf) :
    Mirrors part ρ (g.modify id f) (h.modify (ρ id) f) := by
  have hsame : ∀ other, part other → (ρ other = ρ id ↔ other = id) := fun other hother =>
    ⟨hm.injective other id hother hid, fun heq => heq ▸ rfl⟩
  have hleft : ∀ other, part other → (g.modify id f).node other =
      if other = id then f (g.node other) else g.node other := fun other hother =>
    node_modify g id f (hm.lt_size other hother).1
  have hright : ∀ other, part other → (h.modify (ρ id) f).node (ρ other) =
      if other = id then f (h.node (ρ other)) else h.node (ρ other) := fun other hother => by
    rw [node_modify h (ρ id) f (hm.lt_size other hother).2]
    simp only [hsame other hother]
  refine ⟨fun other hother => ?_, hm.injective, fun other hother => ?_, fun other hother => ?_,
    fun other target hother htarget => ?_⟩
  · rw [size_modify, size_modify]
    exact hm.lt_size other hother
  · rw [hleft other hother, hright other hother]
    split
    next heq => exact heq ▸ hnode
    next => exact hm.node other hother
  · rw [Graph.children, Graph.children, hleft other hother, hright other hother]
    split
    next heq => exact heq ▸ hchildren
    next => exact hm.children other hother
  · rw [hleft other hother, hright other hother]
    split
    · rw [hcycle, hcycle]
      exact hm.cycleOf other target hother htarget
    · exact hm.cycleOf other target hother htarget

/-- A change of a node outside of the part is not seen. -/
theorem modify_hidden (hm : Mirrors part ρ g h) (hid : ¬ part id) (f : Node → Node) :
    Mirrors part ρ (g.modify id f) h := by
  have hnode : ∀ other, part other → (g.modify id f).node other = g.node other := by
    intro other hother
    refine node_modify_of_ne f ?_
    rintro rfl
    exact hid hother
  refine ⟨fun other hother => ?_, hm.injective, fun other hother => ?_, fun other hother => ?_,
    fun other target hother htarget => ?_⟩
  · rw [size_modify]
    exact hm.lt_size other hother
  · rw [hnode other hother]
    exact hm.node other hother
  · rw [Graph.children, Graph.children, hnode other hother]
    exact hm.children other hother
  · rw [hnode other hother]
    exact hm.cycleOf other target hother htarget

theorem setStatus (hm : Mirrors part ρ g h) (hid : part id) (status : Status) :
    Mirrors part ρ (g.setStatus id status) (h.setStatus (ρ id) status) := by
  refine hm.modify hid ?_ (hm.children id hid) fun _ => rfl
  exact congrArg (fun n : Node => { n with status }) (hm.node id hid)

theorem truncateChildren (hm : Mirrors part ρ g h) (hid : part id) :
    Mirrors part ρ (g.truncateChildren id) (h.truncateChildren (ρ id)) :=
  hm.modify hid (hm.node id hid) rfl fun _ => rfl

/-- Graphs that look alike apart from statuses, without these. -/
theorem clearStatuses (lt_size : ∀ id, part id → id < g.size ∧ ρ id < h.size)
    (injective : ∀ a b, part a → part b → ρ a = ρ b → a = b)
    (node : ∀ id, part id → (h.node (ρ id)).unlinked.unjudged = (g.node id).unlinked.unjudged)
    (children : ∀ id, part id → h.children (ρ id) = ((g.children id).filter part).map ρ)
    (cycleOf : ∀ id target, part id → part target →
      ((g.node id).cycleOf = some target ↔ (h.node (ρ id)).cycleOf = some (ρ target))) :
    Mirrors part ρ g.clearStatuses h.clearStatuses := by
  refine ⟨fun id hid => ?_, injective, fun id hid => ?_, fun id hid => ?_,
    fun id target hid htarget => ?_⟩
  · rw [size_clearStatuses, size_clearStatuses]
    exact lt_size id hid
  · rw [node_clearStatuses, node_clearStatuses]
    exact node id hid
  · rw [Graph.children, Graph.children, node_clearStatuses, node_clearStatuses]
    exact children id hid
  · rw [node_clearStatuses, node_clearStatuses]
    exact cycleOf id target hid htarget

/-- What is read off nodes without their links is the same in both graphs. -/
theorem read_eq {α : Type} {read : Node → α} (hread : ∀ n, read n.unlinked = read n)
    (hm : Mirrors part ρ g h) (hid : part id) : read (h.node (ρ id)) = read (g.node id) := by
  rw [← hread, hm.node id hid, hread]

end Mirrors

end Graph

namespace Mediation

open ArtifactTree.Graph

/-! ## Runs that come to an end -/

theorem run_of_queue_eq_nil {s : State} (hq : s.queue = []) (limit : Nat) : s.run limit = s := by
  cases limit with
  | zero => rfl
  | succ limit => rw [State.run, hq]

theorem run_add (m n : Nat) (s : State) : s.run (m + n) = (s.run m).run n := by
  induction m generalizing s with
  | zero => rw [Nat.zero_add, State.run]
  | succ m ih =>
    rw [Nat.succ_add, State.run, State.run]
    cases hq : s.queue with
    | nil => exact (run_of_queue_eq_nil hq n).symm
    | cons id queue => exact ih _

/-- All runs that came to an end did so in one state. -/
theorem run_eq_run {s : State} {m n : Nat} (hm : (s.run m).queue = []) (hn : (s.run n).queue = []) :
    s.run m = s.run n :=
  calc s.run m
    _ = (s.run m).run n := (run_of_queue_eq_nil hm n).symm
    _ = s.run (m + n) := (run_add m n s).symm
    _ = s.run (n + m) := by rw [Nat.add_comm]
    _ = (s.run n).run m := run_add n m s
    _ = s.run n := run_of_queue_eq_nil hn m

/-! ## Runs side by side -/

/-- The second state is what the first one is on a part of its tree. -/
structure Follows (part : Nat → Bool) (ρ : Nat → Nat) (s t : State) : Prop where
  graph : Mirrors part ρ s.graph t.graph
  met : t.met = (s.met.filter part).map ρ
  queue : t.queue = (s.queue.filter part).map ρ

/-- The children of the node are all in the part, with all that was met so far, or none of them is. -/
def Undivided (part : Nat → Bool) (s : State) (id : Nat) : Prop :=
  (∀ child ∈ s.graph.children id, part child) ∧ (∀ other ∈ s.met, part other) ∨
    ∀ child ∈ s.graph.children id, ¬ part child

theorem winners_meet (s : State) (child : Nat) : (s.meet child).winners = s.winners := by
  rw [State.meet]
  split
  · rfl
  split <;> rfl

theorem winners_foldl_meet (s : State) (due : List Nat) :
    (due.foldl State.meet s).winners = s.winners := by
  induction due generalizing s with
  | nil => rfl
  | cons child due ih =>
    rw [List.foldl_cons, ih, winners_meet]

namespace Follows

variable {part : Nat → Bool} {ρ : Nat → Nat} {s t : State} {child : Nat}

theorem mem_met_iff (h : Follows part ρ s t) (hchild : part child) :
    ρ child ∈ t.met ↔ child ∈ s.met := by
  rw [h.met, List.mem_map]
  constructor
  · rintro ⟨other, hother, heq⟩
    obtain ⟨hmem, hpart⟩ := List.mem_filter.1 hother
    rwa [← h.graph.injective other child hpart hchild heq]
  · exact fun hmem => ⟨child, List.mem_filter.2 ⟨hmem, hchild⟩, rfl⟩

/-- Where nothing outside of the part was met, a node of the part closes a cycle in both runs or in
none. -/
theorem closesCycle_eq (h : Follows part ρ s t) (hmet : ∀ id ∈ s.met, part id)
    (hchild : part child) : t.closesCycle (ρ child) = s.closesCycle child := by
  rw [Bool.eq_iff_iff, State.closesCycle_iff, State.closesCycle_iff]
  constructor
  · rintro ⟨_, htarget, hcycle⟩
    rw [h.met] at htarget
    obtain ⟨target, hmem, rfl⟩ := List.mem_map.1 htarget
    have hmem := (List.mem_filter.1 hmem).1
    exact ⟨target, hmem, (h.graph.cycleOf child target hchild (hmet target hmem)).2 hcycle⟩
  · rintro ⟨target, htarget, hcycle⟩
    have hpart := hmet target htarget
    exact ⟨ρ target, (h.mem_met_iff hpart).2 htarget,
      (h.graph.cycleOf child target hchild hpart).1 hcycle⟩

theorem meet (h : Follows part ρ s t) (hmet : ∀ id ∈ s.met, part id) (hchild : part child) :
    Follows part ρ (s.meet child) (t.meet (ρ child)) := by
  have homission : markerOmission (t.graph.node (ρ child)) = markerOmission (s.graph.node child) :=
    h.graph.read_eq (fun _ => rfl) hchild
  rw [State.meet, State.meet, h.closesCycle_eq hmet hchild, homission]
  by_cases hcloses : s.closesCycle child
  · rw [if_pos hcloses, if_pos hcloses]
    exact ⟨(h.graph.truncateChildren hchild).setStatus hchild _, h.met, h.queue⟩
  rw [if_neg hcloses, if_neg hcloses]
  by_cases hmem : child ∈ s.met
  · rw [if_pos (by simpa using hmem), if_pos (by simpa using (h.mem_met_iff hchild).2 hmem)]
    exact h
  · rw [if_neg (by simpa using hmem), if_neg (by simpa using mt (h.mem_met_iff hchild).1 hmem)]
    refine ⟨h.graph, ?_, ?_⟩
    · rw [List.filter_cons_of_pos hchild, List.map_cons, ← h.met]
    · rw [List.filter_append, List.map_append, ← h.queue, List.filter_cons_of_pos hchild]
      rfl

/-- A node outside of the part is met in the first run only. -/
theorem meet_hidden (h : Follows part ρ s t) (hchild : ¬ part child) :
    Follows part ρ (s.meet child) t := by
  rw [State.meet]
  split
  · exact ⟨(h.graph.modify_hidden hchild _).modify_hidden hchild _, h.met, h.queue⟩
  split
  · exact h
  · refine ⟨h.graph, ?_, ?_⟩
    · rw [List.filter_cons_of_neg hchild, ← h.met]
    · rw [List.filter_append, List.filter_cons_of_neg hchild, List.filter_nil, List.append_nil,
        ← h.queue]

/-! ### Children -/

theorem mem_met_meet {id : Nat} (hid : id ∈ (s.meet child).met) : id ∈ s.met ∨ id = child := by
  rw [State.meet] at hid
  split at hid
  · exact .inl hid
  split at hid
  · exact .inl hid
  · exact (List.mem_cons.1 hid).symm

theorem foldl_meet {due : List Nat} (h : Follows part ρ s t) (hmet : ∀ id ∈ s.met, part id)
    (hdue : ∀ child ∈ due, part child) :
    Follows part ρ (due.foldl State.meet s) ((due.map ρ).foldl State.meet t) := by
  induction due generalizing s t with
  | nil => exact h
  | cons child due ih =>
    obtain ⟨hchild, hdue⟩ := List.forall_mem_cons.1 hdue
    refine ih (h.meet hmet hchild) (fun id hid => ?_) hdue
    rcases mem_met_meet hid with hid | rfl
    · exact hmet id hid
    · exact hchild

theorem foldl_meet_hidden {due : List Nat} (h : Follows part ρ s t)
    (hdue : ∀ child ∈ due, ¬ part child) : Follows part ρ (due.foldl State.meet s) t := by
  induction due generalizing s with
  | nil => exact h
  | cons child due ih =>
    obtain ⟨hchild, hdue⟩ := List.forall_mem_cons.1 hdue
    exact ih (h.meet_hidden hchild) hdue

/-! ### Judging a node -/

/-- A node of the part is judged in both runs, with one outcome. -/
theorem judge {id : Nat} (h : Follows part ρ s t) (hwinners : t.winners = s.winners) (hid : part id)
    (hdue : Undivided part s id) :
    Follows part ρ (s.judge id) (t.judge (ρ id)) ∧
      (t.judge (ρ id)).winners = (s.judge id).winners := by
  have homission : t.winners.omission? (t.graph.node (ρ id)) =
      s.winners.omission? (s.graph.node id) := by
    have hread : ∀ n : Node, s.winners.omission? n.unlinked = s.winners.omission? n := fun _ => rfl
    rw [hwinners, h.graph.read_eq hread hid]
  rw [State.judge, State.judge, homission]
  cases s.winners.omission? (s.graph.node id) with
  | some omission => exact ⟨⟨h.graph.setStatus hid _, h.met, h.queue⟩, hwinners⟩
  | none =>
    have hincluded := h.graph.setStatus hid .included
    have hcoordinate : (t.graph.node (ρ id)).coordinate = (s.graph.node id).coordinate :=
      h.graph.read_eq (fun _ => rfl) hid
    have hversion : (t.graph.node (ρ id)).managedVersion = (s.graph.node id).managedVersion :=
      h.graph.read_eq (fun _ => rfl) hid
    have hscope : (t.graph.node (ρ id)).effectiveScope = (s.graph.node id).effectiveScope :=
      h.graph.read_eq (fun _ => rfl) hid
    dsimp only [State.include]
    rw [winners_foldl_meet, winners_foldl_meet, hcoordinate, hversion, hscope, hwinners,
      hincluded.children id hid, children_setStatus]
    refine ⟨?_, rfl⟩
    rcases hdue with ⟨hdue, hmet⟩ | hdue
    · rw [List.filter_eq_self.2 hdue]
      exact foldl_meet ⟨hincluded, h.met, h.queue⟩ hmet hdue
    · rw [List.filter_eq_nil_iff.2 hdue]
      exact foldl_meet_hidden ⟨hincluded, h.met, h.queue⟩ hdue

/-- A node outside of the part is judged in the first run only. -/
theorem judge_hidden {id : Nat} (h : Follows part ρ s t) (hid : ¬ part id)
    (hdue : ∀ child ∈ s.graph.children id, ¬ part child) : Follows part ρ (s.judge id) t := by
  rw [State.judge]
  cases s.winners.omission? (s.graph.node id) with
  | some omission => exact ⟨h.graph.modify_hidden hid _, h.met, h.queue⟩
  | none =>
    dsimp only [State.include]
    rw [children_setStatus]
    exact foldl_meet_hidden ⟨h.graph.modify_hidden hid _, h.met, h.queue⟩ hdue

end Follows

/-! ## Levels -/

section Levels

variable {part : Nat → Bool} {ρ : Nat → Nat} {g : Graph} {judged included closed : List Nat}
  {s t : State} {id : Nat} {queue : List Nat} (hg : g.WellLinked) (hpart : g.Upper part)
include hg hpart

theorem part_of_earlier (hs : Explores g judged included closed [] s) {other later : Nat}
    (hother : other ∈ s.met) (hearlier : g.Earlier other later) (hlater : part later) :
    part other := by
  refine hpart later other hlater ?_ (hg.depth_le_of_earlier hearlier)
  refine (hs.above other (.inl hother)).imp_right ?_
  rintro ⟨parent, -, hchild⟩
  exact ⟨parent, hchild⟩

/-- The children of the next node are on one level, behind all that was met. -/
theorem undivided (hs : Explores g judged included closed [] s) (hq : s.queue = id :: queue) :
    Undivided part s id := by
  have hopen : id ∉ closed := fun hid => hs.disjoint id hid (hs.mem_met_head hq)
  have hchildren : s.graph.children id = g.children id := hs.read_eq (fun _ => rfl) hopen
  rw [Undivided, hchildren]
  by_cases hnone : ∀ child ∈ g.children id, ¬ part child
  · exact .inr hnone
  · simp only [not_forall, not_not] at hnone
    obtain ⟨child, hmem, hchild⟩ := hnone
    refine .inl ⟨fun sibling hsibling => ?_, fun other hother => ?_⟩
    · have hdepth : g.depth sibling = g.depth child := by
        rw [hg.depth_of_mem hsibling, hg.depth_of_mem hmem]
      exact hpart child sibling hchild (.inr ⟨id, hsibling⟩) (Nat.le_of_eq hdepth)
    · exact part_of_earlier hg hpart hs hother (hs.earlier_children hg hq (.inl hother) hmem) hchild

/-- What is not in the part has no children there. -/
theorem children_hidden (hs : Explores g judged included closed [] s) (hq : s.queue = id :: queue)
    (hid : ¬ part id) : ∀ child ∈ s.graph.children id, ¬ part child := by
  rcases undivided hg hpart hs hq with ⟨-, hmet⟩ | hnone
  · exact absurd (hmet id (hs.mem_met_head hq)) hid
  · exact hnone

namespace Follows

/-- Once the second run has ended, it sees nothing of what the first one does. -/
theorem run_hidden (hs : Explores g judged included closed [] s) (h : Follows part ρ s t)
    (ht : t.queue = []) (limit : Nat) : Follows part ρ (s.run limit) t := by
  induction limit generalizing judged included closed s with
  | zero => exact h
  | succ limit ih =>
    rw [State.run]
    cases hq : s.queue with
    | nil => exact h
    | cons id queue =>
      have hqueue := h.queue
      rw [ht, hq] at hqueue
      have hid : ¬ part id := fun hid => by
        rw [List.filter_cons_of_pos hid] at hqueue
        cases hqueue
      rw [List.filter_cons_of_neg hid, ← ht] at hqueue
      have hdue := children_hidden hg hpart hs hq hid
      obtain ⟨included', closed', hs'⟩ := hs.judge hg hq
      have hnext : Follows part ρ { s with queue } t := ⟨h.graph, h.met, hqueue⟩
      exact ih hs' (hnext.judge_hidden hid hdue)

/-- A run on a tree is followed by a run on the part, which ends when the first one leaves the part. -/
theorem run (hs : Explores g judged included closed [] s) (h : Follows part ρ s t)
    (hwinners : t.winners = s.winners) (limit : Nat) :
    ∃ steps, Follows part ρ (s.run limit) (t.run steps) := by
  induction limit generalizing judged included closed s t with
  | zero => exact ⟨0, h⟩
  | succ limit ih =>
    cases hq : s.queue with
    | nil =>
      rw [run_of_queue_eq_nil hq]
      exact ⟨0, h⟩
    | cons id queue =>
      by_cases hid : part id
      · have hqueue : t.queue = ρ id :: (queue.filter part).map ρ := by
          rw [h.queue, hq, List.filter_cons_of_pos hid, List.map_cons]
        have hdue := undivided hg hpart hs hq
        obtain ⟨included', closed', hs'⟩ := hs.judge hg hq
        have hnext : Follows part ρ { s with queue } { t with queue := (queue.filter part).map ρ } :=
          ⟨h.graph, h.met, rfl⟩
        obtain ⟨hjudge, hwinners'⟩ := hnext.judge hwinners hid hdue
        obtain ⟨steps, hsteps⟩ := ih hs' hjudge hwinners'
        refine ⟨steps + 1, ?_⟩
        rw [State.run, State.run, hq, hqueue]
        exact hsteps
      · -- the queue is in order, so the first run has left the part for good
        have hlater : ∀ other ∈ s.queue, ¬ part other := by
          intro other hother hin
          rw [hq] at hother
          rcases List.mem_cons.1 hother with rfl | hother
          · exact hid hin
          · exact hid (part_of_earlier hg hpart hs (hs.mem_met_head hq)
              (hs.earlier_queue hq hother) hin)
        have hended : t.queue = [] := by
          rw [h.queue, List.filter_eq_nil_iff.2 hlater, List.map_nil]
        exact ⟨0, run_hidden hg hpart hs h hended (limit + 1)⟩

end Follows

end Levels

end Mediation

namespace Graph

open Mediation

variable {g h : Graph} {part : Nat → Bool} {ρ : Nat → Nat}

/-- Mediation of a part is part of the mediation. -/
theorem Mirrors.mediate (hg : g.WellLinked) (hh : h.WellLinked) (hpart : g.Upper part)
    (hroot : part root) (hρ : ρ root = root) (hm : Mirrors part ρ g.clearStatuses h.clearStatuses) :
    Mirrors part ρ g.mediate h.mediate := by
  have hids : [root] = ([root].filter part).map ρ := by
    rw [List.filter_cons_of_pos hroot, List.map_cons, hρ]
    rfl
  obtain ⟨steps, hsteps⟩ := Follows.run hg hpart (Explores.start hg)
    (t := { graph := h.clearStatuses, met := [root], queue := [root] }) ⟨hm, hids, hids⟩ rfl g.size
  have hended := hsteps.queue
  rw [hg.queue_run_eq_nil] at hended
  have hgraph := hsteps.graph
  rwa [run_eq_run hended hh.queue_run_eq_nil] at hgraph

theorem Mirrors.status_eq (hm : Mirrors part ρ g h) {id : Nat} (hid : part id) :
    (h.node (ρ id)).status = (g.node id).status :=
  have hread : ∀ n : Node, n.unlinked.status = n.status := fun _ => rfl
  hm.read_eq hread hid

/-! ## The upper levels of a tree -/

/-- The graph without what is below the nodes of one level. -/
def downTo (g : Graph) (level : Nat) : Graph :=
  g.cut ((List.range g.size).filter fun id => g.depth id = level)

theorem node_downTo {level id : Nat} (hid : id < g.size) : (g.downTo level).node id =
    if g.depth id = level then (g.node id).leaf else g.node id := by
  have hmem : id ∈ (List.range g.size).filter (fun id => g.depth id = level) ↔
      g.depth id = level := by simp [hid]
  rw [downTo, node_cut]
  simp only [hmem]

theorem Thins.downTo (g : Graph) (level : Nat) : g.Thins (g.downTo level) :=
  foldl (fun g => g) truncateChildren _ g

/-- The nodes down to one level. -/
def upTo (g : Graph) (level id : Nat) : Bool := id < g.size ∧ g.depth id ≤ level

theorem upTo_iff {level id : Nat} : g.upTo level id ↔ id < g.size ∧ g.depth id ≤ level :=
  decide_eq_true_iff

theorem upper_upTo (hg : g.WellLinked) (level : Nat) : g.Upper (g.upTo level) := by
  intro a b ha hb hdepth
  refine upTo_iff.2 ⟨?_, Nat.le_trans hdepth (upTo_iff.1 ha).2⟩
  rcases hb with rfl | ⟨parent, hchild⟩
  · exact hg.size_pos
  · exact (hg.lt_of_mem hchild).2

/-- Cut off at one level, a tree looks like its upper levels. -/
theorem mirrors_downTo (hg : g.WellLinked) (level : Nat) :
    Mirrors (g.upTo level) (fun id => id) g.clearStatuses (g.downTo level).clearStatuses := by
  have hnode : ∀ id, g.upTo level id → (g.downTo level).node id =
      if g.depth id = level then (g.node id).leaf else g.node id := fun id hid =>
    node_downTo (upTo_iff.1 hid).1
  refine .clearStatuses (fun id hid => ?_) (fun a b _ _ heq => heq) (fun id hid => ?_)
    (fun id hid => ?_) fun id target hid _ => ?_
  · rw [(Thins.downTo g level).size]
    exact ⟨(upTo_iff.1 hid).1, (upTo_iff.1 hid).1⟩
  · rw [hnode id hid]
    split <;> rfl
  · rw [List.map_id', children, hnode id hid]
    split
    next hlevel =>
      refine (List.filter_eq_nil_iff.2 fun child hchild hpart => ?_).symm
      have hdepth := (upTo_iff.1 hpart).2
      rw [hg.depth_of_mem hchild, hlevel] at hdepth
      exact Nat.not_succ_le_self level hdepth
    next hlevel =>
      have hdepth := Nat.lt_of_le_of_ne (upTo_iff.1 hid).2 hlevel
      refine (List.filter_eq_self.2 fun child hchild => ?_).symm
      exact upTo_iff.2 ⟨(hg.lt_of_mem hchild).2, hg.depth_of_mem hchild ▸ hdepth⟩
  · rw [hnode id hid]
    split <;> rfl

theorem status_downTo (hg : g.WellLinked) {level id : Nat} (hid : g.depth id ≤ level) :
    ((g.downTo level).mediate.node id).status = (g.mediate.node id).status := by
  by_cases hlt : id < g.size
  · have hroot : g.upTo level root := by
      refine upTo_iff.2 ⟨hg.size_pos, ?_⟩
      rw [hg.depth_of_root]
      exact Nat.zero_le level
    have hmirrors := (mirrors_downTo hg level).mediate hg (hg.thins (.downTo g level))
      (upper_upTo hg level) hroot rfl
    exact hmirrors.status_eq (upTo_iff.2 ⟨hlt, hid⟩)
  · have hout : g.size ≤ id := Nat.le_of_not_lt hlt
    have hsize : (g.downTo level).mediate.size ≤ id := by
      rwa [(Thins.mediate _).size, (Thins.downTo g level).size]
    rw [node_of_size_le hsize, node_of_size_le (by rwa [(Thins.mediate g).size])]

/-! ## The first level -/

/-- The second graph has the same project and the same direct dependencies. What is below them may be
anything, and the node `id` has the id `ρ id` there. -/
structure SameFirstLevel (g h : Graph) (ρ : Nat → Nat) : Prop where
  map_root : ρ root = root
  children : h.children root = (g.children root).map ρ
  node : ∀ id ∈ root :: g.children root,
    (h.node (ρ id)).unlinked.unjudged = (g.node id).unlinked.unjudged
  /-- A marker names the same node, or in both graphs one that is deeper. -/
  cycleOf : ∀ id ∈ root :: g.children root, ∀ target ∈ root :: g.children root,
    ((g.node id).cycleOf = some target ↔ (h.node (ρ id)).cycleOf = some (ρ target))

/-- The project and its direct dependencies. -/
def firstLevel (g : Graph) (id : Nat) : Bool := id ∈ root :: g.children root

theorem firstLevel_iff {id : Nat} : g.firstLevel id ↔ id ∈ root :: g.children root :=
  decide_eq_true_iff

theorem depth_le_of_firstLevel (hg : g.WellLinked) {id : Nat} (hid : id ∈ root :: g.children root) :
    id < g.size ∧ g.depth id ≤ 1 := by
  rcases List.mem_cons.1 hid with rfl | hchild
  · exact ⟨hg.size_pos, by simp [hg.depth_of_root]⟩
  · exact ⟨(hg.lt_of_mem hchild).2, by simp [hg.depth_of_mem hchild, hg.depth_of_root]⟩

/-- Only the root has its children on the first level. -/
theorem mem_firstLevel_child (hg : g.WellLinked) {id child : Nat} (hchild : child ∈ g.children id)
    (hdepth : g.depth child ≤ 1) : id = root := by
  by_contra hroot
  have hlt := (hg.lt_of_mem hchild)
  have hpos := hg.depth_pos (Nat.lt_trans hlt.1 hlt.2) hroot
  rw [hg.depth_of_mem hchild] at hdepth
  omega

theorem upper_firstLevel (hg : g.WellLinked) : g.Upper g.firstLevel := by
  intro a b ha hb hdepth
  refine firstLevel_iff.2 ?_
  rcases hb with rfl | ⟨parent, hchild⟩
  · exact List.mem_cons_self
  · have hle := (depth_le_of_firstLevel hg (firstLevel_iff.1 ha)).2
    obtain rfl := mem_firstLevel_child hg hchild (Nat.le_trans hdepth hle)
    exact List.mem_cons_of_mem _ hchild

theorem SameFirstLevel.mem_map (hsame : g.SameFirstLevel h ρ) {id : Nat}
    (hid : id ∈ root :: g.children root) : ρ id ∈ root :: h.children root := by
  rw [hsame.children, ← hsame.map_root, ← List.map_cons, hsame.map_root]
  exact List.mem_map_of_mem hid

section Same

variable (hg : g.WellLinked) (hh : h.WellLinked) (hsame : g.SameFirstLevel h ρ)
include hg hh hsame

theorem mirrors_firstLevel :
    Mirrors g.firstLevel ρ g.clearStatuses (h.downTo 1).clearStatuses := by
  have hnode : ∀ id, g.firstLevel id → (h.downTo 1).node (ρ id) =
      if h.depth (ρ id) = 1 then (h.node (ρ id)).leaf else h.node (ρ id) := fun id hid =>
    node_downTo (depth_le_of_firstLevel hh (hsame.mem_map (firstLevel_iff.1 hid))).1
  refine .clearStatuses (fun id hid => ?_) (fun a b ha hb heq => ?_) (fun id hid => ?_)
    (fun id hid => ?_) fun id target hid htarget => ?_
  · rw [(Thins.downTo h 1).size]
    exact ⟨(depth_le_of_firstLevel hg (firstLevel_iff.1 hid)).1,
      (depth_le_of_firstLevel hh (hsame.mem_map (firstLevel_iff.1 hid))).1⟩
  · have hnodup : ((root :: g.children root).map ρ).Nodup := by
      rw [List.map_cons, hsame.map_root, ← hsame.children]
      exact List.nodup_cons.2 ⟨hh.root_not_mem root, hh.nodup_children root⟩
    exact List.inj_on_of_nodup_map hnodup (firstLevel_iff.1 ha) (firstLevel_iff.1 hb) heq
  · rw [hnode id hid, ← hsame.node id (firstLevel_iff.1 hid)]
    split <;> rfl
  · rw [children, hnode id hid]
    rcases List.mem_cons.1 (firstLevel_iff.1 hid) with rfl | hchild
    · have hall : ∀ child ∈ g.children root, g.firstLevel child := fun child hchild =>
        firstLevel_iff.2 (List.mem_cons_of_mem _ hchild)
      rw [hsame.map_root, hh.depth_of_root, if_neg Nat.zero_ne_one, List.filter_eq_self.2 hall]
      exact hsame.children
    · have hmem : ρ id ∈ h.children root := by
        rw [hsame.children]
        exact List.mem_map_of_mem hchild
      have hnone : ∀ child ∈ g.children id, ¬ g.firstLevel child := by
        intro child hbelow hpart
        have hdepth := (depth_le_of_firstLevel hg (firstLevel_iff.1 hpart)).2
        rw [mem_firstLevel_child hg hbelow hdepth] at hchild
        exact hg.root_not_mem root hchild
      rw [hh.depth_of_mem hmem, hh.depth_of_root, if_pos rfl, List.filter_eq_nil_iff.2 hnone]
      rfl
  · rw [hsame.cycleOf id (firstLevel_iff.1 hid) target (firstLevel_iff.1 htarget), hnode id hid]
    split <;> rfl

theorem status_firstLevel {id : Nat} (hid : id ∈ root :: g.children root) :
    (h.mediate.node (ρ id)).status = (g.mediate.node id).status := by
  have hdepth := (depth_le_of_firstLevel hh (hsame.mem_map hid)).2
  have hmirrors := (mirrors_firstLevel hg hh hsame).mediate hg (hh.thins (.downTo h 1))
    (upper_firstLevel hg) (firstLevel_iff.2 List.mem_cons_self) hsame.map_root
  rw [← status_downTo hh hdepth]
  exact hmirrors.status_eq (firstLevel_iff.2 hid)

end Same

/-- **What is deeper does not matter.** In every tree, cutting off what is below one level leaves the
outcomes down to that level as they are. So the outcomes of the direct dependencies depend on the
project and the direct dependencies alone. -/
theorem status_of_upper_levels (hg : g.WellLinked) :
    (∀ level id, g.depth id ≤ level →
      ((g.downTo level).mediate.node id).status = (g.mediate.node id).status) ∧
    ∀ (h : Graph) (ρ : Nat → Nat), h.WellLinked → g.SameFirstLevel h ρ →
      ∀ id ∈ root :: g.children root,
        (h.mediate.node (ρ id)).status = (g.mediate.node id).status :=
  ⟨fun _ _ => status_downTo hg, fun _ _ hh hsame _ => status_firstLevel hg hh hsame⟩

/-- A tree with the first level of `strangeTree`, and other nodes below it. -/
def strangeTwin : Graph :=
  let named (name : String) : Node := { coordinate := some ⟨"org", name, "jar", "1", none⟩ }
  Graph.ofRoot { named "app" with cycleOf := some 9 }
    |>.addChild 0 (named "web")
    |>.addChild 0 { named "app" with cycleOf := some 0 }
    |>.addChild 0 { named "late" with cycleOf := some 7 }
    |>.addChild 1 { named "late" with optional := true }
    |>.addChild 2 (named "core")

theorem grown_strangeTwin : strangeTwin.Grown := by
  unfold strangeTwin
  repeat' apply Grown.addChild
  · exact .ofRoot _
  all_goals decide

theorem status_strangeTwin :
    ((strangeTree.downTo 1).mediate.node 5).status = (strangeTree.mediate.node 5).status ∧
      (strangeTwin.mediate.node 2).status = (strangeTree.mediate.node 3).status ∧
      (strangeTwin.mediate.node 3).status = (strangeTree.mediate.node 5).status ∧
      (strangeTree.mediate.node 3).status = .omitted (.cycle ⟨"org", "app", "jar", "1", none⟩) ∧
      strangeTree.children 5 = [6, 7] ∧ (strangeTree.downTo 1).children 5 = [] := by
  obtain ⟨hcut, htwin⟩ := status_of_upper_levels grown_strangeTree.whole.toWellLinked
  have hsame : strangeTree.SameFirstLevel strangeTwin fun id => (id + 1) / 2 :=
    ⟨rfl, by decide, by decide +kernel, by decide +kernel⟩
  have hstatus := htwin strangeTwin _ grown_strangeTwin.whole.toWellLinked hsame
  exact ⟨hcut 1 5 (by decide), hstatus 3 (by decide), hstatus 5 (by decide), by decide +kernel,
    by decide, by decide⟩

end Graph

end ArtifactTree
