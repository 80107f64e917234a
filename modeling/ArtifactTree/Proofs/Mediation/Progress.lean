import ArtifactTree.Proofs.Mediation.Trace

/-!
# The queue of mediation

`Progress` ties a state of mediation to the trace of what was judged. It is kept by every step of the
queue (`Progress.judge`), and a whole run ends with an empty queue (`exists_progress_mediate`), since
no node is enqueued twice.

The order of the queue is part of it: the nodes judged and waiting are the root and, in order, the
children of the included nodes (`order`), and this list is in breadth-first order (`sorted`), although
no step looks at a depth or compares two ids.
-/

namespace ArtifactTree

namespace Mediation

open ArtifactTree.Graph

/-! ## The statuses that a trace amounts to -/

/-- The status of a node: its verdict if it was judged, an omission if it is a marker below an
included node, and else none. -/
def Trace.status (trace : Trace) (g : Graph) (id : Nat) : Status :=
  match trace.lookup id with
  | some status => status
  | none =>
    if (g.node id).cycleOf ≠ none ∧ ∃ parent ∈ trace.included, id ∈ g.children parent then
      .omitted (markerOmission (g.node id))
    else .unvisited

namespace Trace

variable {g : Graph} {trace : Trace} {id : Nat}

theorem status_of_mem (hnodup : trace.ids.Nodup) {status : Status} (h : (id, status) ∈ trace) :
    trace.status g id = status := by
  rw [Trace.status, (lookup_eq_some_iff hnodup).2 h]

theorem status_of_marker (hid : id ∉ trace.ids) (hcycle : (g.node id).cycleOf ≠ none)
    {parent : Nat} (hparent : parent ∈ trace.included) (hchild : id ∈ g.children parent) :
    trace.status g id = .omitted (markerOmission (g.node id)) := by
  rw [Trace.status, lookup_eq_none hid]
  exact if_pos ⟨hcycle, parent, hparent, hchild⟩

theorem status_of_unmet (hid : id ∉ trace.ids)
    (h : ¬ ((g.node id).cycleOf ≠ none ∧ ∃ parent ∈ trace.included, id ∈ g.children parent)) :
    trace.status g id = .unvisited := by
  rw [Trace.status, lookup_eq_none hid]
  exact if_neg h

theorem lookup_snoc (trace : Trace) (id other : Nat) (status : Status) (hid : id ∉ trace.ids) :
    (trace ++ [(id, status)]).lookup other =
      if other = id then some status else trace.lookup other := by
  rw [List.lookup_append]
  by_cases h : other = id
  · subst h
    simp [lookup_eq_none hid]
  · have hne : (other == id) = false := beq_eq_false_iff_ne.2 h
    simp [List.lookup_cons, h, hne]

theorem status_snoc_omitted (hid : id ∉ trace.ids) (omission : Omission) (other : Nat) :
    Trace.status (trace ++ [(id, .omitted omission)]) g other =
      if other = id then .omitted omission else trace.status g other := by
  rw [Trace.status, lookup_snoc trace id other _ hid, included_snoc_omitted]
  by_cases h : other = id
  · simp [h]
  · rw [if_neg h, if_neg h, Trace.status]

/-- Including a node meets its own children, and nothing else. -/
theorem exists_parent_snoc_iff {other : Nat} (hother : other ∉ g.children id) :
    (∃ parent ∈ trace.included ++ [id], other ∈ g.children parent) ↔
      ∃ parent ∈ trace.included, other ∈ g.children parent := by
  constructor
  · rintro ⟨parent, hparent, hchild⟩
    rcases List.mem_append.1 hparent with hparent | hparent
    · exact ⟨parent, hparent, hchild⟩
    · rw [List.mem_singleton.1 hparent] at hchild
      exact absurd hchild hother
  · rintro ⟨parent, hparent, hchild⟩
    exact ⟨parent, List.mem_append_left _ hparent, hchild⟩

/-- Including a node omits the markers among its children. -/
theorem status_snoc_included (hid : id ∉ trace.ids)
    (hrequests : ∀ other ∈ trace.ids, (g.node other).cycleOf = none)
    (hcycle : (g.node id).cycleOf = none) (other : Nat) :
    Trace.status (trace ++ [(id, .included)]) g other =
      if other ∈ g.children id ∧ (g.node other).cycleOf ≠ none then
        .omitted (markerOmission (g.node other))
      else if other = id then .included else trace.status g other := by
  have hids : ids (trace ++ [(id, .included)]) = trace.ids ++ [id] := ids_append _ _
  by_cases hmarker : other ∈ g.children id ∧ (g.node other).cycleOf ≠ none
  · rw [if_pos hmarker]
    have hincluded : id ∈ included (trace ++ [(id, .included)]) := by
      rw [included_snoc_included]
      exact List.mem_append_right _ List.mem_cons_self
    refine status_of_marker ?_ hmarker.2 hincluded hmarker.1
    rw [hids, List.mem_append, List.mem_singleton, not_or]
    exact ⟨fun h => hmarker.2 (hrequests other h), fun h => hmarker.2 (h ▸ hcycle)⟩
  · rw [if_neg hmarker, Trace.status, lookup_snoc trace id other _ hid]
    by_cases h : other = id
    · simp [h]
    · rw [if_neg h, if_neg h, Trace.status, included_snoc_included]
      have hsame : ((g.node other).cycleOf ≠ none ∧
          ∃ parent ∈ trace.included ++ [id], other ∈ g.children parent) ↔
          ((g.node other).cycleOf ≠ none ∧
            ∃ parent ∈ trace.included, other ∈ g.children parent) := by
        refine and_congr_right fun hother => exists_parent_snoc_iff fun hchild => ?_
        exact hmarker ⟨hchild, hother⟩
      simp only [hsame]

end Trace

/-! ## The nodes that are judged -/

/-- The nodes that a run judges, in the order in which it takes them off the queue. -/
def State.judged : (limit : Nat) → State → List Nat
  | 0, _ => []
  | limit + 1, s =>
    match s.queue with
    | [] => []
    | id :: queue => id :: judged limit ({ s with queue }.judge id)

end Mediation

namespace Graph

open Mediation

/-- The nodes that mediation judges, in the order of its queue. -/
def judged (g : Graph) : List Nat :=
  State.judged g.size { graph := g.clearStatuses, met := [root], queue := [root] }

/-- Mediation does not look at statuses. -/
theorem judged_congr {g h : Graph} (hgh : g.clearStatuses = h.clearStatuses) :
    g.judged = h.judged := by
  rw [judged, judged, size_eq_of_clearStatuses hgh, hgh]

end Graph

namespace Mediation

open ArtifactTree.Graph

/-! ## The invariant of the queue -/

/-- The state is what mediating `g` has come to after judging the nodes of the trace. -/
structure Progress (g : Graph) (trace : Trace) (s : State) : Prop where
  frame : s.graph.clearStatuses = g.clearStatuses
  winners : s.winners = trace.winners g
  met : s.met.reverse = trace.ids ++ s.queue
  judged : Judged g trace
  order : trace.ids ++ s.queue = root :: trace.included.flatMap g.requests
  sorted : (trace.ids ++ s.queue).Pairwise g.Before
  above : ∀ id ∈ trace.ids ++ s.queue, ∀ a ∈ g.ancestors id, a ∈ trace.included
  status : ∀ id, (s.graph.node id).status = trace.status g id

namespace Progress

variable {g : Graph} {project : Coordinate} {trace : Trace} {s : State}

/-- What is judged or waits is the root or was requested by an included node. -/
theorem mem_cases (h : Progress g trace s) {id : Nat} (hid : id ∈ trace.ids ++ s.queue) :
    id = root ∨ ∃ parent ∈ trace.included, id ∈ g.requests parent := by
  rw [h.order, List.mem_cons, List.mem_flatMap] at hid
  exact hid

theorem lt_size (hg : g.IsUnfolding project) (h : Progress g trace s) {id : Nat}
    (hid : id ∈ trace.ids ++ s.queue) : id < g.size := by
  rcases h.mem_cases hid with rfl | ⟨parent, -, hrequest⟩
  · exact hg.tree.size_pos
  · exact (hg.tree.lt_of_mem (mem_unmarked.1 hrequest).1).2

theorem cycleOf_eq_none (hg : g.IsUnfolding project) (h : Progress g trace s) {id : Nat}
    (hid : id ∈ trace.ids ++ s.queue) : (g.node id).cycleOf = none := by
  rcases h.mem_cases hid with rfl | ⟨parent, -, hrequest⟩
  · exact hg.cycleOf_root
  · exact (mem_unmarked.1 hrequest).2

theorem nodup (h : Progress g trace s) : (trace.ids ++ s.queue).Nodup :=
  h.sorted.imp Before.ne

theorem length_le (hg : g.IsUnfolding project) (h : Progress g trace s) :
    trace.length + s.queue.length ≤ g.size := by
  have hsub : trace.ids ++ s.queue ⊆ List.range g.size := fun id hid =>
    List.mem_range.2 (h.lt_size hg hid)
  have hlength := (h.nodup.subperm hsub).length_le
  simpa [Trace.ids] using hlength

theorem start (hg : g.IsUnfolding project) :
    Progress g [] { graph := g.clearStatuses, met := [root], queue := [root] } where
  frame := clearStatuses_clearStatuses g
  winners := rfl
  met := rfl
  judged := .nil
  order := rfl
  sorted := List.pairwise_singleton _ _
  above id hid a ha := by
    rw [List.mem_singleton.1 hid, hg.tree.ancestors_root] at ha
    cases ha
  status id := by
    rw [node_clearStatuses, Trace.status_of_unmet List.not_mem_nil]
    · rfl
    · rintro ⟨-, parent, hparent, -⟩
      cases hparent

section Step

variable {id : Nat} {queue : List Nat}

theorem not_mem_ids (h : Progress g trace s) (hq : s.queue = id :: queue) : id ∉ trace.ids := by
  intro hid
  have hnodup := h.nodup
  rw [hq, List.nodup_append] at hnodup
  exact hnodup.2.2 id hid id List.mem_cons_self rfl

theorem ids_snoc (hq : s.queue = id :: queue) (status : Status) :
    Trace.ids (trace ++ [(id, status)]) ++ queue = trace.ids ++ s.queue := by
  rw [Trace.ids_append, hq, List.append_assoc]
  rfl

theorem omitNext (hg : g.IsUnfolding project) (h : Progress g trace s) (hq : s.queue = id :: queue)
    {omission : Omission} (hverdict : (trace.winners g).verdict (g.node id) = .omitted omission) :
    Progress g (trace ++ [(id, .omitted omission)])
      { s with queue, graph := s.graph.setStatus id (.omitted omission) } where
  frame := by rw [clearStatuses_setStatus, h.frame]
  winners := by rw [Trace.winners_snoc_omitted]; exact h.winners
  met := by rw [ids_snoc hq]; exact h.met
  judged := judged_snoc_iff.2 ⟨h.judged, hverdict.symm⟩
  order := by rw [ids_snoc hq, Trace.included_snoc_omitted]; exact h.order
  sorted := by rw [ids_snoc hq]; exact h.sorted
  above := by rw [ids_snoc hq, Trace.included_snoc_omitted]; exact h.above
  status other := by
    have hid : id < s.graph.size := by
      rw [size_eq_of_clearStatuses h.frame]
      exact h.lt_size hg (by rw [hq]; simp)
    rw [status_setStatus _ hid, Trace.status_snoc_omitted (h.not_mem_ids hq), h.status]

/-- The node to be judged has been met, and so has everything above it. -/
theorem mem_met (h : Progress g trace s) (hq : s.queue = id :: queue) {a : Nat}
    (ha : a ∈ id :: g.ancestors id) : a ∈ s.met := by
  rw [← List.mem_reverse, h.met, hq]
  rcases List.mem_cons.1 ha with rfl | ha
  · exact List.mem_append_right _ List.mem_cons_self
  · refine List.mem_append_left _ ((Trace.included_sublist trace).subset (h.above id ?_ a ha))
    rw [hq]
    exact List.mem_append_right _ List.mem_cons_self

/-- The children of the node to be judged are new. -/
theorem not_mem_met (hg : g.IsUnfolding project) (h : Progress g trace s)
    (hq : s.queue = id :: queue) {c : Nat} (hc : c ∈ g.children id) : c ∉ s.met := by
  rw [← List.mem_reverse, h.met]
  intro hmem
  rcases h.mem_cases hmem with rfl | ⟨parent, hparent, hrequest⟩
  · exact hg.tree.root_not_mem id hc
  · have hsame := hg.tree.mem_children_iff.1 (mem_unmarked.1 hrequest).1
    rw [hg.tree.mem_children_iff.1 hc, Option.some.injEq] at hsame
    exact h.not_mem_ids hq (hsame ▸ (Trace.included_sublist trace).subset hparent)

/-- What was met comes before the children of the node to be judged. -/
theorem before_requests (hg : g.IsUnfolding project) (h : Progress g trace s)
    (hq : s.queue = id :: queue) {a c : Nat} (ha : a ∈ trace.ids ++ s.queue)
    (hc : c ∈ g.requests id) : g.Before a c := by
  have hchild := (mem_unmarked.1 hc).1
  rcases h.mem_cases ha with rfl | ⟨parent, hparent, hrequest⟩
  · exact hg.tree.root_before hchild
  · refine hg.tree.before_cousin ?_ (mem_unmarked.1 hrequest).1 hchild
    have hsorted := h.sorted
    rw [hq, List.pairwise_append] at hsorted
    exact hsorted.2.2 parent ((Trace.included_sublist trace).subset hparent) id List.mem_cons_self

theorem meets (hg : g.IsUnfolding project) (h : Progress g trace s) (hq : s.queue = id :: queue) :
    Meets g (g.children id)
      { s with
        queue, winners := s.winners.note (s.graph.node id),
        graph := s.graph.setStatus id .included }
      ({ s with queue }.include id) := by
  have hframe : (s.graph.setStatus id .included).clearStatuses = g.clearStatuses := by
    rw [clearStatuses_setStatus, h.frame]
  rw [← children_eq_of_clearStatuses hframe]
  refine Meets.foldl hframe ?_ ?_ ?_ ?_ <;> rw [children_eq_of_clearStatuses hframe]
  · exact fun c hc => (hg.tree.lt_of_mem hc).2
  · -- the target of a marker is above it, so it was met
    intro c hc target htarget
    have habove := hg.cycleOf_mem htarget
    rw [hg.tree.ancestors_child hc] at habove
    exact ⟨h.mem_met hq habove, hg.marker htarget⟩
  · exact fun c hc => h.not_mem_met hg hq hc
  · exact (hg.tree.pairwise_children id).imp Nat.ne_of_lt

/-- Everything above a child of the node to be judged is that node or was included. -/
theorem above_requests (hg : g.IsUnfolding project) (h : Progress g trace s)
    (hq : s.queue = id :: queue) {c a : Nat} (hc : c ∈ g.requests id) (ha : a ∈ g.ancestors c) :
    a ∈ trace.included ++ [id] := by
  rw [hg.tree.ancestors_child (mem_unmarked.1 hc).1] at ha
  rcases List.mem_cons.1 ha with rfl | ha
  · exact List.mem_append_right _ List.mem_cons_self
  · refine List.mem_append_left _ (h.above id ?_ a ha)
    rw [hq]
    exact List.mem_append_right _ List.mem_cons_self

theorem includeNext (hg : g.IsUnfolding project) (h : Progress g trace s)
    (hq : s.queue = id :: queue)
    (hverdict : (trace.winners g).verdict (g.node id) = .included) :
    Progress g (trace ++ [(id, .included)]) ({ s with queue }.include id) := by
  have hmeets := h.meets hg hq
  have hid : id ∈ trace.ids ++ s.queue := by
    rw [hq]
    exact List.mem_append_right _ List.mem_cons_self
  -- the children go to the end, so the list of all nodes judged or waiting only grows
  have hids : Trace.ids (trace ++ [(id, .included)]) ++ ({ s with queue }.include id).queue =
      (trace.ids ++ s.queue) ++ g.requests id := by
    rw [hmeets.queue, ← List.append_assoc, ids_snoc hq, requests]
  refine ⟨hmeets.frame, ?_, ?_, ?_, ?_, ?_, ?_, ?_⟩
  · have hnote : s.winners.note (s.graph.node id) = s.winners.note (g.node id) :=
      read_eq_of_unjudged (fun _ => rfl) h.frame id
    rw [hmeets.winners, hnote, h.winners, Trace.winners_snoc_included]
  · rw [hids, hmeets.met, ← h.met, requests]
  · exact judged_snoc_iff.2 ⟨h.judged, hverdict.symm⟩
  · rw [hids, h.order, Trace.included_snoc_included, List.flatMap_append, List.cons_append]
    simp
  · rw [hids, List.pairwise_append]
    refine ⟨h.sorted, ?_, fun a ha c hc => h.before_requests hg hq ha hc⟩
    exact (hg.tree.pairwise_before_children id).sublist List.filter_sublist
  · rw [hids, Trace.included_snoc_included]
    intro other hother a ha
    rcases List.mem_append.1 hother with hother | hother
    · exact List.mem_append_left _ (h.above other hother a ha)
    · exact h.above_requests hg hq hother ha
  · intro other
    have hsize : id < s.graph.size := by
      rw [size_eq_of_clearStatuses h.frame]
      exact h.lt_size hg hid
    rw [hmeets.status, status_setStatus _ hsize, h.status,
      Trace.status_snoc_included (h.not_mem_ids hq)
        (fun other ho => h.cycleOf_eq_none hg (List.mem_append_left _ ho))
        (h.cycleOf_eq_none hg hid)]

theorem judge (hg : g.IsUnfolding project) (h : Progress g trace s) (hq : s.queue = id :: queue) :
    Progress g (trace ++ [(id, (trace.winners g).verdict (g.node id))])
      ({ s with queue }.judge id) := by
  have homission : s.winners.omission? (s.graph.node id) =
      (trace.winners g).omission? (g.node id) := by
    rw [h.winners]
    exact read_eq_of_unjudged (fun _ => rfl) h.frame id
  rw [State.judge, homission]
  cases hcase : (trace.winners g).omission? (g.node id) with
  | some omission =>
    have hverdict : (trace.winners g).verdict (g.node id) = .omitted omission := by
      rw [Winners.verdict, hcase]
    rw [hverdict]
    exact h.omitNext hg hq hverdict
  | none =>
    have hverdict : (trace.winners g).verdict (g.node id) = .included := by
      rw [Winners.verdict, hcase]
    rw [hverdict]
    exact h.includeNext hg hq hverdict

end Step

/-- A run judges one node after another, until the limit or the end of the queue. -/
theorem run (hg : g.IsUnfolding project) (h : Progress g trace s) (limit : Nat) :
    ∃ trace', Progress g trace' (s.run limit) ∧ trace'.ids = trace.ids ++ s.judged limit ∧
      ((s.run limit).queue = [] ∨ trace'.length = trace.length + limit) := by
  induction limit generalizing trace s with
  | zero => exact ⟨trace, h, (List.append_nil _).symm, .inr rfl⟩
  | succ limit ih =>
    rw [State.run, State.judged]
    cases hq : s.queue with
    | nil => exact ⟨trace, h, (List.append_nil _).symm, .inl hq⟩
    | cons id queue =>
      obtain ⟨trace', h', hids, hend⟩ := ih (h.judge hg hq)
      refine ⟨trace', h', ?_, hend.imp_right fun hlength => ?_⟩
      · rw [hids, Trace.ids_append, List.append_assoc]
        rfl
      · rw [hlength, List.length_append, List.length_singleton]
        omega

end Progress

/-- Mediation judges nodes until none is left. -/
theorem exists_progress_mediate {g : Graph} {project : Coordinate} (hg : g.IsUnfolding project) :
    ∃ trace s, Progress g trace s ∧ s.queue = [] ∧ g.mediate = s.graph ∧
      trace.ids = g.judged := by
  obtain ⟨trace, h, hids, hend⟩ := (Progress.start hg).run hg g.size
  refine ⟨trace, _, h, ?_, rfl, hids⟩
  rcases hend with hend | hlength
  · exact hend
  · have := h.length_le hg
    rw [List.length_nil] at hlength
    exact List.length_eq_zero_iff.1 (by omega)

end Mediation

end ArtifactTree
