import ArtifactTree.Report
import ArtifactTree.Proofs.Mediation.Exploration
import ArtifactTree.Proofs.Mediation.Outcome

/-!
# Mediating again

Mediation forgets all statuses before it starts, so an earlier one leaves no trace (`mediate_congr`). It
may however cut off what is below a marker, and then a second mediation has another graph before it.

What is below a node matters only when that node is included, so cutting off what is below nodes that are
never judged changes no step of a run (`run_cut`). Closed markers are such nodes. Hence a second
mediation ends with the graph that it started from, in every tree.
-/

namespace ArtifactTree

namespace Graph

/-! ## Cuts and other changes -/

theorem cut_setStatus (g : Graph) (ids : List Nat) (id : Nat) (status : Status) :
    (g.setStatus id status).cut ids = (g.cut ids).setStatus id status := by
  apply ext_node (by simp)
  intro other hother
  rw [size_cut, size_setStatus] at hother
  rw [node_cut, setStatus, node_modify g id _ hother, setStatus,
    node_modify _ id _ (by rwa [size_cut]), node_cut]
  by_cases hmem : other ∈ ids
  · simp only [if_pos hmem]
    split <;> rfl
  · simp only [if_neg hmem]

theorem cut_truncateChildren (g : Graph) (ids : List Nat) (id : Nat) :
    (g.truncateChildren id).cut ids = (g.cut ids).truncateChildren id := by
  apply ext_node (by simp)
  intro other _
  rw [node_cut, node_truncateChildren, node_truncateChildren, node_cut]
  by_cases hmem : other ∈ ids
  · simp only [if_pos hmem]
    split <;> rfl
  · simp only [if_neg hmem]

theorem clearStatuses_cut (g : Graph) (ids : List Nat) :
    (g.cut ids).clearStatuses = g.clearStatuses.cut ids := by
  apply ext_node (by simp)
  intro id _
  rw [node_clearStatuses, node_cut, node_cut, node_clearStatuses]
  split <;> rfl

theorem cut_eq_self {g : Graph} {ids : List Nat} (h : ∀ id ∈ ids, g.children id = []) :
    g.cut ids = g := by
  apply ext_node (by simp)
  intro id _
  rw [node_cut]
  split
  next hid =>
    rw [Node.leaf, ← h id hid]
    rfl
  next => rfl

end Graph

namespace Mediation

open ArtifactTree.Graph

/-- The state over the graph without what is below the given nodes. -/
def State.cut (s : State) (ids : List Nat) : State := { s with graph := s.graph.cut ids }

theorem State.met_cut (s : State) (ids : List Nat) : (s.cut ids).met = s.met := rfl

theorem State.queue_cut (s : State) (ids : List Nat) : (s.cut ids).queue = s.queue := rfl

section Cut

variable {s : State} {ids : List Nat}

/-- Of a node, meeting it sees all but its children. -/
theorem meet_cut (s : State) (ids : List Nat) (child : Nat) :
    (s.cut ids).meet child = (s.meet child).cut ids := by
  have hcloses : (s.cut ids).closesCycle child = s.closesCycle child := by
    rw [State.closesCycle, State.closesCycle, State.cut, node_cut]
    split <;> rfl
  have homission : markerOmission ((s.graph.cut ids).node child) =
      markerOmission (s.graph.node child) := by
    rw [node_cut]
    split <;> rfl
  rw [State.meet, State.meet, hcloses, State.met_cut]
  by_cases hmarker : s.closesCycle child = true
  · rw [if_pos hmarker, if_pos hmarker]
    simp only [State.cut, homission, cut_setStatus, cut_truncateChildren]
  · rw [if_neg hmarker, if_neg hmarker]
    by_cases hmet : s.met.contains child = true
    · rw [if_pos hmet, if_pos hmet]
    · rw [if_neg hmet, if_neg hmet]
      rfl

variable {id : Nat} (hid : id ∉ ids)
include hid

theorem include_cut : (s.cut ids).include id = (s.include id).cut ids := by
  have hnode : (s.graph.cut ids).node id = s.graph.node id := by rw [node_cut, if_neg hid]
  have hchildren : ((s.graph.setStatus id .included).cut ids).children id =
      (s.graph.setStatus id .included).children id := by
    rw [children, node_cut, if_neg hid, children]
  simp only [State.include]
  rw [← List.foldl_hom (fun s : State => s.cut ids) fun s child => meet_cut s ids child]
  simp only [State.cut, hnode, ← cut_setStatus, hchildren]

theorem judge_cut : (s.cut ids).judge id = (s.judge id).cut ids := by
  have hnode : (s.graph.cut ids).node id = s.graph.node id := by rw [node_cut, if_neg hid]
  rw [State.judge, State.judge, include_cut hid]
  simp only [State.cut, hnode]
  cases s.winners.omission? (s.graph.node id) with
  | some omission => simp only [cut_setStatus]
  | none => rfl

end Cut

/-- What is below nodes that are never judged does not matter for a run. -/
theorem run_cut {ids : List Nat} (limit : Nat) {s : State} (h : ∀ id ∈ s.judged limit, id ∉ ids) :
    (s.cut ids).run limit = (s.run limit).cut ids := by
  induction limit generalizing s with
  | zero => rfl
  | succ limit ih =>
    rw [State.judged] at h
    rw [State.run, State.run, State.queue_cut]
    cases hq : s.queue with
    | nil => rfl
    | cons id queue =>
      rw [hq] at h
      have hjudge := judge_cut (s := { s with queue }) (h id List.mem_cons_self)
      dsimp only
      rw [← ih fun other hother => h other (List.mem_cons_of_mem id hother), ← hjudge]
      rfl

end Mediation

namespace Graph

open Mediation

theorem mediate_cut {g : Graph} {ids : List Nat} (h : ∀ id ∈ g.judged, id ∉ ids) :
    (g.cut ids).mediate = g.mediate.cut ids := by
  rw [mediate, size_cut, clearStatuses_cut]
  exact congrArg State.graph (run_cut g.size h)

/-- In a tree a second mediation changes nothing. -/
theorem WellLinked.mediate_mediate {g : Graph} (hg : g.WellLinked) : g.mediate.mediate = g.mediate := by
  obtain ⟨included, closed, s, h, hq, hs, hclosed⟩ := hg.exists_explores
  have hframe : g.mediate.clearStatuses = (g.cut closed).clearStatuses := by
    rw [hs, h.frame, clearStatuses_cut]
  have hunjudged : ∀ id ∈ g.judged, id ∉ closed := fun id hid hmem =>
    h.disjoint id hmem ((h.mem_met_iff hq).2 hid)
  have hleaf : ∀ id ∈ closed, g.mediate.children id = [] := fun id hmem =>
    hg.children_mediate_of_closesCycle ((hclosed id).1 hmem)
  calc g.mediate.mediate
    _ = (g.cut closed).mediate := mediate_congr hframe
    _ = g.mediate.cut closed := mediate_cut hunjudged
    _ = g.mediate := cut_eq_self hleaf

/-- **Mediation is repeatable and ignores earlier statuses.** Trees that differ in statuses only are
mediated to one graph, with one report, and a tree that was mediated is left as it is. -/
theorem mediate_repeatable {g : Graph} (hg : g.WellLinked) :
    (∀ h : Graph, h.size = g.size → (∀ id, (h.node id).JudgedFrom (g.node id)) →
      h.mediate = g.mediate ∧ h.mediate.report = g.mediate.report) ∧
    g.mediate.mediate = g.mediate ∧ g.mediate.mediate.report = g.mediate.report := by
  refine ⟨fun h hsize hnodes => ?_, hg.mediate_mediate, by rw [hg.mediate_mediate]⟩
  have hcleared : h.clearStatuses = g.clearStatuses := by
    apply ext_node (by simpa using hsize)
    intro id _
    rw [node_clearStatuses, node_clearStatuses, Node.judgedFrom_iff.1 (hnodes id)]
  have hmediated := mediate_congr hcleared
  exact ⟨hmediated, by rw [hmediated]⟩

/-- The tree carries old statuses, and mediating it cuts off the node 4 below the marker 3. -/
theorem repeatable_strangeTree :
    strangeTree.clearStatuses.mediate = strangeTree.mediate ∧
      strangeTree.mediate.mediate = strangeTree.mediate ∧
      strangeTree.children 3 = [4] ∧ strangeTree.mediate.children 3 = [] ∧
      strangeTree.mediate.mediate.report.cycles = 1 := by
  obtain ⟨hsame, hagain, -⟩ := mediate_repeatable grown_strangeTree.whole.toWellLinked
  refine ⟨(hsame _ (size_clearStatuses _) fun id => ?_).1, hagain, by decide, by decide +kernel, ?_⟩
  · rw [Node.judgedFrom_iff, node_clearStatuses]
    rfl
  · rw [hagain]
    decide +kernel

end Graph

end ArtifactTree
