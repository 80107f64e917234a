import ArtifactTree.Proofs.Frame
import Mathlib.Data.List.Induction
import Mathlib.Data.List.Perm.Subperm

/-!
# What mediation decides, in the order in which it decides

A `Trace` lists the nodes that were judged with their verdicts, in the order of the queue. Everything
else that mediation keeps follows from it: the winners are the included nodes of the trace, the nodes
still to be judged are the children of the included ones, and the cycle markers among these children
are omitted without being judged.

Every verdict was reached against the winners before it (`Judged`), and what meeting the children of
an included node does is read off the children alone (`Meets`).
-/

namespace ArtifactTree

namespace Graph

/-- Those of the nodes that are no cycle markers. -/
def unmarked (g : Graph) (ids : List Nat) : List Nat := ids.filter fun id => (g.node id).cycleOf = none

def requests (g : Graph) (id : Nat) : List Nat := g.unmarked (g.children id)

theorem mem_unmarked {g : Graph} {ids : List Nat} {id : Nat} :
    id ∈ g.unmarked ids ↔ id ∈ ids ∧ (g.node id).cycleOf = none := by simp [unmarked]

theorem unmarked_cons_of_marker {g : Graph} {id : Nat} (ids : List Nat)
    (h : (g.node id).cycleOf ≠ none) : g.unmarked (id :: ids) = g.unmarked ids :=
  List.filter_cons_of_neg (by simpa using h)

theorem unmarked_cons_of_request {g : Graph} {id : Nat} (ids : List Nat)
    (h : (g.node id).cycleOf = none) : g.unmarked (id :: ids) = id :: g.unmarked ids :=
  List.filter_cons_of_pos (by simpa using h)

/-! ## Graphs that differ in statuses only -/

section Unjudged

variable {g h : Graph}

/-- What can be read off nodes without statuses is the same in both graphs. -/
theorem read_eq_of_unjudged {α : Type} {read : Node → α} (hread : ∀ n, read n.unjudged = read n)
    (hgh : g.clearStatuses = h.clearStatuses) (id : Nat) : read (g.node id) = read (h.node id) := by
  rw [← hread, ← node_clearStatuses, hgh, node_clearStatuses, hread]

theorem size_eq_of_clearStatuses (hgh : g.clearStatuses = h.clearStatuses) : g.size = h.size := by
  simpa using congrArg Graph.size hgh

theorem children_eq_of_clearStatuses (hgh : g.clearStatuses = h.clearStatuses) (id : Nat) :
    g.children id = h.children id := by
  rw [children, children]
  exact read_eq_of_unjudged (fun _ => rfl) hgh id

theorem cycleOf_eq_of_clearStatuses (hgh : g.clearStatuses = h.clearStatuses) (id : Nat) :
    (g.node id).cycleOf = (h.node id).cycleOf :=
  read_eq_of_unjudged (fun _ => rfl) hgh id

end Unjudged

end Graph

namespace Mediation

open ArtifactTree.Graph

/-! ## Judging against winners -/

/-- The status that a node gets against winners. -/
def Winners.verdict (w : Winners) (n : Node) : Status :=
  match w.omission? n with
  | some omission => .omitted omission
  | none => .included

def Winners.note (w : Winners) (n : Node) : Winners :=
  match n.coordinate with
  | some c => w.add c (n.managedVersion.getD c.version) n.effectiveScope
  | none => w

/-- The nodes that were judged and what they got, in the order of the queue. -/
abbrev Trace := List (Nat × Status)

namespace Trace

/-- The nodes that were judged. -/
def ids (trace : Trace) : List Nat := trace.map (·.1)

def included (trace : Trace) : List Nat := (trace.filter (·.2 = .included)).map (·.1)

/-- What is known about the included nodes. -/
def winners (trace : Trace) (g : Graph) : Winners :=
  trace.included.foldl (fun w id => w.note (g.node id)) {}

theorem ids_append (trace trace' : Trace) : ids (trace ++ trace') = trace.ids ++ trace'.ids := by
  simp [ids]

theorem included_append (trace trace' : Trace) :
    included (trace ++ trace') = trace.included ++ trace'.included := by simp [included]

theorem included_snoc_included (trace : Trace) (id : Nat) :
    included (trace ++ [(id, .included)]) = trace.included ++ [id] := by
  rw [included_append]
  rfl

theorem included_snoc_omitted (trace : Trace) (id : Nat) (omission : Omission) :
    included (trace ++ [(id, .omitted omission)]) = trace.included := by
  rw [included_append, included, included]
  exact List.append_nil _

theorem mem_included {trace : Trace} {id : Nat} :
    id ∈ trace.included ↔ (id, Status.included) ∈ trace := by
  simp [included]

theorem mem_ids {trace : Trace} {id : Nat} : id ∈ trace.ids ↔ ∃ status, (id, status) ∈ trace := by
  simp [ids]

theorem included_sublist (trace : Trace) : trace.included.Sublist trace.ids :=
  List.filter_sublist.map _

theorem winners_snoc_included (trace : Trace) (id : Nat) (g : Graph) :
    winners (trace ++ [(id, .included)]) g = (trace.winners g).note (g.node id) := by
  rw [winners, included_snoc_included, List.foldl_append]
  rfl

theorem winners_snoc_omitted (trace : Trace) (id : Nat) (omission : Omission) (g : Graph) :
    winners (trace ++ [(id, .omitted omission)]) g = trace.winners g := by
  rw [winners, included_snoc_omitted, winners]

/-- Of nodes that are judged once, each has one verdict. -/
theorem lookup_eq_some_iff {trace : Trace} (h : trace.ids.Nodup) {id : Nat} {status : Status} :
    trace.lookup id = some status ↔ (id, status) ∈ trace := by
  constructor
  · intro hlookup
    obtain ⟨_, _, rfl, -⟩ := List.lookup_eq_some_iff.1 hlookup
    simp
  · intro hmem
    obtain ⟨before, after, rfl⟩ := List.append_of_mem hmem
    refine List.lookup_eq_some_iff.2 ⟨before, after, rfl, ?_⟩
    intro entry hentry
    rw [ids_append, List.nodup_append] at h
    have := h.2.2 entry.1 (List.mem_map_of_mem hentry) id List.mem_cons_self
    simpa using Ne.symm this

theorem lookup_eq_none {trace : Trace} {id : Nat} (h : id ∉ trace.ids) : trace.lookup id = none := by
  rw [List.lookup_eq_none_iff]
  rintro ⟨other, status⟩ hmem
  simp only [bne_iff_ne, ne_eq]
  rintro rfl
  exact h (mem_ids.2 ⟨status, hmem⟩)

end Trace

/-- Every verdict of the trace was reached against the winners of the trace before it. -/
inductive Judged (g : Graph) : Trace → Prop
  | nil : Judged g []
  | snoc {trace : Trace} {id : Nat} (before : Judged g trace) :
    Judged g (trace ++ [(id, (trace.winners g).verdict (g.node id))])

theorem judged_snoc_iff {g : Graph} {trace : Trace} {id : Nat} {status : Status} :
    Judged g (trace ++ [(id, status)]) ↔
      Judged g trace ∧ status = (trace.winners g).verdict (g.node id) := by
  constructor
  · intro h
    generalize heq : trace ++ [(id, status)] = whole at h
    cases h with
    | nil => simp at heq
    | snoc before =>
      obtain ⟨rfl, hlast⟩ := List.append_inj' heq rfl
      simp only [List.cons.injEq, Prod.mk.injEq, and_true] at hlast
      obtain ⟨rfl, rfl⟩ := hlast
      exact ⟨before, rfl⟩
  · rintro ⟨before, rfl⟩
    exact .snoc before

theorem Judged.of_append {g : Graph} {trace trace' : Trace} (h : Judged g (trace ++ trace')) :
    Judged g trace := by
  induction trace' using List.reverseRecOn with
  | nil => rwa [List.append_nil] at h
  | append_singleton trace' entry ih =>
    rw [← List.append_assoc] at h
    exact ih (judged_snoc_iff.1 h).1

/-- Each entry got its verdict against the winners before it. -/
theorem Judged.verdict {g : Graph} {before after : Trace} {id : Nat} {status : Status}
    (h : Judged g (before ++ (id, status) :: after)) :
    status = (before.winners g).verdict (g.node id) := by
  rw [List.append_cons] at h
  exact (judged_snoc_iff.1 h.of_append).2

/-! ## Meeting the children of an included node -/

/-- What meeting the children `cs` of an included node does to a state over the nodes of `g`: the
markers among them are omitted, the others are enqueued. -/
structure Meets (g : Graph) (cs : List Nat) (s s' : State) : Prop where
  frame : s'.graph.clearStatuses = g.clearStatuses
  winners : s'.winners = s.winners
  met : s'.met.reverse = s.met.reverse ++ g.unmarked cs
  queue : s'.queue = s.queue ++ g.unmarked cs
  status : ∀ id, (s'.graph.node id).status =
    if id ∈ cs ∧ (g.node id).cycleOf ≠ none then .omitted (markerOmission (g.node id))
    else (s.graph.node id).status

namespace Meets

variable {g : Graph} {s : State}

theorem nil (hframe : s.graph.clearStatuses = g.clearStatuses) : Meets g [] s s where
  frame := hframe
  winners := rfl
  met := by simp [unmarked]
  queue := by simp [unmarked]
  status id := by simp

theorem cons {c : Nat} {cs : List Nat} {s' s'' : State} (hfirst : Meets g [c] s s')
    (hrest : Meets g cs s' s'') (hnew : c ∉ cs) : Meets g (c :: cs) s s'' where
  frame := hrest.frame
  winners := hrest.winners.trans hfirst.winners
  met := by
    rw [hrest.met, hfirst.met, List.append_assoc, unmarked, unmarked, ← List.filter_append]
    rfl
  queue := by
    rw [hrest.queue, hfirst.queue, List.append_assoc, unmarked, unmarked, ← List.filter_append]
    rfl
  status id := by
    rw [hrest.status, hfirst.status]
    by_cases hid : id = c
    · subst hid
      simp [hnew]
    · simp [hid]

/-- A marker of a node that was met is omitted at once. -/
theorem of_marker (hframe : s.graph.clearStatuses = g.clearStatuses) {c target : Nat}
    (hc : c < g.size) (hcycle : (g.node c).cycleOf = some target) (hmet : target ∈ s.met)
    (hleaf : g.children c = []) : Meets g [c] s (s.meet c) := by
  have hcloses : s.closesCycle c = true := by
    rw [State.closesCycle, cycleOf_eq_of_clearStatuses hframe, hcycle]
    simpa using hmet
  have homission : markerOmission (s.graph.node c) = markerOmission (g.node c) :=
    read_eq_of_unjudged (fun _ => rfl) hframe c
  have hsize : c < s.graph.size := by rwa [size_eq_of_clearStatuses hframe]
  have hmarker : (g.node c).cycleOf ≠ none := by simp [hcycle]
  rw [State.meet, if_pos hcloses,
    truncateChildren_eq_self (by rw [children_eq_of_clearStatuses hframe, hleaf]), homission]
  refine ⟨?_, rfl, ?_, ?_, ?_⟩
  · rw [clearStatuses_setStatus, hframe]
  · rw [unmarked_cons_of_marker [] hmarker]
    exact (List.append_nil _).symm
  · rw [unmarked_cons_of_marker [] hmarker]
    exact (List.append_nil _).symm
  · intro id
    rw [status_setStatus _ hsize]
    by_cases hid : id = c
    · subst hid
      simp [hmarker]
    · simp [hid]

/-- A node that is no marker is enqueued when it is met first. -/
theorem of_request (hframe : s.graph.clearStatuses = g.clearStatuses) {c : Nat}
    (hcycle : (g.node c).cycleOf = none) (hnew : c ∉ s.met) : Meets g [c] s (s.meet c) := by
  have hcloses : s.closesCycle c = false := by
    rw [State.closesCycle, cycleOf_eq_of_clearStatuses hframe, hcycle]
    rfl
  rw [State.meet, hcloses, if_neg Bool.false_ne_true, if_neg (by simpa using hnew)]
  refine ⟨hframe, rfl, ?_, ?_, ?_⟩
  · rw [unmarked_cons_of_request [] hcycle, List.reverse_cons]
    rfl
  · rw [unmarked_cons_of_request [] hcycle]
    rfl
  · intro id
    by_cases hid : id = c
    · subst hid
      simp [hcycle]
    · simp [hid]

/-- Children that are new, and markers of nodes that were met, are met one by one. -/
theorem foldl {cs : List Nat} (hframe : s.graph.clearStatuses = g.clearStatuses)
    (hsize : ∀ c ∈ cs, c < g.size)
    (hmarker : ∀ c ∈ cs, ∀ target, (g.node c).cycleOf = some target →
      target ∈ s.met ∧ g.children c = [])
    (hnew : ∀ c ∈ cs, c ∉ s.met) (hnodup : cs.Nodup) : Meets g cs s (cs.foldl State.meet s) := by
  induction cs generalizing s with
  | nil => exact .nil hframe
  | cons c cs ih =>
    rw [List.nodup_cons] at hnodup
    have hfirst : Meets g [c] s (s.meet c) := by
      cases hcycle : (g.node c).cycleOf with
      | some target =>
        obtain ⟨hmet, hleaf⟩ := hmarker c List.mem_cons_self target hcycle
        exact .of_marker hframe (hsize c List.mem_cons_self) hcycle hmet hleaf
      | none => exact .of_request hframe hcycle (hnew c List.mem_cons_self)
    have hmet : ∀ id, id ∈ (s.meet c).met ↔ id ∈ s.met ∨ id ∈ g.unmarked [c] := by
      intro id
      rw [← List.mem_reverse, hfirst.met, List.mem_append, List.mem_reverse]
    refine hfirst.cons (ih hfirst.frame ?_ ?_ ?_ hnodup.2) hnodup.1
    · exact fun d hd => hsize d (List.mem_cons_of_mem c hd)
    · intro d hd target htarget
      obtain ⟨htarget, hleaf⟩ := hmarker d (List.mem_cons_of_mem c hd) target htarget
      exact ⟨(hmet target).2 (.inl htarget), hleaf⟩
    · intro d hd
      rw [hmet, mem_unmarked, List.mem_singleton, not_or]
      exact ⟨hnew d (List.mem_cons_of_mem c hd), fun h => hnodup.1 (h.1 ▸ hd)⟩

end Meets

end Mediation

end ArtifactTree
