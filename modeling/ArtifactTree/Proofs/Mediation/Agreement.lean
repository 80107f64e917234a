import ArtifactTree.Proofs.Mediation.Reference

/-!
# Mediation agrees with its reference

What the reference has visited so far, without the cycle markers, is a prefix of the trace of
mediation (`Agrees`). Both make the same list out of the included nodes: the root and then their
children, in order. So the next node that the reference judges is the next one of the trace
(`Agrees.next`), and once no level is left, the trace has come to its end as well: its next node would
have to be a child of itself or of a later one (`Agrees.requests_eq`).
-/

namespace ArtifactTree

open ArtifactTree.Graph Mediation

namespace Graph

theorem unmarked_append (g : Graph) (ids ids' : List Nat) :
    g.unmarked (ids ++ ids') = g.unmarked ids ++ g.unmarked ids' := List.filter_append ..

theorem unmarked_flatMap (g : Graph) (ids : List Nat) :
    g.unmarked (ids.flatMap g.children) = ids.flatMap g.requests := List.filter_flatMap ..

end Graph

namespace Reference

/-- The entries of nodes that are no cycle markers. -/
def requests (g : Graph) (visited : Trace) : Trace :=
  visited.filter fun entry => (g.node entry.1).cycleOf = none

/-- What the reference has visited is what mediation has judged, and markers in between. The nodes
still to be visited are pending. -/
structure Agrees (g : Graph) (trace visited : Trace) (pending : List Nat) : Prop where
  isPrefix : requests g visited <+: trace
  order : visited.ids ++ pending = root :: visited.included.flatMap g.children
  marker : ∀ {id status}, (id, status) ∈ visited → (g.node id).cycleOf ≠ none →
    status = .omitted (markerOmission (g.node id))
  above : ∀ id ∈ visited.ids ++ pending, ∀ a ∈ g.ancestors id, a ∈ visited.included

theorem ids_requests (g : Graph) (visited : Trace) :
    (requests g visited).ids = g.unmarked visited.ids := by
  rw [unmarked, Trace.ids, Trace.ids, List.filter_map]
  rfl

theorem requests_append (g : Graph) (visited visited' : Trace) :
    requests g (visited ++ visited') = requests g visited ++ requests g visited' :=
  List.filter_append ..

/-- The marker of an included node is not judged. -/
theorem verdict_of_marker {g : Graph} {visited : Trace} {id target : Nat}
    (hcycle : (g.node id).cycleOf = some target) (htarget : target ∈ visited.included) :
    verdict g visited id = .omitted (markerOmission (g.node id)) := by
  have hany : ((g.node id).cycleOf.any fun target => target ∈ visited.included) = true := by
    rw [hcycle, Option.any_some]
    exact decide_eq_true htarget
  rw [verdict, if_pos hany, markerOmission]
  cases (g.node id).coordinate with
  | none => rfl
  | some c => cases (g.node id).optional <;> rfl

theorem verdict_of_request {g : Graph} {visited : Trace} {id : Nat}
    (hcycle : (g.node id).cycleOf = none) :
    verdict g visited id = judge (visited.included.map g.node) (g.node id) := by
  rw [verdict, hcycle, Option.any_none, if_neg Bool.false_ne_true]

theorem ids_visitLevel (g : Graph) (visited : Trace) (level : List Nat) :
    (visitLevel g visited level).ids = level := by
  induction level generalizing visited with
  | nil => rfl
  | cons id level ih =>
    rw [visitLevel, Trace.ids, List.map_cons]
    exact congrArg _ (ih _)

namespace Agrees

variable {g : Graph} {project : Coordinate} {trace visited : Trace} {pending : List Nat}

theorem included_requests (ha : Agrees g trace visited pending) :
    (requests g visited).included = visited.included := by
  rw [Trace.included, Trace.included, requests, List.filter_filter]
  refine congrArg _ (List.filter_congr ?_)
  rintro ⟨id, status⟩ hmem
  by_cases hcycle : (g.node id).cycleOf = none
  · simp [hcycle]
  · simp [ha.marker hmem hcycle]

/-- The order of the reference, without the markers, is the order of mediation. -/
theorem order_requests (h : Legible g project trace) (ha : Agrees g trace visited pending) :
    (requests g visited).ids ++ g.unmarked pending =
      root :: (requests g visited).included.flatMap g.requests := by
  have horder := congrArg g.unmarked ha.order
  rw [unmarked_append, unmarked_cons_of_request _ h.unfolding.cycleOf_root, unmarked_flatMap,
    ← ids_requests] at horder
  rw [horder, ha.included_requests]

/-- What mediation judges after a prefix is what the prefix left pending and what was included
since. -/
theorem ids_rest (h : Legible g project trace) (ha : Agrees g trace visited pending) {rest : Trace}
    (hrest : requests g visited ++ rest = trace) :
    rest.ids = g.unmarked pending ++ rest.included.flatMap g.requests := by
  have horder := h.order
  rw [← hrest, Trace.ids_append, Trace.included_append, List.flatMap_append, ← List.cons_append,
    ← ha.order_requests h, List.append_assoc] at horder
  exact List.append_cancel_left horder

/-- The next node that the reference judges is the next one that mediation judges. -/
theorem next {id : Nat} (h : Legible g project trace) (ha : Agrees g trace visited (id :: pending))
    (hcycle : (g.node id).cycleOf = none) :
    ∃ status rest, requests g visited ++ (id, status) :: rest = trace := by
  obtain ⟨rest, hrest⟩ := ha.isPrefix
  have hids := ha.ids_rest h hrest
  rw [unmarked_cons_of_request _ hcycle, List.cons_append] at hids
  cases rest with
  | nil => cases hids
  | cons entry rest =>
    rw [Trace.ids, List.map_cons, List.cons.injEq] at hids
    rw [← hids.1]
    exact ⟨entry.2, rest, hrest⟩

/-- Once nothing is pending, mediation has nothing left to judge. -/
theorem requests_eq (h : Legible g project trace) (ha : Agrees g trace visited []) :
    requests g visited = trace := by
  obtain ⟨rest, hrest⟩ := ha.isPrefix
  have hids : Trace.ids rest = (Trace.included rest).flatMap g.requests := ha.ids_rest h hrest
  cases rest with
  | nil => rw [← hrest, List.append_nil]
  | cons entry rest =>
    -- the first node of the rest is a child of one in the rest, which comes before it
    have hsorted := h.sorted
    rw [← hrest, Trace.ids_append, List.pairwise_append] at hsorted
    have hfirst : entry.1 ∈ Trace.ids (entry :: rest) := List.mem_cons_self
    rw [hids, List.mem_flatMap] at hfirst
    obtain ⟨parent, hparent, hrequest⟩ := hfirst
    have hbefore := h.unfolding.tree.before_child (mem_unmarked.1 hrequest).1
    rcases List.mem_cons.1 ((Trace.included_sublist _).subset hparent) with hsame | hlater
    · rw [hsame] at hbefore
      exact absurd hbefore Before.irrefl
    · exact absurd ((List.pairwise_cons.1 hsorted.2.1).1 parent hlater) hbefore.asymm

section Visit

variable (h : Legible g project trace)
include h

theorem verdict_eq_of_marker {id target : Nat} (ha : Agrees g trace visited (id :: pending))
    (hcycle : (g.node id).cycleOf = some target) :
    verdict g visited id = .omitted (markerOmission (g.node id)) := by
  refine verdict_of_marker hcycle (ha.above id ?_ target (h.unfolding.cycleOf_mem hcycle))
  exact List.mem_append_right _ List.mem_cons_self

/-- The children of a node are below it and below what is above it. -/
theorem above_children {id child a : Nat} (ha : Agrees g trace visited (id :: pending))
    (hchild : child ∈ g.children id) (habove : a ∈ g.ancestors child) :
    a = id ∨ a ∈ visited.included := by
  rw [h.unfolding.tree.ancestors_child hchild] at habove
  rcases List.mem_cons.1 habove with hself | habove
  · exact .inl hself
  · right
    refine ha.above id ?_ a habove
    exact List.mem_append_right _ List.mem_cons_self

/-- A node that is judged by the reference gets the verdict of the trace. -/
theorem isPrefix_visit {id : Nat} (ha : Agrees g trace visited (id :: pending)) :
    requests g (visited ++ [(id, verdict g visited id)]) <+: trace := by
  rw [requests_append]
  cases hcycle : (g.node id).cycleOf with
  | some target => simpa [requests, hcycle] using ha.isPrefix
  | none =>
    obtain ⟨status, rest, hrest⟩ := ha.next h hcycle
    have hstatus := h.status_eq_judge hrest
    rw [ha.included_requests, ← verdict_of_request hcycle] at hstatus
    refine ⟨rest, ?_⟩
    rw [← hrest, hstatus, List.append_assoc]
    simp [requests, hcycle]

/-- Visiting one node. Its children are pending if it is included. -/
theorem visit {id : Nat} (ha : Agrees g trace visited (id :: pending)) :
    Agrees g trace (visited ++ [(id, verdict g visited id)])
      (pending ++ (Trace.included [(id, verdict g visited id)]).flatMap g.children) := by
  have hids : Trace.ids (visited ++ [(id, verdict g visited id)]) ++
      (pending ++ (Trace.included [(id, verdict g visited id)]).flatMap g.children) =
        (visited.ids ++ id :: pending) ++
          (Trace.included [(id, verdict g visited id)]).flatMap g.children := by
    rw [Trace.ids_append]
    simp [Trace.ids]
  refine ⟨ha.isPrefix_visit h, ?_, ?_, ?_⟩
  · rw [hids, ha.order, Trace.included_append, List.flatMap_append, List.cons_append]
  · intro other status hmem hcycle
    rcases List.mem_append.1 hmem with hmem | hmem
    · exact ha.marker hmem hcycle
    · obtain ⟨rfl, rfl⟩ := Prod.mk.inj (List.mem_singleton.1 hmem)
      obtain ⟨target, htarget⟩ := Option.ne_none_iff_exists'.1 hcycle
      exact ha.verdict_eq_of_marker h htarget
  · rw [hids, Trace.included_append]
    intro other hother a habove
    rcases List.mem_append.1 hother with hother | hother
    · exact List.mem_append_left _ (ha.above other hother a habove)
    · obtain ⟨parent, hparent, hchild⟩ := List.mem_flatMap.1 hother
      obtain rfl : parent = id := List.mem_singleton.1 ((Trace.included_sublist _).subset hparent)
      rcases ha.above_children h hchild habove with rfl | habove
      · exact List.mem_append_right _ hparent
      · exact List.mem_append_left _ habove

theorem visitLevel {level : List Nat} (ha : Agrees g trace visited (level ++ pending)) :
    Agrees g trace (visited ++ Reference.visitLevel g visited level)
      (pending ++ (Reference.visitLevel g visited level).included.flatMap g.children) := by
  induction level generalizing visited pending with
  | nil => simpa [Reference.visitLevel, Trace.included] using ha
  | cons id level ih =>
    rw [List.cons_append] at ha
    have hvisit := ha.visit h
    rw [List.append_assoc] at hvisit
    have hsplit : (Reference.visitLevel g visited (id :: level)).included =
        Trace.included [(id, verdict g visited id)] ++
          (Reference.visitLevel g (visited ++ [(id, verdict g visited id)]) level).included :=
      Trace.included_append [(id, verdict g visited id)] _
    have hlevel := ih hvisit
    rw [List.append_assoc, List.append_assoc, ← List.flatMap_append, ← hsplit] at hlevel
    exact hlevel

/-- Visiting levels from some depth on leaves at most deeper nodes pending. -/
theorem visitLevels {level : List Nat} {depth : Nat} (ha : Agrees g trace visited level)
    (hdepth : ∀ id ∈ level, g.depth id = depth) (limit : Nat) :
    ∃ pending, Agrees g trace (Reference.visitLevels g limit visited level) pending ∧
      ∀ id ∈ pending, g.depth id = depth + limit := by
  induction limit generalizing visited level depth with
  | zero => exact ⟨level, ha, hdepth⟩
  | succ limit ih =>
    rw [← List.append_nil level] at ha
    have hlevel := ha.visitLevel h
    rw [List.nil_append] at hlevel
    have hnext : ∀ id ∈ (Reference.visitLevel g visited level).included.flatMap g.children,
        g.depth id = depth + 1 := by
      intro id hid
      obtain ⟨parent, hparent, hchild⟩ := List.mem_flatMap.1 hid
      have hmem := (Trace.included_sublist _).subset hparent
      rw [ids_visitLevel] at hmem
      rw [h.unfolding.tree.depth_child hchild, hdepth parent hmem]
    obtain ⟨pending, hend, hpending⟩ := ih hlevel hnext
    refine ⟨pending, hend, fun id hid => ?_⟩
    rw [hpending id hid]
    omega

/-- As many levels as nodes are all levels. -/
theorem visitAll : Agrees g trace (Reference.visitLevels g g.size [] [root]) [] := by
  have hstart : Agrees g trace [] [root] := by
    refine ⟨List.nil_prefix, rfl, ?_, ?_⟩
    · intro _ _ hmem
      cases hmem
    · intro id hid a habove
      rw [List.mem_singleton.1 hid, h.unfolding.tree.ancestors_root] at habove
      cases habove
  have hroot : ∀ id ∈ [root], g.depth id = 0 := by
    intro id hid
    rw [List.mem_singleton.1 hid, h.unfolding.tree.depth_root]
  obtain ⟨pending, hend, hpending⟩ := hstart.visitLevels h hroot g.size
  cases pending with
  | nil => exact hend
  | cons id pending =>
    -- a pending node would be deeper than there are nodes
    have hmem : id ∈ root :: (Reference.visitLevels g g.size [] [root]).included.flatMap
        g.children := by
      rw [← hend.order]
      exact List.mem_append_right _ List.mem_cons_self
    have hsize : id < g.size := by
      rcases List.mem_cons.1 hmem with rfl | hmem
      · exact h.unfolding.tree.size_pos
      · obtain ⟨parent, -, hchild⟩ := List.mem_flatMap.1 hmem
        exact (h.unfolding.tree.lt_of_mem hchild).2
    have hdepth := hpending id List.mem_cons_self
    have := h.unfolding.tree.depth_le hsize
    omega

end Visit

section Complete

variable {id : Nat} (h : Legible g project trace) (ha : Agrees g trace visited [])
include h ha

theorem included_eq : trace.included = visited.included := by
  rw [← ha.requests_eq h, ha.included_requests]

theorem order_eq : visited.ids = root :: trace.included.flatMap g.children := by
  have horder := ha.order
  rwa [List.append_nil, ← ha.included_eq h] at horder

theorem mem_ids_trace_iff : id ∈ trace.ids ↔ id ∈ visited.ids ∧ (g.node id).cycleOf = none := by
  rw [← ha.requests_eq h, ids_requests, mem_unmarked]

theorem status_of_visited {status : Status} (hmem : (id, status) ∈ visited) :
    trace.status g id = status := by
  by_cases hcycle : (g.node id).cycleOf = none
  · apply Trace.status_of_mem h.nodup
    rw [← ha.requests_eq h]
    exact List.mem_filter.2 ⟨hmem, decide_eq_true hcycle⟩
  · have hid : id ∈ visited.ids := Trace.mem_ids.2 ⟨status, hmem⟩
    rw [ha.order_eq h] at hid
    rcases List.mem_cons.1 hid with rfl | hid
    · exact absurd h.unfolding.cycleOf_root hcycle
    · obtain ⟨parent, hparent, hchild⟩ := List.mem_flatMap.1 hid
      rw [ha.marker hmem hcycle]
      refine Trace.status_of_marker ?_ hcycle hparent hchild
      exact fun hjudged => hcycle ((ha.mem_ids_trace_iff h).1 hjudged).2

theorem status_of_not_visited (hid : id ∉ visited.ids) : trace.status g id = .unvisited := by
  apply Trace.status_of_unmet
  · exact fun hjudged => hid ((ha.mem_ids_trace_iff h).1 hjudged).1
  · rintro ⟨-, parent, hparent, hchild⟩
    rw [ha.order_eq h] at hid
    exact hid (List.mem_cons_of_mem _ (List.mem_flatMap.2 ⟨parent, hparent, hchild⟩))

/-- If nothing is pending, the visited nodes have their statuses and no other node has one. -/
theorem status_eq : (g.node id).status = (visited.lookup id).getD .unvisited := by
  rw [h.status]
  cases hlookup : visited.lookup id with
  | some status =>
    obtain ⟨before, after, rfl, -⟩ := List.lookup_eq_some_iff.1 hlookup
    exact ha.status_of_visited h (List.mem_append_right _ List.mem_cons_self)
  | none =>
    apply ha.status_of_not_visited h
    intro hmem
    obtain ⟨status, hmem⟩ := Trace.mem_ids.1 hmem
    exact absurd (List.lookup_eq_none_iff.1 hlookup _ hmem) (by simp)

end Complete

end Agrees

end Reference

/-! ## Texts without colons -/

/-- No text of a project has a colon. -/
structure Project.KeysColonFree (project : Project) : Prop where
  coordinate : project.coordinate.PartsColonFree
  dependencies : ∀ d ∈ project.dependencies, d.coordinate.PartsColonFree
  management : ∀ entry ∈ project.management.entries, ∀ version ∈ entry.2.version, ColonFree version

section Analyze

variable {m : Type → Type} {σ : Type} [Monad m] [Execution m σ] {project : Project}
  {collector : Collector m} {limit : Nat} {s : σ} {analysis : Analysis}

/-- All texts of an analysis are those of the project or of the answers of its collector. -/
theorem keysColonFree_of_analyze {inv : σ → Prop} (hproject : project.KeysColonFree)
    (hcollector : collector.Answers inv fun _ ds => ∀ d ∈ ds, d.coordinate.PartsColonFree)
    (hs : inv s) (h : (exec (project.analyze collector limit).run s).1 = .ok analysis) (id : Nat) :
    (analysis.graph.node id).KeysColonFree := by
  obtain ⟨hcoordinate, hmanaged⟩ :=
    texts_of_analyze hcollector hs hproject.coordinate hproject.dependencies h id
  refine ⟨hcoordinate, fun version hversion => ?_⟩
  obtain ⟨entry, hentry, hforced⟩ := hmanaged version hversion
  exact hproject.management entry hentry version hforced

/-- **Mediation is its reference.** If no node of the analysis has a colon in its texts and the project
has no classifier, every status is that of the reference, which compares values and builds no keys. -/
theorem status_eq_reference
    (h : (exec (project.analyze collector limit).run s).1 = .ok analysis)
    (hfree : ∀ id, (analysis.graph.node id).KeysColonFree)
    (hproject : project.coordinate.classifier = none) (id : Nat) :
    (analysis.graph.node id).status = Reference.status analysis.graph id := by
  obtain ⟨trace, houtcome⟩ := exists_outcome_of_analyze h
  have hlegible : Legible analysis.graph project.coordinate trace := ⟨houtcome, hfree, hproject⟩
  exact (Reference.Agrees.visitAll hlegible).status_eq hlegible

/-- In `rivalRequests` the deeper request for `log` loses to the version of the project's own. -/
theorem status_eq_reference_of_rivalRequests :
    ∃ analysis, rivalAnalysis = .ok analysis ∧
      Reference.status analysis.graph 2 = .omitted (.versionConflict "1") ∧
      ∀ id, (analysis.graph.node id).status = Reference.status analysis.graph id := by
  have h : rivalAnalysis = .ok _ := rfl
  have hproject : rivalRequests.KeysColonFree := ⟨by decide, by decide, by decide⟩
  have hcollector : (.ofFunction rivalAnswer : Collector Id).Answers (fun _ => True)
      fun _ ds => ∀ d ∈ ds, d.coordinate.PartsColonFree := by
    refine ⟨fun _ _ => trivial, ?_⟩
    intro _ _ c ds hds
    obtain rfl := Except.ok.inj hds
    by_cases hweb : c.name = "web"
    · rw [if_pos hweb]
      decide
    · rw [if_neg hweb]
      decide
  refine ⟨_, h, by decide +kernel, ?_⟩
  exact status_eq_reference h (keysColonFree_of_analyze hproject hcollector trivial h) rfl

end Analyze

end ArtifactTree
