import ArtifactTree.Proofs.Mediation.Winners

/-!
# What a report accounts for

A report counts the nodes by status and lists the conflicts. The counts are those of all nodes of the
arena, because the unfolding of a project reaches each of them. The conflicts come from a depth-first
listing that is sorted by depth and id. Mediation judges the nodes in the order of its queue and looks
at neither; still the two orders agree (`conflicts_eq`), since the queue is in breadth-first order
(`Outcome.sorted`) and a node that lost a conflict was judged.

Main statement: `report_accounts_of_analyze`.
-/

namespace ArtifactTree

open ArtifactTree.Graph Mediation

/-! ## Counts -/

namespace Report

/-- What a report counts. -/
inductive Kind where
  | included
  | duplicate
  | scopeConflict
  | versionConflict
  | cycle
  | optional
  | malformed
deriving DecidableEq

def number (r : Report) : Kind → Nat
  | .included => r.included
  | .duplicate => r.duplicates
  | .scopeConflict => r.scopeConflicts
  | .versionConflict => r.versionConflicts
  | .cycle => r.cycles
  | .optional => r.optional
  | .malformed => r.malformed

end Report

namespace Status

/-- The kind as which a status is counted; a node that was not reached is not. -/
def kind? : Status → Option Report.Kind
  | .unvisited => none
  | .included => some .included
  | .omitted (.duplicate _) => some .duplicate
  | .omitted (.scopeConflict _) => some .scopeConflict
  | .omitted (.versionConflict _) => some .versionConflict
  | .omitted (.cycle _) => some .cycle
  | .omitted .optional => some .optional
  | .omitted .malformed => some .malformed

/-- Whether a node of this status lost by its scope or its version. -/
def isConflict : Status → Bool
  | .omitted (.scopeConflict _) | .omitted (.versionConflict _) => true
  | _ => false

end Status

namespace Report

theorem number_count (r : Report) (status : Status) (kind : Kind) :
    (r.count status).number kind = r.number kind + if status.kind? == some kind then 1 else 0 := by
  cases status with
  | unvisited => rfl
  | included => cases kind <;> rfl
  | omitted omission => cases omission <;> cases kind <;> rfl

/-- Every node that was reached is counted once. -/
theorem total_count (r : Report) (status : Status) :
    (r.count status).included + (r.count status).omitted =
      r.included + r.omitted + if status != .unvisited then 1 else 0 := by
  cases status with
  | unvisited => rfl
  | included =>
    have hcounts : (Status.included != .unvisited) = true := by decide
    rw [if_pos hcounts]
    exact Nat.add_right_comm _ _ _
  | omitted omission =>
    have hcounts : (Status.omitted omission != .unvisited) = true := by simp
    rw [if_pos hcounts]
    cases omission <;>
      · simp only [count, omitted]
        omega

theorem conflicts_count (r : Report) (status : Status) :
    (r.count status).scopeConflicts + (r.count status).versionConflicts =
      r.scopeConflicts + r.versionConflicts + if status.isConflict then 1 else 0 := by
  cases status with
  | unvisited => rfl
  | included => rfl
  | omitted omission =>
    cases omission with
    | scopeConflict => exact Nat.add_right_comm _ _ _
    | versionConflict => rfl
    | duplicate | cycle | optional | malformed => rfl

/-- A number to which each node adds one or nothing counts the nodes that add one. -/
theorem foldl_count {read : Report → Nat} {counts : Status → Bool}
    (hstep : ∀ r status, read (r.count status) = read r + if counts status then 1 else 0)
    (status : Nat → Status) (ids : List Nat) (r : Report) :
    read (ids.foldl (fun r id => r.count (status id)) r) =
      read r + ids.countP fun id => counts (status id) := by
  induction ids generalizing r with
  | nil => rfl
  | cons id ids ih =>
    rw [List.foldl_cons, ih, hstep, List.countP_cons]
    omega

end Report

/-! ## The way down to a node -/

namespace Graph

/-- The nodes from a child of the root down to a node, each a child of the one before. -/
inductive LeadsTo (g : Graph) : List Nat → Nat → Prop
  | root : LeadsTo g [] root
  | child {chain : List Nat} {id child : Nat} (above : LeadsTo g chain id)
    (mem : child ∈ g.children id) : LeadsTo g (chain ++ [child]) child

/-- The node and its ancestors, from below the root down. -/
def chainTo (g : Graph) (id : Nat) : List Nat := ((id :: g.ancestors id).filter (· != root)).reverse

namespace IsTree

variable {g : Graph} (hg : g.IsTree)
include hg

theorem chainTo_root : g.chainTo root = [] := by
  rw [chainTo, hg.ancestors_root]
  rfl

theorem chainTo_child {id child : Nat} (h : child ∈ g.children id) :
    g.chainTo child = g.chainTo id ++ [child] := by
  have hroot : (child != root) = true := by
    rw [bne_iff_ne]
    rintro rfl
    exact hg.root_not_mem id h
  rw [chainTo, hg.ancestors_child h, List.filter_cons, if_pos hroot, List.reverse_cons, chainTo]

/-- The chain of a node leads to it, through as many nodes as it is deep. -/
theorem leadsTo_chainTo {id : Nat} (hid : id < g.size) :
    g.LeadsTo (g.chainTo id) id ∧ (g.chainTo id).length = g.depth id ∧
      ∀ a ∈ g.chainTo id, a < g.size := by
  induction id using Nat.strongRecOn with
  | ind id ih =>
    by_cases hroot : id = root
    · rw [hroot, hg.chainTo_root, hg.depth_root]
      exact ⟨.root, rfl, fun a ha => absurd ha List.not_mem_nil⟩
    · obtain ⟨parent, hparent⟩ := hg.exists_parent hid hroot
      have hlt := (hg.lt_of_mem hparent).1
      obtain ⟨hleads, hlength, hsize⟩ := ih parent hlt (Nat.lt_trans hlt hid)
      rw [hg.chainTo_child hparent, hg.depth_child hparent, List.length_append, hlength]
      refine ⟨hleads.child hparent, rfl, fun a ha => ?_⟩
      rcases List.mem_append.1 ha with ha | ha
      · exact hsize a ha
      · rw [List.mem_singleton.1 ha]
        exact hid

end IsTree

end Graph

/-! ## What an entry tells -/

/-- The values by which a node lost: its own scope and that of the winner, or its version and that of
the winner. -/
inductive Graph.Lost (g : Graph) (id : Nat) : String → String → Prop
  | scope {scope winner : Scope} (status : (g.node id).status = .omitted (.scopeConflict winner))
    (own : (g.node id).effectiveScope = some scope) : Lost g id scope.name winner.name
  | version {version winner : String}
    (status : (g.node id).status = .omitted (.versionConflict winner))
    (own : (g.node id).effectiveVersion = some version) : Lost g id version winner

/-- The entry tells by what the node lost, and the declared coordinates on the way down to it. -/
structure Conflict.Tells (g : Graph) (id : Nat) (c : Conflict) : Prop where
  artifact : (g.node id).artifactKey = some c.artifact
  lost : g.Lost id c.requested c.resolved
  requested_ne : c.requested ≠ c.resolved
  length_path : c.path.length = g.depth id
  path : ∃ chain, g.LeadsTo chain id ∧
    List.Forall₂ (fun a text => (g.node a).coordinate.map (·.text) = some text) chain c.path

namespace Graph

variable {g : Graph} {id : Nat}

theorem Lost.isConflict {requested resolved : String} (h : g.Lost id requested resolved) :
    (g.node id).status.isConflict = true := by
  cases h with
  | scope status _ => rw [status]; rfl
  | version status _ => rw [status]; rfl

theorem conflict?_eq_some {c : Conflict} :
    g.conflict? id = some c ↔
      (g.node id).artifactKey = some c.artifact ∧ g.Lost id c.requested c.resolved ∧
        c.path = g.pathTo id := by
  constructor
  · intro h
    obtain ⟨artifact, hartifact, h⟩ := Option.bind_eq_some_iff.1 h
    dsimp only at h
    split at h
    next winner hstatus =>
      obtain ⟨values, hvalues, h⟩ := Option.bind_eq_some_iff.1 h
      obtain ⟨scope, hscope, rfl⟩ := Option.map_eq_some_iff.1 hvalues
      obtain rfl := Option.some.inj h
      exact ⟨hartifact, .scope hstatus hscope, rfl⟩
    next winner hstatus =>
      obtain ⟨values, hvalues, h⟩ := Option.bind_eq_some_iff.1 h
      obtain ⟨version, hversion, rfl⟩ := Option.map_eq_some_iff.1 hvalues
      obtain rfl := Option.some.inj h
      exact ⟨hartifact, .version hstatus hversion, rfl⟩
    next => cases h
  · obtain ⟨artifact, requested, resolved, path⟩ := c
    rintro ⟨hartifact, hlost, hpath⟩
    dsimp only at hartifact hlost hpath
    subst hpath
    cases hlost with
    | scope status own => simp [conflict?, hartifact, status, own]
    | version status own => simp [conflict?, hartifact, status, own]

end Graph

namespace Mediation.Outcome

variable {g : Graph} {project : Coordinate} {trace : Trace} (h : Outcome g project trace)
include h

/-- A node that lost a conflict was judged. -/
theorem mem_ids_of_isConflict {id : Nat} (hid : (g.node id).status.isConflict) : id ∈ trace.ids := by
  have hstatus : (g.node id).status = (g.node id).status := rfl
  rcases h.mem_or_of_status hstatus with hmem | hmarker | hunmet
  · exact Trace.mem_ids.2 ⟨_, hmem⟩
  · rw [hmarker] at hid
    rcases markerOmission_cases (g.node id) with hcase | hcase | ⟨c, hcase⟩ <;>
      · rw [hcase] at hid
        cases hid
  · rw [hunmet] at hid
    cases hid

theorem pathTo_eq {id : Nat} (hid : id < g.size) :
    (g.pathTo id).length = g.depth id ∧ ∃ chain, g.LeadsTo chain id ∧
      List.Forall₂ (fun a text => (g.node a).coordinate.map (·.text) = some text) chain
        (g.pathTo id) := by
  obtain ⟨hleads, hlength, hsize⟩ := h.unfolding.tree.leadsTo_chainTo hid
  rw [pathTo, ← List.map_reverse, ← chainTo, List.length_map]
  refine ⟨hlength, _, hleads, ?_⟩
  rw [List.forall₂_map_right_iff, List.forall₂_same]
  intro a ha
  obtain ⟨c, hc⟩ := h.unfolding.coordinate (hsize a ha)
  rw [hc]
  rfl

/-- By what a node lost is never its own. -/
theorem ne_of_lost {id : Nat} {requested resolved : String} (hlost : g.Lost id requested resolved) :
    requested ≠ resolved := by
  cases hlost with
  | scope status own =>
    have hne := (h.exists_winner_of_scopeConflict status).1
    rw [own] at hne
    exact fun heq => hne (congrArg some (Scope.name_injective heq))
  | version status own =>
    have hne := (h.exists_winner_of_versionConflict status).1
    rw [own] at hne
    exact fun heq => hne (congrArg some heq)

theorem tells_of_conflict? {id : Nat} {c : Conflict} (hc : g.conflict? id = some c) :
    c.Tells g id := by
  obtain ⟨hartifact, hlost, hpath⟩ := conflict?_eq_some.1 hc
  have hid := h.lt_size (h.mem_ids_of_isConflict hlost.isConflict)
  obtain ⟨hlength, hchain⟩ := h.pathTo_eq hid
  exact ⟨hartifact, hlost, h.ne_of_lost hlost, by rw [hpath, hlength], by rw [hpath]; exact hchain⟩

/-- A rule decided that a node lost a conflict, so the node has what it lost by. -/
theorem exists_lost {id : Nat} (hid : (g.node id).status.isConflict) :
    ∃ requested resolved, g.Lost id requested resolved := by
  obtain ⟨status, hmem⟩ := Trace.mem_ids.1 (h.mem_ids_of_isConflict hid)
  obtain ⟨before, hverdict, -⟩ := h.exists_before hmem
  have hrule := Winners.rule_verdict (before.winners g) (g.node id)
  rw [← hverdict, ← h.status_of_mem hmem] at hrule
  generalize hstatus : (g.node id).status = status at hid hrule
  cases hrule with
  | scopeConflict _ _ _ hscope =>
    obtain ⟨own, hown, -⟩ := Option.bind_eq_some_iff.1 hscope
    exact ⟨_, _, .scope hstatus hown⟩
  | versionConflict _ hversion _ _ _ => exact ⟨_, _, .version hstatus hversion⟩
  | malformed | duplicate | optional | included => cases hid

/-- A node that lost a conflict has an entry, and no other one has. -/
theorem isSome_conflict?_iff (id : Nat) :
    (g.conflict? id).isSome = (g.node id).status.isConflict := by
  rw [Bool.eq_iff_iff, Option.isSome_iff_exists]
  constructor
  · rintro ⟨c, hc⟩
    exact (conflict?_eq_some.1 hc).2.1.isConflict
  · intro hid
    obtain ⟨c, hc⟩ := h.unfolding.coordinate (h.lt_size (h.mem_ids_of_isConflict hid))
    obtain ⟨requested, resolved, hlost⟩ := h.exists_lost hid
    exact ⟨⟨c.artifactKey, requested, resolved, g.pathTo id⟩,
      conflict?_eq_some.2 ⟨Node.artifactKey_of_coordinate hc, hlost, rfl⟩⟩

end Mediation.Outcome

/-! ## The order of the entries -/

/-- Two lists without repetitions that agree where `f` finds something give it what it finds in some
order. -/
theorem filterMap_perm_of_nodup {α β : Type} {f : α → Option β} {as bs : List α} (has : as.Nodup)
    (hbs : bs.Nodup) (h : ∀ a, (f a).isSome → (a ∈ as ↔ a ∈ bs)) :
    (as.filterMap f).Perm (bs.filterMap f) := by
  have hkept : ∀ cs : List α, cs.filterMap f = (cs.filter fun a => (f a).isSome).filterMap f := by
    intro cs
    rw [List.filterMap_filter]
    refine List.filterMap_congr fun a _ => ?_
    cases f a <;> rfl
  rw [hkept as, hkept bs]
  refine List.Perm.filterMap f ((List.perm_ext_iff_of_nodup (has.filter _) (hbs.filter _)).2 ?_)
  intro a
  rw [List.mem_filter, List.mem_filter]
  exact and_congr_left (h a)

/-- What `f` finds belongs to the elements for which it finds something. -/
theorem forall₂_filterMap {α β : Type} {R : α → β → Prop} {f : α → Option β} {p : α → Bool}
    (hp : ∀ a, (f a).isSome = p a) (hR : ∀ a b, f a = some b → R a b) (as : List α) :
    List.Forall₂ R (as.filter p) (as.filterMap f) := by
  induction as with
  | nil => exact .nil
  | cons a as ih =>
    have hsome := hp a
    cases hf : f a with
    | none =>
      rw [hf] at hsome
      rw [List.filterMap_cons_none hf, List.filter_cons, ← hsome]
      exact ih
    | some b =>
      rw [hf] at hsome
      rw [List.filterMap_cons_some hf, List.filter_cons, ← hsome]
      exact .cons (hR a b hf) ih

namespace Graph

variable {g : Graph}

/-- The entry of a node together with its place, by which entries are sorted. -/
def placed? (g : Graph) (id : Nat) : Option ((Nat × Nat) × Conflict) :=
  (g.conflict? id).map fun conflict => ((g.depth id, id), conflict)

theorem placed?_eq_some {id : Nat} {entry : (Nat × Nat) × Conflict} :
    g.placed? id = some entry ↔ g.conflict? id = some entry.2 ∧ entry.1 = (g.depth id, id) := by
  obtain ⟨place, conflict⟩ := entry
  simp only [placed?, Option.map_eq_some_iff, Prod.mk.injEq]
  constructor
  · rintro ⟨c, hc, rfl, rfl⟩
    exact ⟨hc, rfl⟩
  · rintro ⟨hc, rfl⟩
    exact ⟨conflict, hc, rfl, rfl⟩

theorem placeLe_iff {a b : (Nat × Nat) × Conflict} :
    placeLe a b = true ↔ a.1.1 < b.1.1 ∨ a.1.1 = b.1.1 ∧ a.1.2 ≤ b.1.2 := by
  simp [placeLe]

theorem placeLe_total (a b : (Nat × Nat) × Conflict) : (placeLe a b || placeLe b a) = true := by
  rw [Bool.or_eq_true, placeLe_iff, placeLe_iff]
  omega

theorem placeLe_trans (a b c : (Nat × Nat) × Conflict) (hab : placeLe a b = true)
    (hbc : placeLe b c = true) : placeLe a c = true := by
  rw [placeLe_iff] at *
  omega

/-- A listing in breadth-first order is what sorting makes of any listing of the same entries. -/
theorem mergeSort_placed? {ids listed : List Nat} (hids : ids.Pairwise g.Before)
    (hlisted : listed.Nodup) (h : ∀ id, (g.conflict? id).isSome → (id ∈ listed ↔ id ∈ ids)) :
    (listed.filterMap g.placed?).mergeSort placeLe = ids.filterMap g.placed? := by
  have hsome : ∀ id, (g.placed? id).isSome → (id ∈ listed ↔ id ∈ ids) := by
    intro id hid
    rw [placed?, Option.isSome_map] at hid
    exact h id hid
  have hperm := filterMap_perm_of_nodup hlisted (hids.imp Before.ne) hsome
  refine List.Perm.eq_of_pairwise ?_ (List.pairwise_mergeSort placeLe_trans placeLe_total _) ?_
    ((List.mergeSort_perm _ _).trans hperm)
  · -- entries at one place are entries of one node
    intro entry other hentry hother hle hge
    obtain ⟨id, -, hid⟩ := List.mem_filterMap.1 (List.mem_mergeSort.1 hentry)
    obtain ⟨id', -, hid'⟩ := List.mem_filterMap.1 hother
    obtain ⟨-, hplace⟩ := placed?_eq_some.1 hid
    obtain ⟨-, hplace'⟩ := placed?_eq_some.1 hid'
    rw [placeLe_iff, hplace, hplace'] at hle hge
    dsimp only at hle hge
    obtain rfl : id = id' := by omega
    exact Option.some.inj (hid.symm.trans hid')
  · refine hids.filterMap g.placed? ?_
    intro id other hbefore entry hentry entry' hentry'
    rw [placeLe_iff, (placed?_eq_some.1 hentry).2, (placed?_eq_some.1 hentry').2]
    exact hbefore.imp_right fun ⟨hdepth, hlt⟩ => ⟨hdepth, Nat.le_of_lt hlt⟩

end Graph

/-! ## The numbers of a graph -/

namespace Graph

variable {g : Graph} (hpreorder : g.preorder = List.range g.size)

/-- The number of nodes whose status satisfies `p`. -/
def countStatus (g : Graph) (p : Status → Bool) : Nat :=
  (List.range g.size).countP fun id => p (g.node id).status

include hpreorder

/-- A number of the report to which each node adds one or nothing counts nodes by their status. -/
theorem read_report (read : Report → Nat) {p : Status → Bool}
    (hstep : ∀ r status, read (r.count status) = read r + if p status then 1 else 0)
    (hread : ∀ r conflicts, read { r with conflicts } = read r) :
    read g.report = read {} + g.countStatus p := by
  rw [countStatus, ← hpreorder, ← Report.foldl_count hstep]
  exact hread _ _

theorem number_report (kind : Report.Kind) :
    g.report.number kind = g.countStatus (·.kind? == some kind) := by
  rw [read_report hpreorder (Report.number · kind) fun r status => r.number_count status kind]
  · cases kind <;> exact Nat.zero_add _
  · intro r conflicts
    cases kind <;> rfl

/-- What a report counts are the nodes that were reached. -/
theorem included_add_omitted_report :
    g.report.included + g.report.omitted = g.countStatus (· != .unvisited) := by
  rw [← Nat.zero_add (g.countStatus _)]
  exact read_report hpreorder (fun r => r.included + r.omitted) Report.total_count fun _ _ => rfl

theorem total_report :
    g.report.included + g.report.omitted + g.countStatus (· == .unvisited) = g.stats.nodeCount := by
  have hsplit : g.preorder.length =
      g.countStatus (· == .unvisited) + g.countStatus (· != .unvisited) := by
    rw [hpreorder, List.length_eq_countP_add_countP fun id => (g.node id).status == .unvisited]
    simp [countStatus, bne, Bool.beq_eq_decide_eq]
  rw [included_add_omitted_report hpreorder, stats, hsplit, Nat.add_comm]

theorem scopeConflicts_add_versionConflicts :
    g.report.scopeConflicts + g.report.versionConflicts = g.countStatus Status.isConflict := by
  rw [← Nat.zero_add (g.countStatus _)]
  exact read_report hpreorder (fun r => r.scopeConflicts + r.versionConflicts)
    Report.conflicts_count fun _ _ => rfl

end Graph

/-! ## The conflicts of a graph -/

namespace Mediation.Outcome

variable {g : Graph} {project : Coordinate} {trace : Trace} (h : Outcome g project trace)
include h

/-- The report lists the conflicts in the order in which mediation judged the nodes. -/
theorem conflicts_eq (hpreorder : g.preorder = List.range g.size) :
    g.report.conflicts = trace.ids.filterMap g.conflict? := by
  have hsorted : (g.preorder.filterMap g.placed?).mergeSort placeLe =
      trace.ids.filterMap g.placed? := by
    refine mergeSort_placed? h.sorted (hpreorder ▸ List.nodup_range) fun id hid => ?_
    rw [h.isSome_conflict?_iff] at hid
    have hjudged := h.mem_ids_of_isConflict hid
    rw [hpreorder, List.mem_range]
    exact ⟨fun _ => hjudged, fun _ => h.lt_size hjudged⟩
  calc g.report.conflicts
      = ((g.preorder.filterMap g.placed?).mergeSort placeLe).map (·.2) := rfl
    _ = (trace.ids.filterMap g.placed?).map (·.2) := by rw [hsorted]
    _ = trace.ids.filterMap g.conflict? := by
      rw [List.map_filterMap]
      refine List.filterMap_congr fun id _ => ?_
      rw [placed?, Option.map_map]
      exact Option.map_id'

/-- The entries are those of the nodes that lost a conflict, in the order of judging. -/
theorem tells_conflicts (hpreorder : g.preorder = List.range g.size) :
    List.Forall₂ (Conflict.Tells g) (trace.ids.filter fun id => (g.node id).status.isConflict)
      g.report.conflicts := by
  rw [h.conflicts_eq hpreorder]
  exact forall₂_filterMap h.isSome_conflict?_iff (fun _ _ hc => h.tells_of_conflict? hc) _

theorem length_conflicts (hpreorder : g.preorder = List.range g.size) :
    g.report.conflicts.length = g.report.scopeConflicts + g.report.versionConflicts := by
  have hjudged : ((List.range g.size).filter fun id => (g.node id).status.isConflict).Perm
      (trace.ids.filter fun id => (g.node id).status.isConflict) := by
    refine (List.perm_ext_iff_of_nodup (List.nodup_range.filter _) (h.nodup.filter _)).2 fun id => ?_
    rw [List.mem_filter, List.mem_filter, List.mem_range]
    refine and_congr_left fun hid => ⟨fun _ => h.mem_ids_of_isConflict hid, h.lt_size⟩
  rw [scopeConflicts_add_versionConflicts hpreorder, countStatus, List.countP_eq_length_filter,
    hjudged.length_eq]
  exact (h.tells_conflicts hpreorder).length_eq.symm

end Mediation.Outcome

/-! ## Main statement -/

/-- The report accounts for all nodes of a mediated graph, and lists its conflicts in the given order
of judging. -/
structure Report.AccountsFor (r : Report) (g : Graph) (judged : List Nat) : Prop where
  number : ∀ kind, r.number kind = g.countStatus (·.kind? == some kind)
  total : r.included + r.omitted + g.countStatus (· == .unvisited) = g.stats.nodeCount
  nodeCount : g.stats.nodeCount = g.size
  length_conflicts : r.conflicts.length = r.scopeConflicts + r.versionConflicts
  conflicts : List.Forall₂ (Conflict.Tells g)
    (judged.filter fun id => (g.node id).status.isConflict) r.conflicts

section Analyze

variable {m : Type → Type} {σ : Type} [Monad m] [Execution m σ] {project : Project}
  {collector : Collector m} {limit : Nat} {s : σ} {analysis : Analysis}

theorem report_of_analyze (h : (exec (project.analyze collector limit).run s).1 = .ok analysis) :
    analysis.report = analysis.graph.report := by
  obtain ⟨unfolded, t, -, hreport⟩ := exec_run_bind_ok (Prod.ext h rfl)
  obtain ⟨rfl, -⟩ := exec_run_pure_ok hreport
  rfl

/-- **The report of an analysis accounts for every node**, and lists the conflicts in the order in
which mediation judged the nodes of the managed graph. -/
theorem report_accounts_of_analyze
    (h : (exec (project.analyze collector limit).run s).1 = .ok analysis) :
    ∃ unfolded, (exec (project.unfold collector limit).run s).1 = .ok unfolded ∧
      analysis.graph = (unfolded.manage project.management).1.mediate ∧
      analysis.report.AccountsFor analysis.graph (unfolded.manage project.management).1.judged := by
  obtain ⟨unfolded, hunfold, hgraph⟩ := exists_unfold_of_analyze h
  obtain ⟨trace, houtcome⟩ := exists_outcome_of_analyze h
  obtain ⟨forest, hforest, rfl⟩ :=
    unfoldsProject_of_exec_unfold collector.answers_anything trivial hunfold
  have hmanaged := (manage_frame (forest.toGraph project.coordinate) project.management).1
  have hunfolding := (Forest.isUnfolding_toGraph hforest).congr hmanaged.symm
  have hbare : analysis.graph.bare = (forest.toGraph project.coordinate).bare := by
    rw [hgraph, bare_mediate hunfolding, hmanaged]
  have hpreorder : analysis.graph.preorder = List.range analysis.graph.size := by
    rw [preorder_congr (size_eq_of_bare hbare) (children_eq_of_bare hbare),
      Forest.preorder_toGraph, size_eq_of_bare hbare]
  have hjudged : ((forest.toGraph project.coordinate).manage project.management).1.judged =
      trace.ids := by
    rw [houtcome.ids, hgraph, judged_congr (clearStatuses_mediate hunfolding)]
  refine ⟨_, hunfold, hgraph, ?_⟩
  rw [report_of_analyze h, hjudged]
  exact {
    number := number_report hpreorder
    total := total_report hpreorder
    nodeCount := by rw [stats, hpreorder, List.length_range]
    length_conflicts := houtcome.length_conflicts hpreorder
    conflicts := houtcome.tells_conflicts hpreorder }

/-- In the listing of `rivalRequests` the node 2 comes before the node 5, in the queue after it. -/
theorem report_accounts_rivalRequests :
    ∃ analysis, rivalAnalysis = .ok analysis ∧ ∃ unfolded,
      (exec (rivalRequests.unfold (.ofFunction rivalAnswer : Collector Id) 3).run ()).1 =
        .ok unfolded ∧
      ((unfolded.manage rivalRequests.management).1.judged.filter fun id =>
        (analysis.graph.node id).status.isConflict) = [5, 2] ∧
      analysis.graph = (unfolded.manage rivalRequests.management).1.mediate ∧
      analysis.report.AccountsFor analysis.graph
        (unfolded.manage rivalRequests.management).1.judged := by
  have h : rivalAnalysis = .ok _ := rfl
  have hunfold : (exec (rivalRequests.unfold (.ofFunction rivalAnswer : Collector Id) 3).run
      ()).1 = .ok _ := rfl
  obtain ⟨unfolded, hunfold', hgraph, haccounts⟩ := report_accounts_of_analyze h
  obtain rfl := Except.ok.inj (hunfold.symm.trans hunfold')
  exact ⟨_, h, _, hunfold, by decide +kernel, hgraph, haccounts⟩

end Analyze

end ArtifactTree
