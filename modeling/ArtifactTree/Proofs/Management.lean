import ArtifactTree.Proofs.Manifest
import ArtifactTree.Proofs.Mediation.Outcome
import Mathlib.Data.Option.Basic

/-!
# What management leaves behind

Management visits every node of a tree once, so each is left as the table leaves that node alone
(`Node.managedIn`), and the number it returns is that of the nodes on which something is recorded
(`manage_count`). In an analysis of a manifest the table says for each node what the last entry for
its artifact says, and `managed_by_last_entry` puts the two together.
-/

namespace ArtifactTree

/-- The node as the table leaves it. -/
def Node.managedIn (n : Node) (t : Management) : Node :=
  match t.override? n with
  | some o => n.managedBy o
  | none => n

def Node.isManaged (n : Node) : Bool := n.managedVersion.isSome || n.managedScope.isSome

/-! ## One node -/

/-- What an override forces on a node that declares `version` and `scope`. -/
def Override.forced (stated : Override) (version : String) (scope : Option Scope) : Override :=
  ⟨stated.forcedVersion version, stated.forcedScope scope⟩

namespace Node

variable {n : Node} {t : Management} {c : Coordinate}

theorem managedBy_nothing (n : Node) : n.managedBy {} = n := rfl

theorem override?_of_stated (hc : n.coordinate = some c) {stated : Override}
    (hstated : t.get? c.artifactKey = some stated) :
    t.override? n =
      if stated.forced c.version n.scope = {} then none
      else some (stated.forced c.version n.scope) := by
  have hguard : t.override? n =
      (guard (stated.forced c.version n.scope != ({} : Override)) >>= fun _ =>
        some (stated.forced c.version n.scope) : Option Override) := by
    unfold Management.override?
    rw [hc, Option.bind_eq_bind, Option.bind_some, hstated]
    rfl
  rw [hguard]
  generalize stated.forced c.version n.scope = forced
  by_cases hforced : forced = {}
  · rw [hforced]
    rfl
  · simp [hforced]

theorem override?_of_unstated (hc : n.coordinate = some c) (h : t.get? c.artifactKey = none) :
    t.override? n = none := by
  simp [Management.override?, hc, h]

theorem override?_of_malformed (hc : n.coordinate = none) : t.override? n = none := by
  simp [Management.override?, hc]

theorem managedIn_of_stated (hc : n.coordinate = some c) {stated : Override}
    (hstated : t.get? c.artifactKey = some stated) :
    n.managedIn t = n.managedBy (stated.forced c.version n.scope) := by
  unfold managedIn
  rw [override?_of_stated hc hstated]
  by_cases hforced : stated.forced c.version n.scope = {}
  · rw [if_pos hforced, hforced, managedBy_nothing]
  · rw [if_neg hforced]

theorem managedIn_of_unstated (hc : n.coordinate = some c) (h : t.get? c.artifactKey = none) :
    n.managedIn t = n := by
  rw [managedIn, override?_of_unstated hc h]

/-- Only a version that differs from the declared one is recorded. -/
theorem managedVersion_managedIn (hc : n.coordinate = some c) (hn : n.managedVersion = none) :
    (n.managedIn t).managedVersion =
      (t.get? c.artifactKey).bind fun stated => stated.forcedVersion c.version := by
  cases hstated : t.get? c.artifactKey with
  | none => rw [managedIn_of_unstated hc hstated, hn, Option.bind_none]
  | some stated => simp [managedIn_of_stated hc hstated, managedBy, Override.forced, hn]

theorem managedScope_managedIn (hc : n.coordinate = some c) (hn : n.managedScope = none) :
    (n.managedIn t).managedScope =
      (t.get? c.artifactKey).bind fun stated => stated.forcedScope n.scope := by
  cases hstated : t.get? c.artifactKey with
  | none => rw [managedIn_of_unstated hc hstated, hn, Option.bind_none]
  | some stated => simp [managedIn_of_stated hc hstated, managedBy, Override.forced, hn]

theorem coordinate_managedIn (n : Node) (t : Management) :
    (n.managedIn t).coordinate = n.coordinate := by
  unfold managedIn
  cases t.override? n <;> rfl

theorem scope_managedIn (n : Node) (t : Management) : (n.managedIn t).scope = n.scope := by
  unfold managedIn
  cases t.override? n <;> rfl

theorem isManaged_eq_false_iff :
    n.isManaged = false ↔ n.managedVersion = none ∧ n.managedScope = none := by
  simp [isManaged]

theorem isManaged_managedIn (hn : n.isManaged = false) :
    (n.managedIn t).isManaged = (t.override? n).isSome := by
  unfold managedIn
  cases ho : t.override? n with
  | none => exact hn
  | some o =>
    obtain ⟨c, stated, hc, hstated, rfl⟩ := Management.exists_of_override? ho
    have hforced : stated.forced c.version n.scope ≠ {} := by
      intro hforced
      rw [override?_of_stated hc hstated, if_pos hforced] at ho
      cases ho
    simp only [Override.forced, ne_eq, Override.mk.injEq, not_and] at hforced
    cases hversion : stated.forcedVersion c.version <;>
      cases hscope : stated.forcedScope n.scope <;>
        simp_all [isManaged, managedBy]

end Node

namespace Graph

/-! ## All nodes -/

variable {t : Management}

theorem node_manageAt (state : Graph × Nat) (id other : Nat) :
    (manageAt t state id).1.node other =
      if other = id then (state.1.node id).managedIn t else state.1.node other := by
  unfold manageAt Node.managedIn
  cases ho : t.override? (state.1.node id) with
  | none =>
    by_cases hother : other = id
    · rw [if_pos hother, hother]
    · rw [if_neg hother]
  | some o =>
    have hid : id < state.1.size := by
      by_contra hid
      rw [node_of_size_le (Nat.le_of_not_lt hid), Node.override?_of_malformed rfl] at ho
      cases ho
    by_cases hother : other = id
    · rw [if_pos hother, hother]
      exact node_modify_self _ hid
    · rw [if_neg hother]
      exact node_modify_of_ne _ hother

/-- Nodes that are visited once are managed, and nothing else happens to the graph. -/
theorem node_foldl_manageAt {ids : List Nat} (hids : ids.Nodup) (state : Graph × Nat) (id : Nat) :
    (ids.foldl (manageAt t) state).1.node id =
      if id ∈ ids then (state.1.node id).managedIn t else state.1.node id := by
  induction ids generalizing state with
  | nil => rfl
  | cons first ids ih =>
    obtain ⟨hfirst, hids⟩ := List.nodup_cons.1 hids
    rw [List.foldl_cons, ih hids, node_manageAt]
    by_cases hid : id = first
    · subst hid
      simp [hfirst]
    · simp [hid]

theorem count_foldl_manageAt {ids : List Nat} (hids : ids.Nodup) (state : Graph × Nat) :
    (ids.foldl (manageAt t) state).2 =
      state.2 + ids.countP fun id => (t.override? (state.1.node id)).isSome := by
  induction ids generalizing state with
  | nil => rfl
  | cons first ids ih =>
    obtain ⟨hfirst, hids⟩ := List.nodup_cons.1 hids
    -- the other nodes read as before when their turn comes
    have hrest : ids.countP (fun id => (t.override? ((manageAt t state first).1.node id)).isSome) =
        ids.countP fun id => (t.override? (state.1.node id)).isSome := by
      refine List.countP_congr fun id hid => ?_
      rw [node_manageAt, if_neg (ne_of_mem_of_not_mem hid hfirst)]
    rw [List.foldl_cons, ih hids, hrest, List.countP_cons, manageAt]
    cases t.override? (state.1.node first) with
    | none => simp
    | some o =>
      simp only [Option.isSome_some, if_true]
      omega

section Tree

variable {g : Graph} (hg : g.preorder = List.range g.size)
include hg

theorem nodup_managed : (g.preorder.filter (· != root)).Nodup := by
  rw [hg]
  exact List.nodup_range.filter _

/-- Each node but the root is left as the table leaves it. -/
theorem node_manage (id : Nat) :
    (g.manage t).1.node id = if id = root then g.node id else (g.node id).managedIn t := by
  rw [manage, node_foldl_manageAt (nodup_managed hg), hg]
  by_cases hroot : id = root
  · simp [hroot]
  · by_cases hid : id < g.size
    · simp [hroot, hid]
    · have hnode : g.node id = {} := node_of_size_le (Nat.le_of_not_lt hid)
      have hmanaged : (g.node id).managedIn t = g.node id := by
        rw [Node.managedIn, Node.override?_of_malformed (by rw [hnode])]
      simp [hmanaged]

/-- Management returns how many nodes are managed, if none was before. -/
theorem manage_count (hnone : ∀ id, (g.node id).isManaged = false) :
    (g.manage t).2 =
      (List.range g.size).countP fun id => ((g.manage t).1.node id).isManaged := by
  have hcount : (g.manage t).2 = _ := count_foldl_manageAt (nodup_managed hg) (g, 0)
  rw [Nat.zero_add, List.countP_filter, hg] at hcount
  refine hcount.trans (List.countP_congr fun id _ => ?_)
  rw [node_manage hg]
  by_cases hroot : id = root
  · simp [hroot, hnone]
  · simp [hroot, Node.isManaged_managedIn (hnone id)]

end Tree

end Graph

/-! ## Analyses of manifests -/

/-- What is in force on the node is what `entry` states, else what the node declares. Only what differs
from the declared value is recorded. -/
structure Node.Follows (n : Node) (c : Coordinate) (scope : Scope)
    (entry : Option ManagementSection) : Prop where
  coordinate : n.coordinate = some c
  declaredScope : n.scope = some scope
  stated : ∀ e ∈ entry, e.scope = e.forcedScope.map Scope.name
  effectiveVersion : n.effectiveVersion = some ((entry.bind (·.version)).getD c.version)
  effectiveScope : n.effectiveScope = some ((entry.bind (·.forcedScope)).getD scope)
  managedVersion_iff : n.managedVersion.isSome ↔ ∃ e ∈ entry, ∃ v ∈ e.version, v ≠ c.version
  managedScope_iff : n.managedScope.isSome ↔ ∃ e ∈ entry, ∃ s ∈ e.forcedScope, s ≠ scope

section Forced

variable {α : Type} [DecidableEq α]

/-- Dropping a stated value that is the declared one changes nothing. -/
theorem forced_or_declared (stated : Option α) (declared : α) :
    (stated.filter (· != declared) <|> some declared) = some (stated.getD declared) := by
  cases stated with
  | none => rfl
  | some value => by_cases h : value = declared <;> simp [Option.filter_some, h]

theorem isSome_forced_iff {stated : Option α} {declared : α} :
    (stated.filter (· != declared)).isSome ↔ ∃ value ∈ stated, value ≠ declared := by
  cases stated with
  | none => simp
  | some value => by_cases h : value = declared <;> simp [Option.filter_some, h]

end Forced

/-- A node follows the entry from which the table has its override. -/
theorem Node.follows_managedIn {n : Node} {t : Management} {c : Coordinate} {scope : Scope}
    {entry : Option ManagementSection} (hc : n.coordinate = some c) (hscope : n.scope = some scope)
    (hn : n.isManaged = false) (hstated : ∀ e ∈ entry, e.scope = e.forcedScope.map Scope.name)
    (ht : t.get? c.artifactKey = entry.map fun e => ⟨e.version, e.forcedScope⟩) :
    (n.managedIn t).Follows c scope entry := by
  obtain ⟨hversionNone, hscopeNone⟩ := isManaged_eq_false_iff.1 hn
  have hversion : (n.managedIn t).managedVersion =
      (entry.bind (·.version)).filter (· != c.version) := by
    rw [managedVersion_managedIn hc hversionNone, ht]
    cases entry <;> rfl
  have hmanagedScope : (n.managedIn t).managedScope =
      (entry.bind (·.forcedScope)).filter (· != scope) := by
    have hne : (some scope != some ·) = (· != scope) := by
      funext s
      simp [bne, eq_comm]
    rw [managedScope_managedIn hc hscopeNone, ht, hscope, ← hne]
    cases entry <;> rfl
  refine ⟨?_, ?_, hstated, ?_, ?_, ?_, ?_⟩
  · rw [coordinate_managedIn, hc]
  · rw [scope_managedIn, hscope]
  · rw [effectiveVersion, hversion, coordinate_managedIn, hc]
    exact forced_or_declared _ _
  · rw [effectiveScope, hmanagedScope, scope_managedIn, hscope]
    exact forced_or_declared _ _
  · rw [hversion, isSome_forced_iff]
    cases entry <;> simp
  · rw [hmanagedScope, isSome_forced_iff]
    cases entry <;> simp

theorem Node.Follows.of_unjudged {n n' : Node} {c : Coordinate} {scope : Scope}
    {entry : Option ManagementSection} (h : n.Follows c scope entry)
    (hn : n'.unjudged = n.unjudged) : n'.Follows c scope entry := by
  have hsame : n' = { n with status := n'.status } := by
    cases n
    cases n'
    simp_all [unjudged]
  rw [hsame]
  exact ⟨h.coordinate, h.declaredScope, h.stated, h.effectiveVersion, h.effectiveScope,
    h.managedVersion_iff, h.managedScope_iff⟩

open ArtifactTree.Graph Mediation

section Analyze

variable {m : Type → Type} {σ : Type} [Monad m] [Execution m σ] {collector : Collector m}
  {limit : Nat} {s : σ} {analysis : Analysis}

/-- Apart from the statuses, the graph of an analysis is an unfolding of the project that was managed. -/
theorem exists_managed_of_analyze {project : Project} {inv : σ → Prop}
    {declares : Coordinate → List Declaration → Prop} (hcollector : collector.Answers inv declares)
    (hs : inv s) (h : (exec (project.analyze collector limit).run s).1 = .ok analysis) :
    ∃ forest, Forest.UnfoldsProject declares project.coordinate project.dependencies forest ∧
      (exec (project.unfold collector limit).run s).1 = .ok (forest.toGraph project.coordinate) ∧
      analysis.graph.clearStatuses =
        ((forest.toGraph project.coordinate).manage project.management).1.clearStatuses := by
  obtain ⟨unfolded, hunfold, hgraph⟩ := exists_unfold_of_analyze h
  obtain ⟨forest, hforest, rfl⟩ := unfoldsProject_of_exec_unfold hcollector hs hunfold
  have hbare := (manage_frame (forest.toGraph project.coordinate) project.management).1
  refine ⟨forest, hforest, hunfold, ?_⟩
  rw [hgraph]
  exact clearStatuses_mediate ((Forest.isUnfolding_toGraph hforest).congr hbare.symm)

theorem Forest.isManaged_toGraph (forest : Forest) (project : Coordinate) (id : Nat) :
    ((forest.toGraph project).node id).isManaged = false := by
  rw [← Forest.bare_toGraph, node_bare]
  rfl

/-- Every node of an analysis follows the last entry for its artifact and no other, the project follows
none, and management returns the number of nodes on which it records something. The manifest has to be
valid; where it comes from does not matter. -/
theorem managed_of_validate {manifest : Manifest} {project : Project} {inv : σ → Prop}
    (hvalidate : manifest.validate = .ok ()) (hproject : manifest.toProject = .ok project)
    (hcollector : collector.Answers inv fun _ ds => ∀ d ∈ ds, d.coordinate.PartsColonFree)
    (hs : inv s) (h : (exec (project.analyze collector limit).run s).1 = .ok analysis) :
    (∀ id, id < analysis.graph.size → id ≠ root →
      ∃ c scope, (analysis.graph.node id).Follows c scope (manifest.managing? c)) ∧
    (analysis.graph.node root).isManaged = false ∧
    ∃ unfolded, (exec (project.unfold collector limit).run s).1 = .ok unfolded ∧
      (unfolded.manage project.management).2 =
        (List.range analysis.graph.size).countP fun id => (analysis.graph.node id).isManaged := by
  obtain ⟨hvalid, hvalidDependencies⟩ := Manifest.valid_of_toProject hvalidate hproject
  obtain ⟨forest, hforest, hunfold, hclear⟩ := exists_managed_of_analyze hcollector hs h
  have hunfolding := Forest.isUnfolding_toGraph hforest
  have horder := Forest.preorder_toGraph forest project.coordinate
  have hnone := Forest.isManaged_toGraph forest project.coordinate
  have hfree : ∀ {id c}, ((forest.toGraph project.coordinate).node id).coordinate = some c →
      c.PartsColonFree :=
    hforest.forall_coordinates (fun hds => hds) hvalid.partsColonFree fun d hd =>
      (hvalidDependencies d hd).partsColonFree
  generalize forest.toGraph project.coordinate = g at *
  have hsize : analysis.graph.size = g.size :=
    (size_eq_of_clearStatuses hclear).trans (size_eq_of_bare (manage_frame g _).1)
  have hisManaged : ∀ id, (analysis.graph.node id).isManaged =
      ((g.manage project.management).1.node id).isManaged :=
    read_eq_of_unjudged (fun _ => rfl) hclear
  refine ⟨fun id hid hroot => ?_, ?_, g, hunfold, ?_⟩
  · obtain ⟨c, hc⟩ := hunfolding.coordinate (hsize ▸ hid)
    obtain ⟨scope, hscope⟩ := hunfolding.scope (hsize ▸ hid) hroot
    have hsections := (Manifest.validate_eq_ok hvalidate).2.2
    have htable := Manifest.get?_managementTable hsections (Manifest.toProject_eq_ok hproject).2.2
      (hfree hc)
    have hstated : ∀ e ∈ manifest.managing? c, e.scope = e.forcedScope.map Scope.name :=
      fun e he => ManagementSection.scope_eq_of_validate (hsections e (Manifest.mem_of_managing? he))
    refine ⟨c, scope, (Node.follows_managedIn hc hscope (hnone id) hstated htable).of_unjudged ?_⟩
    rw [← node_clearStatuses, hclear, node_clearStatuses, node_manage horder, if_neg hroot]
  · rw [hisManaged, node_manage horder, if_pos rfl]
    exact hnone root
  · rw [manage_count horder hnone, hsize]
    exact List.countP_congr fun id _ => by rw [hisManaged]

/-- **Management, from the text of the manifest to the graph.** -/
theorem managed_by_last_entry {text : String} {manifest : Manifest} {project : Project}
    {inv : σ → Prop} (hparse : Manifest.parse text = .ok manifest)
    (hproject : manifest.toProject = .ok project)
    (hcollector : collector.Answers inv fun _ ds => ∀ d ∈ ds, d.coordinate.PartsColonFree)
    (hs : inv s) (h : (exec (project.analyze collector limit).run s).1 = .ok analysis) :
    (∀ id, id < analysis.graph.size → id ≠ root →
      ∃ c scope, (analysis.graph.node id).Follows c scope (manifest.managing? c)) ∧
    (analysis.graph.node root).isManaged = false ∧
    ∃ unfolded, (exec (project.unfold collector limit).run s).1 = .ok unfolded ∧
      (unfolded.manage project.management).2 =
        (List.range analysis.graph.size).countP fun id => (analysis.graph.node id).isManaged :=
  managed_of_validate (Manifest.validate_of_parse hparse) hproject hcollector hs h

end Analyze

/-- A manifest that manages one artifact twice, first its version and then its scope. -/
def managedTwice : String :=
  "[project]
group='o'
name='a'
version='1'
[[dependencies]]
group='o'
name='w'
version='1'
[[management]]
group='o'
name='w'
version='2'
[[management]]
group='o'
name='w'
scope='test'
"

def managedTwiceManifest : Manifest where
  project := some { group := "o", name := "a", version := "1" }
  dependencies := [{ group := "o", name := "w", version := "1" }]
  management := [{ group := "o", name := "w", version := some "2" },
    { group := "o", name := "w", scope := some "test" }]

def managedTwiceProject : Project where
  coordinate := ⟨"o", "a", "jar", "1", none⟩
  dependencies := [{ coordinate := ⟨"o", "w", "jar", "1", none⟩ }]
  management := ⟨[("o:w:jar", { scope := some .test })]⟩

/-- The first entry does not count, not even for the version, of which the second says nothing. -/
theorem follows_managedTwice :
    ∃ manifest project analysis, Manifest.parse managedTwice = .ok manifest ∧
      manifest.toProject = .ok project ∧
      (exec (project.analyze (.ofFunction (fun _ => .ok []) : Collector Id) 3).run ()).1 =
        .ok analysis ∧
      (analysis.graph.node 1).managedVersion = none ∧
      (analysis.graph.node 1).managedScope = some .test ∧
      ∃ c scope, (analysis.graph.node 1).Follows c scope (manifest.managing? c) := by
  have hparse : Manifest.parse managedTwice = .ok managedTwiceManifest :=
    Accepted.eq_ok_of_toOption (by decide +kernel)
  have hproject : managedTwiceManifest.toProject = .ok managedTwiceProject := rfl
  have hcollector : (.ofFunction (fun _ => .ok []) : Collector Id).Answers (fun _ => True)
      fun _ ds => ∀ d ∈ ds, d.coordinate.PartsColonFree := by
    refine ⟨fun _ _ => trivial, fun _ c ds hds => ?_⟩
    obtain rfl := Except.ok.inj hds
    simp
  have h : (exec (managedTwiceProject.analyze (.ofFunction (fun _ => .ok []) : Collector Id)
      3).run ()).1 = .ok _ := rfl
  refine ⟨_, _, _, hparse, hproject, h, by decide +kernel, by decide +kernel, ?_⟩
  exact (managed_by_last_entry hparse hproject hcollector trivial h).1 1 (by decide +kernel)
    (by decide)

end ArtifactTree
