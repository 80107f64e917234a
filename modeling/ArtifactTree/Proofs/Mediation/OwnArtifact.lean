import ArtifactTree.Proofs.Mediation.Markers

/-!
# Requests for the project's own artifact

The root is judged first and included, so the version that is known for the project's own artifact is
the project's own (`effectiveVersion_of_ownArtifact`). A request for that artifact at another version
therefore loses, and so do optional requests and cycle markers (`not_included_of_ownArtifact`).

One way in is left. The root has no scope, hence its full key ends with the version, and the full key
of a request never does: neither the rule for duplicates nor the one for scopes sees the project. A
request whose version in force is the project's own is included beside it. Management leads there as
well as the declared version does (`ownRequest_included`).
-/

namespace ArtifactTree

open ArtifactTree.Graph

namespace Mediation

/-- Before anything is included, nothing stands against a node that has a coordinate and is not
optional. -/
theorem verdict_of_no_winners {n : Node} {c : Coordinate} (hc : n.coordinate = some c)
    (hoptional : n.optional = false) : ({} : Winners).verdict n = .included := by
  have hrule := Winners.rule_verdict {} n
  generalize ({} : Winners).verdict n = status at hrule
  cases hrule with
  | malformed hnone => simp [hnone] at hc
  | duplicate _ _ hkey => cases hkey
  | scopeConflict _ _ _ hscope => cases (Winners.otherScope?_eq_some hscope).2
  | versionConflict _ _ _ _ hother => cases (Winners.otherVersion?_eq_some.1 hother).1
  | optional _ htrue => simp [hoptional] at htrue
  | included => rfl

namespace Outcome

variable {g : Graph} {project : Coordinate} {trace : Trace} (h : Outcome g project trace)
include h

theorem root_mem_included (hoptional : (g.node root).optional = false) : root ∈ trace.included := by
  have hroot : root ∈ trace.ids := by
    rw [h.order]
    exact List.mem_cons_self
  obtain ⟨status, hmem⟩ := Trace.mem_ids.1 hroot
  obtain ⟨before, after, htrace⟩ := List.append_of_mem hmem
  have hjudged := h.judged
  rw [htrace] at hjudged
  have hverdict := hjudged.verdict
  rw [h.eq_nil_of_root htrace.symm] at hverdict
  rw [Trace.mem_included, ← verdict_of_no_winners h.unfolding.coordinate_root hoptional]
  exact hverdict ▸ hmem

/-- A node that is included was judged unopposed, and is neither optional nor a cycle marker. -/
theorem of_status_included {id : Nat} (hstatus : (g.node id).status = .included) :
    (g.node id).optional = false ∧ (g.node id).cycleOf = none := by
  have hmem := Trace.mem_included.1 (h.mem_included_of_status hstatus)
  obtain ⟨before, hverdict, -⟩ := h.exists_before hmem
  refine ⟨?_, h.cycleOf_eq_none (Trace.mem_ids.2 ⟨_, hmem⟩)⟩
  have hrule := before.winners g |>.rule_verdict (g.node id)
  rw [← hverdict] at hrule
  cases hrule with
  | included _ hoptional => exact hoptional

/-- Only a node without a coordinate is malformed. -/
theorem status_ne_malformed {id : Nat} {c : Coordinate} (hc : (g.node id).coordinate = some c) :
    (g.node id).status ≠ .omitted .malformed := by
  intro hstatus
  rcases h.mem_or_of_status hstatus with hmem | hmarker | hunmet
  · obtain ⟨before, hverdict, -⟩ := h.exists_before hmem
    have hrule := before.winners g |>.rule_verdict (g.node id)
    rw [← hverdict] at hrule
    cases hrule with
    | malformed hnone => simp [hnone] at hc
  · rw [markerOmission, hc] at hmarker
    cases hoptional : (g.node id).optional <;> simp [hoptional] at hmarker
  · cases hunmet

end Outcome

end Mediation

open Mediation

section Analyze

variable {m : Type → Type} {σ : Type} [Monad m] [Execution m σ] {project : Project}
  {collector : Collector m} {limit : Nat} {s : σ} {analysis : Analysis}

/-- Management and mediation leave the root the project that it is. -/
theorem root_of_analyze
    (h : (exec (project.analyze collector limit).run s).1 = .ok analysis) :
    (analysis.graph.node root).optional = false ∧
      (analysis.graph.node root).coordinate = some project.coordinate ∧
      (analysis.graph.node root).effectiveVersion = some project.coordinate.version := by
  obtain ⟨forest, hforest, hgraph⟩ := exists_forest_of_analyze collector.answers_anything trivial h
  obtain ⟨hbare, hroot⟩ := manage_frame (forest.toGraph project.coordinate) project.management
  have hunfolding := (Forest.isUnfolding_toGraph hforest).congr hbare.symm
  have hsame : (analysis.graph.node root).unjudged =
      { Node.project project.coordinate with children := forest.ids 1 } := by
    rw [hgraph, ← node_clearStatuses, clearStatuses_mediate hunfolding, node_clearStatuses, hroot,
      Forest.node_toGraph_root]
    rfl
  -- none of the three reads the status
  have hread : ∀ {α : Type} (read : Node → α), (∀ n, read n.unjudged = read n) →
      read (analysis.graph.node root) =
        read { Node.project project.coordinate with children := forest.ids 1 } := by
    intro α read hread
    rw [← hread, hsame]
  exact ⟨hread _ fun _ => rfl, hread _ fun _ => rfl, hread _ fun _ => rfl⟩

/-- Requests for the project's own artifact are included at the project's own version only. -/
theorem effectiveVersion_of_ownArtifact
    (h : (exec (project.analyze collector limit).run s).1 = .ok analysis) {id : Nat}
    (hkey : (analysis.graph.node id).artifactKey = some project.coordinate.artifactKey)
    (hstatus : (analysis.graph.node id).status = .included) :
    (analysis.graph.node id).effectiveVersion = some project.coordinate.version := by
  obtain ⟨trace, houtcome⟩ := exists_outcome_of_analyze h
  obtain ⟨hoptional, hcoordinate, hversion⟩ := root_of_analyze h
  have hid := houtcome.mem_included_of_status hstatus
  have hroot := houtcome.root_mem_included hoptional
  have hrootKey := Node.artifactKey_of_coordinate hcoordinate
  calc (analysis.graph.node id).effectiveVersion
      = (trace.winners analysis.graph).versions.lookup project.coordinate.artifactKey :=
        (houtcome.judged.lookup_versions hid hkey).symm
    _ = (analysis.graph.node root).effectiveVersion :=
        houtcome.judged.lookup_versions hroot hrootKey
    _ = some project.coordinate.version := hversion

/-- **The project is not mediated in as its own dependency**, except by a request that has the
project's own version in force and is neither optional nor a cycle marker. -/
theorem not_included_of_ownArtifact
    (h : (exec (project.analyze collector limit).run s).1 = .ok analysis) {id : Nat}
    (hkey : (analysis.graph.node id).artifactKey = some project.coordinate.artifactKey)
    (hother : (analysis.graph.node id).effectiveVersion ≠ some project.coordinate.version ∨
      (analysis.graph.node id).optional = true ∨ (analysis.graph.node id).cycleOf ≠ none) :
    (analysis.graph.node id).status ≠ .included ∧
      (analysis.graph.node id).status ≠ .omitted .malformed := by
  obtain ⟨trace, houtcome⟩ := exists_outcome_of_analyze h
  obtain ⟨c, hc, -⟩ := Node.exists_coordinate_of_artifactKey hkey
  refine ⟨fun hstatus => ?_, houtcome.status_ne_malformed hc⟩
  obtain ⟨hoptional, hcycle⟩ := houtcome.of_status_included hstatus
  rcases hother with hversion | htrue | hmarker
  · exact hversion (effectiveVersion_of_ownArtifact h hkey hstatus)
  · rw [hoptional] at htrue
    cases htrue
  · exact hmarker hcycle

end Analyze

/-- A project that asks for an older version of itself, once by way of `web`. -/
def ownRequests : Project where
  coordinate := ⟨"org", "app", "jar", "2", none⟩
  dependencies := [
    { coordinate := ⟨"org", "web", "jar", "1", none⟩ },
    { coordinate := ⟨"org", "app", "jar", "1", none⟩ }]

def ownAnswer (c : Coordinate) : Answer :=
  .ok (if c.name = "web" then [{ coordinate := ⟨"org", "app", "jar", "1", none⟩ }] else [])

/-- The node 3 is a request for the project at another version. -/
theorem not_included_ownRequests :
    ∃ analysis, (exec (ownRequests.analyze (.ofFunction ownAnswer : Collector Id) 3).run ()).1 =
        .ok analysis ∧
      (analysis.graph.node 3).artifactKey = some ownRequests.coordinate.artifactKey ∧
      (analysis.graph.node 3).effectiveVersion ≠ some ownRequests.coordinate.version ∧
      (analysis.graph.node 3).status ≠ .included ∧
      (analysis.graph.node 3).status ≠ .omitted .malformed := by
  have h : (exec (ownRequests.analyze (.ofFunction ownAnswer : Collector Id) 3).run ()).1 =
      .ok _ := rfl
  refine ⟨_, h, by decide +kernel, by decide +kernel, ?_⟩
  exact not_included_of_ownArtifact h (by decide +kernel) (.inl (by decide +kernel))

/-- A project that asks for another version of itself and forces its own. -/
def ownVersionForced : Project where
  coordinate := ⟨"org", "app", "jar", "1", none⟩
  dependencies := [{ coordinate := ⟨"org", "app", "jar", "2", none⟩ }]
  management := .ofList [("org:app:jar", { version := some "1" })]

/-- The node 1 is a request for the project itself, and is included beside it. -/
theorem ownRequest_included :
    ∃ analysis, (exec (ownVersionForced.analyze
        (({} : Catalogue).collector false) 3).run ([], #[], ())).1 = .ok analysis ∧
      1 ≠ root ∧
      (analysis.graph.node 1).artifactKey = some ownVersionForced.coordinate.artifactKey ∧
      (analysis.graph.node 1).status = .included := by
  have h : (exec (ownVersionForced.analyze
      (({} : Catalogue).collector false) 3).run ([], #[], ())).1 = .ok _ := rfl
  exact ⟨_, h, by decide, by decide +kernel, by decide +kernel⟩

end ArtifactTree
