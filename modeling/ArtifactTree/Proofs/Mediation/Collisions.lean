import ArtifactTree.Proofs.Rendering.Labels

/-!
# Artifacts with one key

Between accepted coordinates and versions, a shift of parts is the only way for the keys of two artifacts
to be the same (`Coordinate.Shifted`), and it does occur: versions are free enough to be the name of a
scope. Only the project has a key without a scope, so what mediation takes for a duplicate of another
artifact is a request of a project with a classifier, at that classifier as its version and in the scope
that the version of the project names.

Main statement: `Coordinate.keys_eq_iff`.
-/

namespace ArtifactTree

open Validation ArtifactTree.Graph Mediation

namespace Coordinate

/-- Whether a section that validation accepts has the coordinate. -/
def Accepted (c : Coordinate) : Prop :=
  (∃ s : ProjectSection, s.validate = .ok () ∧ s.coordinate = c) ∨
    ∃ s : DependencySection, s.validate = .ok () ∧ s.coordinate = c

theorem Accepted.valid {c : Coordinate} (h : c.Accepted) : c.Valid := by
  rcases h with ⟨s, hs, rfl⟩ | ⟨s, hs, rfl⟩
  · exact s.valid_of_validate hs
  · exact s.valid_of_validate hs

variable {c d : Coordinate} {version version' : String}

/-- Keys of accepted coordinates stand for what they were built from, up to a shift. -/
theorem keys_eq_iff (hc : c.Accepted) (hd : d.Accepted) (hversion : checkVersion version = .ok ())
    (hversion' : checkVersion version' = .ok ()) (scope scope' : Option Scope) :
    (c.fullKey version scope = d.fullKey version' scope' ↔
      c.artifact = d.artifact ∧ version = version' ∧ scope = scope' ∨
        c.Shifted d version version' scope scope' ∨
          d.Shifted c version' version scope' scope) ∧
    (c.artifactKey = d.artifactKey ↔ c.artifact = d.artifact) := by
  have hparts := hc.valid.partsColonFree
  have hparts' := hd.valid.partsColonFree
  have hfree := colonFree_of_isVersion (checkVersion_eq_ok.1 hversion)
  have hfree' := colonFree_of_isVersion (checkVersion_eq_ok.1 hversion')
  exact ⟨fullKey_eq_iff hparts hparts' hfree hfree', artifactKey_eq_iff hparts hparts'⟩

end Coordinate

/-- A project with a classifier, and with the name of a scope as its version. -/
def classifiedSection : ProjectSection :=
  { group := "org", name := "app", version := "test", classifier := some "1" }

/-- A request for the same name without a classifier. -/
def unclassifiedSection : DependencySection :=
  { group := "org", name := "app", version := "1", scope := some "test" }

theorem shifted_classifiedSection :
    classifiedSection.validate = .ok () ∧ unclassifiedSection.validate = .ok () ∧
      checkVersion "test" = .ok () ∧ checkVersion "1" = .ok () ∧
      classifiedSection.coordinate.Shifted unclassifiedSection.coordinate "test" "1" none
        (some .test) ∧
      classifiedSection.coordinate.artifactKey ≠ unclassifiedSection.coordinate.artifactKey := by
  have hproject : classifiedSection.validate = .ok () := rfl
  have hrequest : unclassifiedSection.validate = .ok () := rfl
  have hkeys := Coordinate.keys_eq_iff (.inl ⟨_, hproject, rfl⟩) (.inr ⟨_, hrequest, rfl⟩)
    (rfl : checkVersion "test" = .ok ()) (rfl : checkVersion "1" = .ok ()) none (some .test)
  have hartifact : classifiedSection.coordinate.artifact ≠ unclassifiedSection.coordinate.artifact := by
    decide
  have hkey : classifiedSection.coordinate.fullKey "test" none =
      unclassifiedSection.coordinate.fullKey "1" (some .test) := by decide
  refine ⟨hproject, hrequest, rfl, rfl, ?_, mt hkeys.2.1 hartifact⟩
  rcases hkeys.1.1 hkey with hsame | hshifted | hshifted
  · exact absurd hsame.1 hartifact
  · exact hshifted
  · cases hshifted.unscoped

/-! ## Duplicates -/

namespace Mediation.Outcome

variable {g : Graph} {project : Coordinate} {trace : Trace} (h : Outcome g project trace)
include h

theorem not_before_root {id : Nat} (hid : id ∈ trace.ids) : ¬ g.Before id root := by
  have hsorted := h.sorted
  rw [h.order, List.pairwise_cons] at hsorted
  rw [h.order, List.mem_cons] at hid
  rcases hid with rfl | hid
  · exact Before.irrefl
  · exact (hsorted.1 id hid).asymm

/-- A duplicate repeats an included node, or the project has its key by a shift. -/
theorem duplicate_cases (hvalid : ∀ id, (g.node id).Valid) {id : Nat} {of : Coordinate}
    (hstatus : (g.node id).status = .omitted (.duplicate of)) :
    ∃ winner c d version version', g.WinsBefore winner id ∧
      (g.node winner).coordinate = some c ∧ (g.node id).coordinate = some d ∧
      (g.node winner).effectiveVersion = some version ∧
      (g.node id).effectiveVersion = some version' ∧
      (c.artifact = d.artifact ∧ version = version' ∧
          (g.node winner).effectiveScope = (g.node id).effectiveScope ∨
        winner = root ∧ c.Shifted d version version' none (g.node id).effectiveScope) := by
  obtain ⟨winner, key, hwins, hkey, hkey'⟩ := h.exists_winner_of_duplicate hstatus
  obtain ⟨d, hd, rfl⟩ := Option.map_eq_some_iff.1 hkey
  obtain ⟨c, hc, hsame⟩ := Option.map_eq_some_iff.1 hkey'
  have hversion := Node.effectiveVersion_of_coordinate hc
  have hversion' := Node.effectiveVersion_of_coordinate hd
  have hfree := colonFree_of_isVersion ((hvalid winner).isVersion_of_effectiveVersion hversion)
  have hfree' := colonFree_of_isVersion ((hvalid id).isVersion_of_effectiveVersion hversion')
  have hjudged : winner ∈ trace.ids := trace.included_sublist.subset (h.mem_included_of_status hwins.1)
  refine ⟨winner, c, d, _, _, hwins, hc, hd, hversion, hversion', ?_⟩
  rcases (Coordinate.fullKey_eq_iff ((hvalid winner).coordinate c hc).partsColonFree
    ((hvalid id).coordinate d hd).partsColonFree hfree hfree').1 hsame with
      hrepeats | hshifted | hshifted
  · exact .inl hrepeats
  · -- only the root has no scope
    have hroot : winner = root := by
      by_contra hne
      obtain ⟨scope, hscope⟩ := h.exists_effectiveScope hjudged hne
      cases hscope.symm.trans hshifted.unscoped
    exact .inr ⟨hroot, hshifted.unscoped ▸ hshifted⟩
  · have hid : id ∈ trace.ids :=
      Trace.mem_ids.2
        ⟨_, h.mem_of_loss hstatus (ne_markerOmission (.duplicate of) nofun nofun nofun _)⟩
    have hroot : id ≠ root := fun heq => h.not_before_root hjudged (heq ▸ hwins.2)
    obtain ⟨scope, hscope⟩ := h.exists_effectiveScope hid hroot
    cases hscope.symm.trans hshifted.unscoped

end Mediation.Outcome

/-- A project with a classifier and a version that is the name of a scope, which requests an artifact
without a classifier in that scope. -/
def scopeNamed : Project where
  coordinate := classifiedSection.coordinate
  dependencies := [{ coordinate := unclassifiedSection.coordinate, scope := .test }]

/-- The request is for another artifact, and counts as a duplicate of the project. -/
theorem duplicate_scopeNamed :
    scopeNamed.coordinate.Accepted ∧ unclassifiedSection.coordinate.Accepted ∧
      scopeNamed.coordinate.fullKey "test" none =
        unclassifiedSection.coordinate.fullKey "1" (some .test) ∧
      scopeNamed.coordinate.artifact ≠ unclassifiedSection.coordinate.artifact ∧
      ∃ analysis, (exec (scopeNamed.analyze
          (({} : Catalogue).collector false) 3).run ([], #[], ())).1 = .ok analysis ∧
        (analysis.graph.node 1).status =
          .omitted (.duplicate unclassifiedSection.coordinate) := by
  have hproject : scopeNamed.coordinate.Accepted := .inl ⟨classifiedSection, rfl, rfl⟩
  have hrequest : unclassifiedSection.coordinate.Accepted := .inr ⟨unclassifiedSection, rfl, rfl⟩
  have h : (exec (scopeNamed.analyze
      (({} : Catalogue).collector false) 3).run ([], #[], ())).1 = .ok _ := rfl
  exact ⟨hproject, hrequest, by decide, by decide, _, h, by decide +kernel⟩

end ArtifactTree
