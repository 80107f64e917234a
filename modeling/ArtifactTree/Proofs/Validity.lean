import ArtifactTree.Proofs.Leniency
import ArtifactTree.Proofs.Rendering.Labels

/-!
# What is validated stays valid

Texts come into a graph by three ways: from the sections of the project, from those of the descriptors that
are read while the graph is unfolded, and from the management table, which forces versions on nodes. All
three are validated when they are read (`Manifest.parse`), and nothing but the version and the scope of a
node is changed afterwards. So the parts of each key are fields that can be told apart again, and labels
and edge labels stand on one line each.

Main statement: `Manifest.wellFormed_of_analyze`.
-/

namespace ArtifactTree

open Validation ArtifactTree.Graph Mediation

/-! ## Fields -/

/-- A part of a key: not empty, and without blanks and colons. -/
structure IsField (text : String) : Prop extends Plain text where
  ne_empty : text ≠ ""

theorem isField_of_isTokenChar {text : String} (hne : text.toList ≠ [])
    (h : ∀ c ∈ text.toList, isTokenChar c) : IsField text where
  colonFree := colonFree_of_isTokenChar h
  noBlank := noBlank_of_isTokenChar h
  ne_empty heq := hne (heq ▸ rfl)

theorem isField_of_isGroup {text : String} (h : isGroup text) : IsField text := by
  obtain ⟨first, rest, htext, -⟩ := exists_cons_of_isGroup h
  exact isField_of_isTokenChar (htext ▸ List.cons_ne_nil _ _) (isTokenChar_of_isGroup h)

theorem isField_of_isToken {text : String} (h : isToken text) : IsField text := by
  refine isField_of_isTokenChar (fun heq => ?_) (isTokenChar_of_isToken h)
  simp [isToken, heq] at h

theorem isField_of_isVersion {text : String} (h : isVersion text) : IsField text where
  colonFree := colonFree_of_isVersion h
  noBlank := noBlank_of_isVersion h
  ne_empty := by
    rintro rfl
    exact absurd h (by decide)

/-- All parts of the coordinate are fields. -/
structure Coordinate.WellFormed (c : Coordinate) : Prop where
  group : IsField c.group
  name : IsField c.name
  type : IsField c.type
  classifier : ∀ classifier ∈ c.classifier, IsField classifier
  version : IsField c.version

theorem Coordinate.Valid.wellFormed {c : Coordinate} (h : c.Valid) : c.WellFormed where
  group := isField_of_isGroup h.group
  name := isField_of_isToken h.name
  type := isField_of_isToken h.type
  classifier classifier hc := isField_of_isToken (h.classifier classifier hc)
  version := isField_of_isVersion h.version

/-! ## Nodes -/

/-- A node whose texts are as manifests may write them. -/
structure Node.WellFormed (n : Node) : Prop where
  coordinate : ∃ c ∈ n.coordinate, c.WellFormed
  managedVersion : ∀ version ∈ n.managedVersion, IsField version
  label : OnlySpaces n.label
  edgeLabel : OnlySpaces n.edgeLabel

/-- A node whose key is cut by colons into its parts: five, or six with a classifier. -/
structure Node.Separable (n : Node) : Prop where
  scope : n.scope.isSome
  parts : ∃ c version scope key, n.coordinate = some c ∧ n.effectiveVersion = some version ∧
    n.effectiveScope = some scope ∧ n.fullKey = some key ∧
    Text.segments ':' key.toList =
      ([c.group, c.name, c.type] ++ c.classifier.toList ++ [version, scope.name]).map String.toList

theorem Node.Presentable.wellFormed {n : Node} (h : n.Presentable) (hc : n.coordinate.isSome) :
    n.WellFormed where
  coordinate := by
    obtain ⟨c, hc⟩ := Option.isSome_iff_exists.1 hc
    exact ⟨c, hc, (h.coordinate c hc).wellFormed⟩
  managedVersion version hversion := isField_of_isVersion (h.managedVersion version hversion)
  label := h.onlySpaces_label
  edgeLabel := h.onlySpaces_edgeLabel

theorem Node.Valid.separable {n : Node} {c : Coordinate} {scope : Scope} (h : n.Valid)
    (hc : n.coordinate = some c) (hscope : n.scope = some scope) : n.Separable where
  scope := hscope ▸ rfl
  parts := by
    have hversion := effectiveVersion_of_coordinate hc
    have hfree := colonFree_of_isVersion (h.isVersion_of_effectiveVersion hversion)
    obtain ⟨effective, heffective⟩ := exists_effectiveScope_of_scope hscope
    have hkey := heffective ▸ fullKey_of_coordinate hc hversion
    refine ⟨c, _, effective, _, hc, hversion, heffective, hkey, ?_⟩
    rw [(h.coordinate c hc).partsColonFree.segments_fullKey hfree, Coordinate.fullParts,
      Coordinate.artifactParts, List.append_assoc]
    rfl

/-- Every node of the graph is well formed, and the key of every node but the root is cut into its
parts. -/
structure Graph.WellFormed (g : Graph) : Prop where
  node : ∀ id, id < g.size → (g.node id).WellFormed
  separable : ∀ id, id < g.size → id ≠ root → (g.node id).Separable

/-! ## From manifests to graphs -/

/-- All texts of a project are as manifests may write them. -/
structure Project.Valid (project : Project) : Prop where
  coordinate : project.coordinate.Valid
  dependencies : ∀ d ∈ project.dependencies, d.coordinate.Valid
  management : ∀ entry ∈ project.management.entries, ∀ version ∈ entry.2.version, isVersion version

theorem Manifest.valid_project {manifest : Manifest} {project : Project}
    (hvalidate : manifest.validate = .ok ()) (hproject : manifest.toProject = .ok project) :
    project.Valid := by
  obtain ⟨hcoordinate, hdependencies⟩ := valid_of_toProject hvalidate hproject
  have htable := (toProject_eq_ok hproject).2.2
  exact ⟨hcoordinate, hdependencies,
    isVersion_of_managementTable (validate_eq_ok hvalidate).2.2 htable⟩

section Analyze

variable {m : Type → Type} {σ : Type} [Monad m] [Execution m σ]

/-- What is declared by a text that is taken for a descriptor is valid. -/
theorem Repository.valid_of_declarationsOf {path : Path} {text : String} {ds : List Declaration}
    (h : declarationsOf path text = .ok ds) : ∀ d ∈ ds, d.coordinate.Valid := by
  rw [declarationsOf, Accepted.mapError_eq_ok, Accepted.bind_eq_ok] at h
  obtain ⟨manifest, hparse, hds⟩ := h
  have hsections := (Manifest.validate_eq_ok (Manifest.validate_of_parse hparse)).2.1
  intro d hd
  obtain ⟨s, hs, heq⟩ := Manifest.exists_section_of_declarations hds d hd
  exact heq ▸ s.valid_of_validate (hsections s hs)

/-- Whatever is in the repository, and however it changes meanwhile, its answers are valid. -/
theorem Repository.answers_valid (storage : Storage m) (r : Repository) :
    (r.collector storage).Answers (fun _ => True) fun _ ds => ∀ d ∈ ds, d.coordinate.Valid where
  keeps _ _ := trivial
  tells := by
    intro s _ c ds h
    rcases exists_text_of_collect storage r h with rfl | ⟨text, -, -, hds⟩
    · exact List.forall_mem_nil _
    · exact valid_of_declarationsOf hds

variable {collector : Collector m} {project : Project} {limit : Nat} {s : σ} {analysis : Analysis}

theorem Project.Valid.wellFormed_of_answers {inv : σ → Prop} (hproject : project.Valid)
    (hcollector : collector.Answers inv fun _ ds => ∀ d ∈ ds, d.coordinate.Valid) (hs : inv s)
    (h : (exec (project.analyze collector limit).run s).1 = .ok analysis) :
    analysis.graph.WellFormed := by
  have hvalid : ∀ id, (analysis.graph.node id).Valid := by
    intro id
    obtain ⟨hcoordinate, hmanaged⟩ :=
      texts_of_analyze hcollector hs hproject.coordinate hproject.dependencies h id
    refine ⟨hcoordinate, fun version hversion => ?_⟩
    obtain ⟨entry, hentry, hforced⟩ := hmanaged version hversion
    exact hproject.management entry hentry version hforced
  obtain ⟨trace, houtcome⟩ := exists_outcome_of_analyze h
  constructor
  · intro id hid
    obtain ⟨c, hc⟩ := houtcome.unfolding.coordinate hid
    exact (presentable_of_analyze h hvalid id).wellFormed (hc ▸ rfl)
  · intro id hid hroot
    obtain ⟨c, hc⟩ := houtcome.unfolding.coordinate hid
    obtain ⟨scope, hscope⟩ := houtcome.unfolding.scope hid hroot
    exact (hvalid id).separable hc hscope

/-- A valid manifest and valid descriptors give a well-formed graph, with and without memory in front of
the repository. -/
theorem Manifest.wellFormed_of_validate {manifest : Manifest}
    (hvalidate : manifest.validate = .ok ()) (hproject : manifest.toProject = .ok project)
    (storage : Storage m) (r : Repository)
    (h : (exec (project.analyze (r.collector storage) limit).run s).1 = .ok analysis ∨
      (exec (project.analyze (r.collector storage).cached limit).run ([], s)).1 = .ok analysis) :
    analysis.graph.WellFormed := by
  have hvalid := valid_project hvalidate hproject
  have hanswers := r.answers_valid storage
  rcases h with h | h
  · exact hvalid.wellFormed_of_answers hanswers trivial h
  · exact hvalid.wellFormed_of_answers hanswers.cached ⟨Collector.Cache.declared_nil _, trivial⟩ h

/-- **What is validated stays valid**, from the texts of the manifest and the descriptors to the graph. -/
theorem Manifest.wellFormed_of_analyze {text : String} {manifest : Manifest}
    (hparse : Manifest.parse text = .ok manifest) (hproject : manifest.toProject = .ok project)
    (storage : Storage m) (r : Repository)
    (h : (exec (project.analyze (r.collector storage) limit).run s).1 = .ok analysis ∨
      (exec (project.analyze (r.collector storage).cached limit).run ([], s)).1 = .ok analysis) :
    analysis.graph.WellFormed :=
  wellFormed_of_validate (validate_of_parse hparse) hproject storage r h

end Analyze

/-- A manifest that requests an artifact and forces its version. -/
def forcingManifest : String :=
  "[project]
group='o'
name='a'
version='1'
[[dependencies]]
group='o'
name='w'
version='1'
[[management]]
group='o'
name='w'
version='2'
"

def forcingSections : Manifest where
  project := some { group := "o", name := "a", version := "1" }
  dependencies := [{ group := "o", name := "w", version := "1" }]
  management := [{ group := "o", name := "w", version := some "2" }]

def forcingProject : Project where
  coordinate := ⟨"o", "a", "jar", "1", none⟩
  dependencies := [{ coordinate := ⟨"o", "w", "jar", "1", none⟩ }]
  management := ⟨[("o:w:jar", { version := some "2" })]⟩

/-- The descriptor of the requested artifact, which asks for one with a classifier. -/
def classifyingDescriptor : String :=
  "[project]
group='o'
name='w'
version='1'
[[dependencies]]
group='o'
name='v'
version='1'
classifier='c'
"

/-- A repository in the working directory, with that descriptor. -/
def classifyingStore : FileTree where
  entries := [(["o"], .directory), (["o", "w"], .directory), (["o", "w", "1"], .directory),
    (["o", "w", "1", "w-1.toml"], .file classifyingDescriptor.toUTF8)]

/-- Artifacts without a descriptor are leaves. -/
def classifyingRepository : Repository := { root := ⟨"."⟩, allowMissing := true }

/-- The node 1 has a forced version, and the node 2 a classifier. -/
theorem wellFormed_forcingProject :
    ∃ analysis, Manifest.parse forcingManifest = .ok forcingSections ∧
      forcingSections.toProject = .ok forcingProject ∧
      (exec (forcingProject.analyze (classifyingRepository.collector FileTree.storage) 3).run
        (classifyingStore, ())).1 = .ok analysis ∧
      analysis.graph.size = 3 ∧ (analysis.graph.node 1).managedVersion = some "2" ∧
      (analysis.graph.node 2).coordinate = some ⟨"o", "v", "jar", "1", some "c"⟩ ∧
      analysis.graph.WellFormed := by
  have hparse : Manifest.parse forcingManifest = .ok forcingSections :=
    Accepted.eq_ok_of_toOption (by decide +kernel)
  have hproject : forcingSections.toProject = .ok forcingProject := rfl
  have hshown : (exec (forcingProject.analyze (classifyingRepository.collector FileTree.storage)
      3).run (classifyingStore, ())).1.toOption.map (fun analysis => (analysis.graph.size,
        (analysis.graph.node 1).managedVersion, (analysis.graph.node 2).coordinate)) =
      some (3, some "2", some ⟨"o", "v", "jar", "1", some "c"⟩) := by decide +kernel
  obtain ⟨analysis, hanalysis, hshown⟩ := Option.map_eq_some_iff.1 hshown
  have h := Accepted.eq_ok_of_toOption hanalysis
  simp only [Prod.mk.injEq] at hshown
  obtain ⟨hsize, hforced, hclassified⟩ := hshown
  exact ⟨analysis, hparse, hproject, h, hsize, hforced, hclassified,
    Manifest.wellFormed_of_analyze hparse hproject FileTree.storage classifyingRepository (.inl h)⟩

end ArtifactTree
