import ArtifactTree.Manifest.Conversion
import ArtifactTree.Proofs.Keys
import Mathlib.Data.List.Forall2
import Mathlib.Data.List.Induction

/-!
# Manifests that are accepted

What is known of a manifest once `Manifest.parse` and `Manifest.toProject` have accepted it. Its
coordinates are valid (`Coordinate.Valid`), so keys can be read back. The declarations of the project
come from its dependency sections, and the overrides of its table are those of its management
sections, of which the last one for an artifact counts (`get?_managementTable`).
-/

namespace ArtifactTree

/-! ## Computations that succeed -/

namespace Accepted

variable {ε ε' α β : Type}

@[simp] theorem bind_eq_ok {x : Except ε α} {f : α → Except ε β} {b : β} :
    (x >>= f) = .ok b ↔ ∃ a, x = .ok a ∧ f a = .ok b := by
  cases x <;> simp [bind, Except.bind]

@[simp] theorem pure_eq_ok {a b : α} : (pure a : Except ε α) = .ok b ↔ a = b := by
  simp [pure, Except.pure]

@[simp] theorem map_eq_ok {x : Except ε α} {f : α → β} {b : β} :
    x.map f = .ok b ↔ ∃ a, x = .ok a ∧ f a = b := by
  cases x <;> simp [Except.map]

@[simp] theorem mapError_eq_ok {x : Except ε α} {f : ε → ε'} {a : α} :
    x.mapError f = .ok a ↔ x = .ok a := by
  cases x <;> simp [Except.mapError]

theorem forM_eq_ok {items : List α} {check : α → Except ε Unit} {u : Unit} :
    items.forM check = .ok u ↔ ∀ item ∈ items, check item = .ok () := by
  induction items with
  | nil => simp
  | cons item items ih =>
    change (check item >>= fun _ => items.forM check) = .ok u ↔ _
    rw [bind_eq_ok, List.forall_mem_cons, ← ih]
    exact ⟨fun ⟨_, h, h'⟩ => ⟨h, h'⟩, fun ⟨h, h'⟩ => ⟨(), h, h'⟩⟩

theorem mapM_eq_ok {items : List α} {read : α → Except ε β} {results : List β} :
    items.mapM read = .ok results ↔
      List.Forall₂ (fun item result => read item = .ok result) items results := by
  induction items generalizing results with
  | nil => cases results <;> simp
  | cons item items ih =>
    simp only [List.mapM_cons, bind_eq_ok, pure_eq_ok, List.forall₂_cons_left_iff, ih]
    constructor
    · rintro ⟨result, hresult, results, hresults, rfl⟩
      exact ⟨result, results, hresult, hresults, rfl⟩
    · rintro ⟨result, results, hresult, hresults, rfl⟩
      exact ⟨result, hresult, results, hresults, rfl⟩

/-- What every step keeps, the whole fold keeps. -/
theorem foldlM_invariant {P : β → Prop} {step : β → α → Except ε β} {items : List α} {start final : β}
    (hstep : ∀ item ∈ items, ∀ {b b'}, step b item = .ok b' → P b → P b')
    (h : items.foldlM step start = .ok final) (hstart : P start) : P final := by
  induction items generalizing start with
  | nil => exact pure_eq_ok.1 h ▸ hstart
  | cons item items ih =>
    obtain ⟨hfirst, hrest⟩ := List.forall_mem_cons.1 hstep
    rw [List.foldlM_cons] at h
    obtain ⟨next, hnext, h⟩ := bind_eq_ok.1 h
    exact ih hrest h (hfirst hnext hstart)

theorem eq_ok_of_toOption {x : Except ε α} {a : α} (h : x.toOption = some a) : x = .ok a := by
  cases x with
  | error e => cases h
  | ok b => exact congrArg Except.ok (Option.some.inj h)

/-- Every result was read from an item. -/
theorem exists_of_mem_mapM {items : List α} {read : α → Except ε β} {results : List β}
    (h : items.mapM read = .ok results) : ∀ result ∈ results, ∃ item ∈ items, read item = .ok result := by
  have hall := mapM_eq_ok.1 h
  intro result hresult
  obtain ⟨i, hi, rfl⟩ := List.mem_iff_getElem.1 hresult
  have hi' : i < items.length := hall.length_eq ▸ hi
  exact ⟨items[i], List.getElem_mem hi', hall.get hi' hi⟩

end Accepted

open Accepted

/-! ## Valid texts -/

namespace Validation

theorem isTokenChar_of_isGroupRest {inside : Bool} {text : List Char}
    (h : isGroupRest inside text) : ∀ c ∈ text, isTokenChar c := by
  induction text generalizing inside with
  | nil => simp
  | cons c rest ih =>
    rw [List.forall_mem_cons]
    unfold isGroupRest at h
    split at h
    · next hc => exact ⟨by simp [isTokenChar, hc], ih h⟩
    · simp only [Bool.and_eq_true, decide_eq_true_eq] at h
      exact ⟨by simp [isTokenChar, h.1.1], ih h.2⟩

theorem isTokenChar_of_isGroup {text : String} (h : isGroup text) :
    ∀ c ∈ text.toList, isTokenChar c := isTokenChar_of_isGroupRest h

theorem exists_cons_of_isGroup {text : String} (h : isGroup text) :
    ∃ c rest, text.toList = c :: rest ∧ isSegmentChar c := by
  unfold isGroup at h
  cases htext : text.toList with
  | nil => simp [htext, isGroupRest] at h
  | cons c rest =>
    refine ⟨c, rest, rfl, ?_⟩
    rw [htext, isGroupRest] at h
    by_contra hc
    simp [hc] at h

theorem isTokenChar_of_isToken {text : String} (h : isToken text) :
    ∀ c ∈ text.toList, isTokenChar c := by
  simp only [isToken, Bool.and_eq_true, List.all_eq_true] at h
  exact h.2

theorem colonFree_of_isTokenChar {text : String} (h : ∀ c ∈ text.toList, isTokenChar c) :
    ColonFree text := by
  intro hcolon
  exact absurd (h ':' hcolon) (by decide)

theorem colonFree_of_isVersion {text : String} (h : isVersion text) : ColonFree text := by
  intro hcolon
  simp only [isVersion, Bool.and_eq_true, List.all_eq_true] at h
  exact absurd (h.2 ':' hcolon) (by decide)

@[simp] theorem require_eq_ok {holds : Bool} {message advice : String} {u : Unit} :
    require holds message advice = .ok u ↔ holds = true := by
  unfold require
  cases holds <;> simp

@[simp] theorem checkGroup_eq_ok {text : String} {u : Unit} :
    checkGroup text = .ok u ↔ isGroup text = true := require_eq_ok

@[simp] theorem checkToken_eq_ok {field text : String} {u : Unit} :
    checkToken field text = .ok u ↔ isToken text = true := require_eq_ok

@[simp] theorem checkToken?_eq_ok {field : String} {text : Option String} {u : Unit} :
    checkToken? field text = .ok u ↔ ∀ t ∈ text, isToken t = true := by
  cases text <;> simp [checkToken?]

@[simp] theorem checkVersion_eq_ok {text : String} {u : Unit} :
    checkVersion text = .ok u ↔ isVersion text = true := require_eq_ok

@[simp] theorem checkVersion?_eq_ok {text : Option String} {u : Unit} :
    checkVersion? text = .ok u ↔ ∀ t ∈ text, isVersion t = true := by
  cases text <;> simp [checkVersion?]

@[simp] theorem under_eq_ok {cause : Cause} {check : Check} {u : Unit} :
    under cause check = .ok u ↔ check = .ok u := by
  unfold under
  exact mapError_eq_ok

end Validation

open Validation

/-- The parts of the coordinate are as manifests may write them. -/
structure Coordinate.Valid (c : Coordinate) : Prop where
  group : isGroup c.group
  name : isToken c.name
  type : isToken c.type
  version : isVersion c.version
  classifier : ∀ classifier ∈ c.classifier, isToken classifier

instance (c : Coordinate) : Decidable c.Valid :=
  decidable_of_iff
    (isGroup c.group ∧ isToken c.name ∧ isToken c.type ∧ isVersion c.version ∧
      ∀ classifier ∈ c.classifier, isToken classifier)
    ⟨fun ⟨hgroup, hname, htype, hversion, hclassifier⟩ =>
      ⟨hgroup, hname, htype, hversion, hclassifier⟩,
      fun h => ⟨h.group, h.name, h.type, h.version, h.classifier⟩⟩

/-- All that names the artifact of a coordinate apart from its version is as manifests may write it. -/
structure Coordinate.Named (c : Coordinate) : Prop where
  group : isGroup c.group
  name : isToken c.name
  type : isToken c.type
  classifier : ∀ classifier ∈ c.classifier, isToken classifier

theorem Coordinate.Named.partsColonFree {c : Coordinate} (h : c.Named)
    (hversion : ColonFree c.version) : c.PartsColonFree where
  group := colonFree_of_isTokenChar (isTokenChar_of_isGroup h.group)
  name := colonFree_of_isTokenChar (isTokenChar_of_isToken h.name)
  type := colonFree_of_isTokenChar (isTokenChar_of_isToken h.type)
  version := hversion
  classifier classifier hc :=
    colonFree_of_isTokenChar (isTokenChar_of_isToken (h.classifier classifier hc))

namespace Coordinate.Valid

variable {c : Coordinate} (h : c.Valid)
include h

theorem named : c.Named := ⟨h.group, h.name, h.type, h.classifier⟩

theorem partsColonFree : c.PartsColonFree :=
  h.named.partsColonFree (colonFree_of_isVersion h.version)

end Coordinate.Valid

/-! ## Sections -/

theorem ProjectSection.valid_of_validate {s : ProjectSection} (h : s.validate = .ok ()) :
    s.coordinate.Valid := by
  simp only [ProjectSection.validate, bind_eq_ok, checkGroup_eq_ok, checkToken_eq_ok,
    checkVersion_eq_ok, checkToken?_eq_ok] at h
  obtain ⟨-, hgroup, -, hname, -, htype, -, hversion, hclassifier⟩ := h
  exact ⟨hgroup, hname, htype, hversion, hclassifier⟩

theorem DependencySection.valid_of_validate {s : DependencySection} (h : s.validate = .ok ()) :
    s.coordinate.Valid := by
  simp only [DependencySection.validate, bind_eq_ok, checkGroup_eq_ok, checkToken_eq_ok,
    checkVersion_eq_ok, checkToken?_eq_ok] at h
  obtain ⟨-, hgroup, -, hname, -, htype, -, hversion, -, hclassifier, -⟩ := h
  exact ⟨hgroup, hname, htype, hversion, hclassifier⟩

theorem DependencySection.coordinate_of_declaration {s : DependencySection} {d : Declaration}
    (h : s.declaration = .ok d) : d.coordinate = s.coordinate := by
  simp only [DependencySection.declaration, bind_eq_ok, pure_eq_ok] at h
  obtain ⟨exclusions, -, scope, -, rfl⟩ := h
  rfl

namespace ManagementSection

/-- All that names the artifact that the section manages. -/
def artifact (s : ManagementSection) : String × String × String × Option String :=
  (s.group, s.name, s.type, s.classifier)

def forcedScope (s : ManagementSection) : Option Scope := s.scope.bind Scope.ofName?

/-- A coordinate of the artifact that the section manages. The version is of no account. -/
def anyCoordinate (s : ManagementSection) : Coordinate :=
  { group := s.group, name := s.name, type := s.type, version := "", classifier := s.classifier }

theorem artifact_anyCoordinate (s : ManagementSection) : s.anyCoordinate.artifact = s.artifact := rfl

theorem artifactKey_anyCoordinate (s : ManagementSection) :
    s.anyCoordinate.artifactKey = s.key := rfl

theorem named_of_validate {s : ManagementSection} (h : s.validate = .ok ()) :
    s.anyCoordinate.Named := by
  simp only [ManagementSection.validate, bind_eq_ok, checkGroup_eq_ok, checkToken_eq_ok,
    checkToken?_eq_ok] at h
  obtain ⟨-, hgroup, -, hname, -, htype, -, hclassifier, -⟩ := h
  exact ⟨hgroup, hname, htype, hclassifier⟩

theorem partsColonFree_of_validate {s : ManagementSection} (h : s.validate = .ok ()) :
    s.anyCoordinate.PartsColonFree :=
  (named_of_validate h).partsColonFree List.not_mem_nil

theorem isVersion_of_validate {s : ManagementSection} (h : s.validate = .ok ()) :
    ∀ version ∈ s.version, isVersion version := by
  simp only [ManagementSection.validate, bind_eq_ok, checkVersion?_eq_ok] at h
  obtain ⟨-, -, -, -, -, -, -, -, -, hversion, -⟩ := h
  exact hversion

/-- The key of a section is that of a coordinate exactly if both name one artifact. -/
theorem key_eq_iff {s : ManagementSection} (h : s.validate = .ok ()) {c : Coordinate}
    (hc : c.PartsColonFree) : c.artifactKey = s.key ↔ s.artifact = c.artifact := by
  rw [← artifactKey_anyCoordinate, Coordinate.artifactKey_eq_iff hc (partsColonFree_of_validate h),
    artifact_anyCoordinate, eq_comm]

theorem override_eq {s : ManagementSection} {o : Override} (h : s.override = .ok o) :
    o = ⟨s.version, s.forcedScope⟩ := by
  simp only [ManagementSection.override, bind_eq_ok, pure_eq_ok] at h
  obtain ⟨scope, hscope, rfl⟩ := h
  unfold parseScope at hscope
  unfold forcedScope
  cases hname : s.scope with
  | none => simp_all
  | some name =>
    rw [hname] at hscope
    obtain ⟨parsed, hparsed, rfl⟩ := map_eq_ok.1 hscope
    unfold Scope.parse at hparsed
    cases hfound : Scope.ofName? name <;> simp_all

theorem scope_eq_of_validate {s : ManagementSection} (h : s.validate = .ok ()) :
    s.scope = s.forcedScope.map Scope.name := by
  simp only [ManagementSection.validate, bind_eq_ok, mapError_eq_ok] at h
  obtain ⟨-, -, -, -, -, -, -, -, -, -, scope, hscope, -⟩ := h
  unfold parseScope at hscope
  unfold forcedScope
  cases hname : s.scope with
  | none => rfl
  | some name =>
    rw [hname] at hscope
    obtain ⟨parsed, hparsed, -⟩ := map_eq_ok.1 hscope
    unfold Scope.parse at hparsed
    cases hfound : Scope.ofName? name with
    | none => simp [hfound] at hparsed
    | some found => simp [hfound, Scope.name_of_ofName? hfound]

end ManagementSection

/-! ## The whole manifest -/

theorem Management.get?_ofList (entries : List (String × Override)) (key : String) :
    (Management.ofList entries).get? key = entries.reverse.lookup key := by
  induction entries using List.reverseRecOn with
  | nil => rfl
  | append_singleton entries entry ih =>
    obtain ⟨k, o⟩ := entry
    have hlast : Management.ofList (entries ++ [(k, o)]) =
        (Management.ofList entries).insert k o := by simp [Management.ofList]
    rw [hlast, List.reverse_append, List.reverse_singleton, List.singleton_append,
      List.lookup_cons]
    by_cases hkey : key = k
    · simp [hkey, Management.get?_insert_self]
    · have hne : (key == k) = false := beq_eq_false_iff_ne.2 hkey
      rw [hne, Management.get?_insert_of_ne _ _ hkey, ih]

/-- A table of a list has no other entries than the list. -/
theorem Management.mem_of_mem_ofList {entries : List (String × Override)} {entry : String × Override}
    (h : entry ∈ (Management.ofList entries).entries) : entry ∈ entries := by
  induction entries using List.reverseRecOn with
  | nil => cases h
  | append_singleton entries last ih =>
    have hlast : Management.ofList (entries ++ [last]) =
        (Management.ofList entries).insert last.1 last.2 := by simp [Management.ofList]
    rw [hlast, Management.insert] at h
    rw [List.mem_append, List.mem_singleton]
    split at h
    · obtain ⟨old, hold, heq⟩ := List.mem_map.1 h
      split at heq
      · exact .inr heq.symm
      · exact .inl (ih (heq ▸ hold))
    · exact (List.mem_append.1 h).imp ih List.mem_singleton.1

namespace Manifest

variable {m : Manifest}

/-- The last entry of the management table for the artifact of a coordinate. -/
def managing? (m : Manifest) (c : Coordinate) : Option ManagementSection :=
  m.management.findRev? (·.artifact = c.artifact)

theorem mem_of_managing? {c : Coordinate} {s : ManagementSection} (h : s ∈ m.managing? c) :
    s ∈ m.management := by
  rw [managing?, List.findRev?_eq_find?_reverse] at h
  exact List.mem_reverse.1 (List.mem_of_find?_eq_some h)

/-- A manifest that is read has its sections from the entries of the document, and is valid. -/
theorem of_parse {text : String} (h : Manifest.parse text = .ok m) :
    ∃ entries, Toml.read? text = some entries ∧ ofEntries entries = .ok m ∧ m.validate = .ok () := by
  unfold Manifest.parse at h
  cases hread : Toml.read? text with
  | none => simp [hread] at h
  | some entries =>
    simp only [hread] at h
    cases hshape : ofEntries entries with
    | error fault => simp [hshape] at h
    | ok read =>
      simp only [hshape, bind_eq_ok, pure_eq_ok] at h
      obtain ⟨⟨⟩, hvalidate, rfl⟩ := h
      exact ⟨entries, rfl, hshape, hvalidate⟩

theorem validate_of_parse {text : String} (h : Manifest.parse text = .ok m) :
    m.validate = .ok () := by
  obtain ⟨-, -, -, hvalidate⟩ := of_parse h
  exact hvalidate

theorem validate_eq_ok (h : m.validate = .ok ()) :
    (∀ s ∈ m.project, s.validate = .ok ()) ∧ (∀ s ∈ m.dependencies, s.validate = .ok ()) ∧
      ∀ s ∈ m.management, s.validate = .ok () := by
  unfold Manifest.validate at h
  cases hproject : m.project with
  | none =>
    rw [hproject] at h
    simp [throw, throwThe, MonadExceptOf.throw, bind, Except.bind] at h
  | some project =>
    simp only [hproject, bind_eq_ok, forM_eq_ok, under_eq_ok] at h
    obtain ⟨⟨⟩, hproject, -, hdependencies, hmanagement⟩ := h
    refine ⟨?_, hdependencies, hmanagement⟩
    intro s hs
    obtain rfl := Option.some.inj hs
    exact hproject

variable {project : Project}

theorem toProject_eq_ok (h : m.toProject = .ok project) :
    (∃ s ∈ m.project, project.coordinate = s.coordinate) ∧
      m.declarations = .ok project.dependencies ∧ m.managementTable = .ok project.management := by
  unfold toProject at h
  cases hproject : m.project with
  | none => simp [hproject] at h
  | some s =>
    simp only [hproject, bind_eq_ok, pure_eq_ok] at h
    obtain ⟨dependencies, hdependencies, management, hmanagement, rfl⟩ := h
    exact ⟨⟨s, rfl, rfl⟩, hdependencies, hmanagement⟩

theorem exists_section_of_declarations {ds : List Declaration} (h : m.declarations = .ok ds) :
    ∀ d ∈ ds, ∃ s ∈ m.dependencies, d.coordinate = s.coordinate := by
  intro d hd
  obtain ⟨s, hs, hread⟩ := exists_of_mem_mapM h d hd
  exact ⟨s, hs, DependencySection.coordinate_of_declaration (mapError_eq_ok.1 hread)⟩

/-- The coordinates of a project that a manifest describes are valid. -/
theorem valid_of_toProject (hparse : m.validate = .ok ()) (h : m.toProject = .ok project) :
    project.coordinate.Valid ∧ ∀ d ∈ project.dependencies, d.coordinate.Valid := by
  obtain ⟨hproject, hdependencies, -⟩ := validate_eq_ok hparse
  obtain ⟨⟨s, hs, hcoordinate⟩, hdeclarations, -⟩ := toProject_eq_ok h
  constructor
  · rw [hcoordinate]
    exact ProjectSection.valid_of_validate (hproject s hs)
  · intro d hd
    obtain ⟨s, hs, hcoordinate⟩ := exists_section_of_declarations hdeclarations d hd
    rw [hcoordinate]
    exact DependencySection.valid_of_validate (hdependencies s hs)

/-- The versions that the table forces are valid. -/
theorem isVersion_of_managementTable {t : Management}
    (hvalid : ∀ s ∈ m.management, s.validate = .ok ()) (h : m.managementTable = .ok t) :
    ∀ entry ∈ t.entries, ∀ version ∈ entry.2.version, isVersion version := by
  simp only [managementTable, bind_eq_ok, pure_eq_ok] at h
  obtain ⟨entries, hread, rfl⟩ := h
  intro entry hentry
  obtain ⟨s, hs, hentry⟩ := exists_of_mem_mapM hread entry (Management.mem_of_mem_ofList hentry)
  simp only [bind_eq_ok, pure_eq_ok] at hentry
  obtain ⟨o, ho, rfl⟩ := hentry
  rw [ManagementSection.override_eq ho]
  exact ManagementSection.isVersion_of_validate (hvalid s hs)

/-- The table holds for an artifact what its last entry in the manifest states, and only that. -/
theorem get?_managementTable {t : Management} (hvalid : ∀ s ∈ m.management, s.validate = .ok ())
    (h : m.managementTable = .ok t) {c : Coordinate} (hc : c.PartsColonFree) :
    t.get? c.artifactKey =
      (m.managing? c).map fun s => ⟨s.version, s.forcedScope⟩ := by
  simp only [managementTable, bind_eq_ok, pure_eq_ok, mapM_eq_ok] at h
  obtain ⟨entries, hall, rfl⟩ := h
  rw [Management.get?_ofList, managing?, List.findRev?_eq_find?_reverse]
  have hall := List.forall₂_reverse_iff.2 hall
  have hvalid : ∀ s ∈ m.management.reverse, s.validate = .ok () := fun s hs =>
    hvalid s (List.mem_reverse.1 hs)
  generalize m.management.reverse = sections at hall hvalid ⊢
  generalize entries.reverse = entries at hall ⊢
  induction hall with
  | nil => rfl
  | @cons s entry sections entries hentry hall ih =>
    obtain ⟨hs, hsections⟩ := List.forall_mem_cons.1 hvalid
    obtain ⟨o, ho, rfl⟩ := hentry
    rw [List.lookup_cons, List.find?_cons, ManagementSection.override_eq ho]
    by_cases hkey : c.artifactKey = s.key
    · simp [hkey, (ManagementSection.key_eq_iff hs hc).1 hkey]
    · have hne := mt (ManagementSection.key_eq_iff hs hc).2 hkey
      simp [beq_eq_false_iff_ne.2 hkey, hne, ih hsections]

end Manifest

end ArtifactTree
