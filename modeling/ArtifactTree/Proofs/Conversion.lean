import ArtifactTree.Proofs.Manifest

/-!
# What conversion makes of an accepted manifest

Validation and conversion both read scopes and exclusions. On scopes they agree: a name is refused by
both or by none. Of an exclusion validation asks for a colon only, while conversion needs something on
both of its sides. So an accepted manifest is converted exactly if its exclusions have both sides
(`Manifest.converts_of_validate`), and an exclusion that is all on one side is refused late, without
the advice that one without a colon gets (`Manifest.lateRefusal`).
-/

namespace ArtifactTree

/-! ## Computations that fail -/

namespace Rejected

open Accepted

variable {ε ε' α β : Type}

theorem bind_eq_error {x : Except ε α} {f : α → Except ε β} {fault : ε} :
    (x >>= f) = .error fault ↔ x = .error fault ∨ ∃ a, x = .ok a ∧ f a = .error fault := by
  cases x <;> simp [bind, Except.bind]

theorem mapError_eq_error {x : Except ε α} {f : ε → ε'} {fault : ε'} :
    x.mapError f = .error fault ↔ ∃ inner, x = .error inner ∧ f inner = fault := by
  cases x <;> simp [Except.mapError]

theorem map_eq_error {x : Except ε α} {f : α → β} {fault : ε} :
    x.map f = .error fault ↔ x = .error fault := by
  cases x <;> simp [Except.map]

theorem exists_mapM_ok_iff {items : List α} {read : α → Except ε β} :
    (∃ results, items.mapM read = .ok results) ↔ ∀ item ∈ items, ∃ result, read item = .ok result := by
  induction items with
  | nil => simp [pure, Except.pure]
  | cons item items ih =>
    rw [List.forall_mem_cons, ← ih, List.mapM_cons]
    simp only [bind_eq_ok, pure_eq_ok]
    constructor
    · rintro ⟨_, result, hresult, results, hresults, -⟩
      exact ⟨⟨result, hresult⟩, results, hresults⟩
    · rintro ⟨⟨result, hresult⟩, results, hresults⟩
      exact ⟨_, result, hresult, results, hresults, rfl⟩

/-- One of the items is to blame. -/
theorem exists_of_mapM_eq_error {items : List α} {read : α → Except ε β} {fault : ε}
    (h : items.mapM read = .error fault) : ∃ item ∈ items, read item = .error fault := by
  induction items with
  | nil => simp [pure, Except.pure] at h
  | cons item items ih =>
    rw [List.mapM_cons, bind_eq_error] at h
    obtain h | ⟨result, -, h⟩ := h
    · exact ⟨item, List.mem_cons_self, h⟩
    · obtain h | ⟨results, -, h⟩ := bind_eq_error.1 h
      · obtain ⟨item', hitem', hfault⟩ := ih h
        exact ⟨item', List.mem_cons_of_mem _ hitem', hfault⟩
      · cases h

theorem exists_of_forM_eq_error {items : List α} {check : α → Except ε Unit} {fault : ε}
    (h : items.forM check = .error fault) : ∃ item ∈ items, check item = .error fault := by
  induction items with
  | nil => cases h
  | cons item items ih =>
    change (check item >>= fun _ => items.forM check) = .error fault at h
    obtain h | ⟨_, -, h⟩ := bind_eq_error.1 h
    · exact ⟨item, List.mem_cons_self, h⟩
    · obtain ⟨item', hitem', hfault⟩ := ih h
      exact ⟨item', List.mem_cons_of_mem _ hitem', hfault⟩

end Rejected

open Accepted Rejected Validation

theorem Validation.require_eq_error {holds : Bool} {message advice : String} {fault : Fault} :
    require holds message advice = .error fault ↔
      holds = false ∧ fault = .configuration message advice := by
  unfold require
  cases holds <;> simp [eq_comm]

/-! ## Scopes and exclusions -/

theorem Scope.parse_eq_error {name : String} {fault : Fault} :
    Scope.parse name = .error fault ↔ ofName? name = none ∧ fault = ⟨.unknownScope name, []⟩ := by
  unfold Scope.parse
  cases ofName? name <;> simp [eq_comm]

namespace Exclusion

/-- There is a group before the first colon, and a name behind it. -/
def IsWritten (text : String) : Prop :=
  ∃ group name, text.toList = group ++ ':' :: name ∧ ':' ∉ group ∧ group ≠ [] ∧ name ≠ []

theorem splitColon_eq_some {text before after : List Char} :
    splitColon text = some (before, after) ↔ text = before ++ ':' :: after ∧ ':' ∉ before := by
  induction text generalizing before with
  | nil => simp [splitColon]
  | cons c rest ih =>
    rw [splitColon]
    split
    next hc =>
      subst hc
      constructor
      · rintro ⟨⟩
        simp
      · rintro ⟨htext, hcolon⟩
        cases before with
        | nil => simpa using htext
        | cons b before =>
          obtain ⟨rfl, -⟩ := List.cons.inj htext
          exact absurd List.mem_cons_self hcolon
    next hc =>
      constructor
      · intro h
        obtain ⟨⟨b, a⟩, hsplit, hpair⟩ := Option.map_eq_some_iff.1 h
        cases hpair
        obtain ⟨rfl, hcolon⟩ := ih.1 hsplit
        exact ⟨rfl, by simp [hcolon, Ne.symm hc]⟩
      · rintro ⟨htext, hcolon⟩
        cases before with
        | nil => exact absurd (List.cons.inj htext).1 hc
        | cons b before =>
          obtain ⟨rfl, hrest⟩ := List.cons.inj htext
          rw [List.mem_cons, not_or] at hcolon
          exact Option.map_eq_some_iff.2 ⟨(before, after), ih.2 ⟨hrest, hcolon.2⟩, rfl⟩

theorem isSome_ofText?_iff {text : String} : (ofText? text).isSome ↔ IsWritten text := by
  unfold ofText?
  constructor
  · intro h
    cases hsplit : splitColon text.toList with
    | none => simp [hsplit] at h
    | some sides =>
      obtain ⟨group, name⟩ := sides
      obtain ⟨htext, hcolon⟩ := splitColon_eq_some.1 hsplit
      rw [hsplit] at h
      by_cases hsides : group = [] ∨ name = []
      · simp [hsides] at h
      · rw [not_or] at hsides
        exact ⟨group, name, htext, hcolon, hsides.1, hsides.2⟩
  · rintro ⟨group, name, htext, hcolon, hgroup, hname⟩
    rw [splitColon_eq_some.2 ⟨htext, hcolon⟩]
    simp [hgroup, hname]

instance (text : String) : Decidable (IsWritten text) := decidable_of_iff _ isSome_ofText?_iff

theorem IsWritten.colon_mem {text : String} (h : IsWritten text) : ':' ∈ text.toList := by
  obtain ⟨group, name, htext, -⟩ := h
  simp [htext]

theorem exists_parse_ok_iff {text : String} :
    (∃ exclusion, Exclusion.parse text = .ok exclusion) ↔ IsWritten text := by
  rw [← isSome_ofText?_iff]
  unfold Exclusion.parse
  cases ofText? text <;> simp

theorem parse_eq_error {text : String} {fault : Fault} :
    Exclusion.parse text = .error fault ↔ ¬ IsWritten text ∧ fault = ⟨.halfExclusion text, []⟩ := by
  rw [← isSome_ofText?_iff]
  unfold Exclusion.parse
  cases ofText? text <;> simp [eq_comm]

end Exclusion

/-! ## Entries for dependencies -/

namespace DependencySection

variable {s : DependencySection} {fault : Fault}

/-- Every exclusion of the section has both of its sides. -/
def HasWholeExclusions (s : DependencySection) : Prop :=
  ∀ text ∈ s.exclusions, Exclusion.IsWritten text

theorem parseScope_eq_error (h : s.parseScope = .error fault) :
    ∃ name ∈ s.scope, Scope.ofName? name = none ∧ fault = ⟨.unknownScope name, []⟩ := by
  unfold parseScope at h
  cases hname : s.scope with
  | none => rw [hname] at h; cases h
  | some name =>
    rw [hname] at h
    exact ⟨name, rfl, Scope.parse_eq_error.1 h⟩

/-- Where names and version are in order, the scope and the exclusions decide. -/
theorem validate_eq_of_valid (hs : s.coordinate.Valid) :
    s.validate = (s.parseScope >>= fun _ => s.exclusions.forM checkExclusion) := by
  have hgroup : checkGroup s.group = .ok () := checkGroup_eq_ok.2 hs.group
  have hname : checkToken "name" s.name = .ok () := checkToken_eq_ok.2 hs.name
  have htype : checkToken "type" s.type = .ok () := checkToken_eq_ok.2 hs.type
  have hversion : checkVersion s.version = .ok () := checkVersion_eq_ok.2 hs.version
  have hclassifier : checkToken? "classifier" s.classifier = .ok () :=
    checkToken?_eq_ok.2 hs.classifier
  rw [validate, hgroup, hname, htype, hversion, hclassifier]
  rfl

theorem validate_eq_ok_iff :
    s.validate = .ok () ↔ s.coordinate.Valid ∧ (∃ scope, s.parseScope = .ok scope) ∧
      ∀ text ∈ s.exclusions, ':' ∈ text.toList := by
  have hexclusion (text : String) : checkExclusion text = .ok () ↔ ':' ∈ text.toList := by
    simp [checkExclusion]
  have hread (hs : s.coordinate.Valid) : s.validate = .ok () ↔
      (∃ scope, s.parseScope = .ok scope) ∧ ∀ text ∈ s.exclusions, ':' ∈ text.toList := by
    rw [validate_eq_of_valid hs]
    simp only [bind_eq_ok, forM_eq_ok, hexclusion, exists_and_right]
  constructor
  · intro h
    have hs := valid_of_validate h
    exact ⟨hs, (hread hs).1 h⟩
  · rintro ⟨hs, h⟩
    exact (hread hs).2 h

theorem exists_declaration_iff :
    (∃ d, s.declaration = .ok d) ↔ (∃ scope, s.parseScope = .ok scope) ∧ s.HasWholeExclusions := by
  have hexclusions : (∃ exclusions, s.exclusions.mapM Exclusion.parse = .ok exclusions) ↔
      s.HasWholeExclusions := by
    rw [exists_mapM_ok_iff]
    exact forall₂_congr fun text _ => Exclusion.exists_parse_ok_iff
  rw [← hexclusions]
  simp only [declaration, bind_eq_ok, pure_eq_ok]
  constructor
  · rintro ⟨d, exclusions, hread, scope, hscope, -⟩
    exact ⟨⟨scope, hscope⟩, exclusions, hread⟩
  · rintro ⟨⟨scope, hscope⟩, exclusions, hread⟩
    exact ⟨_, exclusions, hread, scope, hscope, rfl⟩

/-- How far validation and conversion agree on the section. -/
structure Agrees (s : DependencySection) : Prop where
  declaration_iff : (∃ d, s.declaration = .ok d) ↔ s.validate = .ok () ∧ s.HasWholeExclusions
  refused : ∀ fault, s.validate = .error fault →
    (∃ name ∈ s.scope, Scope.ofName? name = none ∧ fault = ⟨.unknownScope name, []⟩) ∨
    ∃ text ∈ s.exclusions, ':' ∉ text.toList ∧
      fault = .configuration ("Invalid exclusion '" ++ text ++ "'") Advice.exclusionForm

/-- Where names and version are in order, only the scope or an exclusion can be to blame. -/
theorem agrees_of_valid (hs : s.coordinate.Valid) : s.Agrees := by
  constructor
  · rw [exists_declaration_iff, validate_eq_ok_iff]
    constructor
    · rintro ⟨hscope, hwhole⟩
      exact ⟨⟨hs, hscope, fun text htext => (hwhole text htext).colon_mem⟩, hwhole⟩
    · rintro ⟨⟨-, hscope, -⟩, hwhole⟩
      exact ⟨hscope, hwhole⟩
  · intro fault h
    rw [validate_eq_of_valid hs] at h
    obtain h | ⟨scope, -, h⟩ := bind_eq_error.1 h
    · exact .inl (parseScope_eq_error h)
    · obtain ⟨text, htext, h⟩ := exists_of_forM_eq_error h
      obtain ⟨hcolon, rfl⟩ := require_eq_error.1 h
      exact .inr ⟨text, htext, by simpa using hcolon, rfl⟩

end DependencySection

/-! ## Entries for management -/

namespace ManagementSection

variable {s : ManagementSection} {fault : Fault}

/-- Names and version are in order, and there is something to override. -/
structure WellNamed (s : ManagementSection) : Prop where
  group : isGroup s.group
  name : isToken s.name
  type : isToken s.type
  classifier : ∀ classifier ∈ s.classifier, isToken classifier
  version : ∀ version ∈ s.version, isVersion version
  effect : s.version.isSome || s.scope.isSome

theorem parseScope_eq_error (h : s.parseScope = .error fault) :
    ∃ name ∈ s.scope, Scope.ofName? name = none ∧ fault = ⟨.unknownScope name, []⟩ := by
  unfold parseScope at h
  cases hname : s.scope with
  | none => rw [hname] at h; cases h
  | some name =>
    rw [hname] at h
    exact ⟨name, rfl, Scope.parse_eq_error.1 (map_eq_error.1 h)⟩

theorem wellNamed_of_validate (h : s.validate = .ok ()) : s.WellNamed := by
  simp only [validate, bind_eq_ok, checkGroup_eq_ok, checkToken_eq_ok, checkToken?_eq_ok,
    checkVersion?_eq_ok, require_eq_ok] at h
  obtain ⟨-, hgroup, -, hname, -, htype, -, hclassifier, -, hversion, -, -, heffect⟩ := h
  exact ⟨hgroup, hname, htype, hclassifier, hversion, heffect⟩

/-- Where all else is in order, the scope decides. -/
theorem validate_eq_of_wellNamed (hs : s.WellNamed) :
    s.validate =
      (s.parseScope.mapError (·.under (.invalidManagedScope s.key)) >>= fun _ => .ok ()) := by
  have hgroup : checkGroup s.group = .ok () := checkGroup_eq_ok.2 hs.group
  have hname : checkToken "name" s.name = .ok () := checkToken_eq_ok.2 hs.name
  have htype : checkToken "type" s.type = .ok () := checkToken_eq_ok.2 hs.type
  have hclassifier : checkToken? "classifier" s.classifier = .ok () :=
    checkToken?_eq_ok.2 hs.classifier
  have hversion : checkVersion? s.version = .ok () := checkVersion?_eq_ok.2 hs.version
  rw [validate, hgroup, hname, htype, hclassifier, hversion, hs.effect]
  rfl

theorem exists_override_iff : (∃ o, s.override = .ok o) ↔ ∃ scope, s.parseScope = .ok scope := by
  simp only [override, bind_eq_ok, pure_eq_ok]
  constructor
  · rintro ⟨o, scope, hscope, -⟩
    exact ⟨scope, hscope⟩
  · rintro ⟨scope, hscope⟩
    exact ⟨_, scope, hscope, rfl⟩

/-- Validation and conversion agree on the section. -/
structure Agrees (s : ManagementSection) : Prop where
  override_iff : (∃ o, s.override = .ok o) ↔ s.validate = .ok ()
  refused : ∀ fault, s.validate = .error fault →
    ∃ name ∈ s.scope, Scope.ofName? name = none ∧
      fault = ⟨.invalidManagedScope s.key, [.unknownScope name]⟩

theorem agrees_of_wellNamed (hs : s.WellNamed) : s.Agrees := by
  constructor
  · rw [exists_override_iff, validate_eq_of_wellNamed hs]
    simp only [bind_eq_ok, mapError_eq_ok, and_true]
  · intro fault h
    rw [validate_eq_of_wellNamed hs] at h
    obtain h | ⟨scope, -, h⟩ := bind_eq_error.1 h
    · obtain ⟨inner, hscope, rfl⟩ := mapError_eq_error.1 h
      obtain ⟨name, hname, hunknown, rfl⟩ := parseScope_eq_error hscope
      exact ⟨name, hname, hunknown, rfl⟩
    · cases h

end ManagementSection

/-! ## The whole manifest -/

namespace Manifest

variable {m : Manifest}

/-- Every exclusion of the manifest has both of its sides. -/
def HasWholeExclusions (m : Manifest) : Prop := ∀ s ∈ m.dependencies, s.HasWholeExclusions

instance (m : Manifest) : Decidable m.HasWholeExclusions :=
  inferInstanceAs (Decidable (∀ s ∈ m.dependencies, ∀ text ∈ s.exclusions, Exclusion.IsWritten text))

/-- What conversion makes of a manifest: it succeeds if all exclusions are whole, and else one that is
not is to blame. -/
structure Converts (m : Manifest) : Prop where
  toProject_iff : (∃ project, m.toProject = .ok project) ↔ m.HasWholeExclusions
  declarations_iff : (∃ ds, m.declarations = .ok ds) ↔ m.HasWholeExclusions
  managementTable : ∃ t, m.managementTable = .ok t
  fault : ∀ fault, m.toProject = .error fault ∨ m.declarations = .error fault →
    ∃ s ∈ m.dependencies, ∃ text ∈ s.exclusions, ':' ∈ text.toList ∧ ¬ Exclusion.IsWritten text ∧
      fault = ⟨.invalidDependency s.group s.name, [.halfExclusion text]⟩

theorem exists_project_of_validate (h : m.validate = .ok ()) : ∃ s, m.project = some s := by
  unfold validate at h
  cases hproject : m.project with
  | none =>
    rw [hproject] at h
    cases h
  | some s => exact ⟨s, rfl⟩

theorem exists_declarations_iff (h : m.validate = .ok ()) :
    (∃ ds, m.declarations = .ok ds) ↔ m.HasWholeExclusions := by
  obtain ⟨-, hdependencies, -⟩ := validate_eq_ok h
  unfold declarations
  rw [exists_mapM_ok_iff]
  refine forall₂_congr fun s hs => ?_
  have hvalidate := hdependencies s hs
  have hagrees := DependencySection.agrees_of_valid (DependencySection.valid_of_validate hvalidate)
  simp only [mapError_eq_ok, hagrees.declaration_iff, hvalidate, true_and]

theorem exists_managementTable (h : m.validate = .ok ()) : ∃ t, m.managementTable = .ok t := by
  obtain ⟨-, -, hmanagement⟩ := validate_eq_ok h
  have hentries : ∃ entries, m.management.mapM
      (fun s => do return (s.key, ← s.override) : _ → Except Fault (String × Override)) =
        .ok entries := by
    refine exists_mapM_ok_iff.2 fun s hs => ?_
    have hvalidate := hmanagement s hs
    have hagrees :=
      ManagementSection.agrees_of_wellNamed (ManagementSection.wellNamed_of_validate hvalidate)
    obtain ⟨o, ho⟩ := hagrees.override_iff.2 hvalidate
    exact ⟨(s.key, o), bind_eq_ok.2 ⟨o, ho, rfl⟩⟩
  obtain ⟨entries, hentries⟩ := hentries
  exact ⟨.ofList entries, bind_eq_ok.2 ⟨entries, hentries, rfl⟩⟩

/-- Only a half exclusion makes the declarations of an accepted manifest fail. -/
theorem of_declarations_eq_error (h : m.validate = .ok ()) {fault : Fault}
    (hfault : m.declarations = .error fault) :
    ∃ s ∈ m.dependencies, ∃ text ∈ s.exclusions, ':' ∈ text.toList ∧ ¬ Exclusion.IsWritten text ∧
      fault = ⟨.invalidDependency s.group s.name, [.halfExclusion text]⟩ := by
  obtain ⟨-, hdependencies, -⟩ := validate_eq_ok h
  obtain ⟨s, hs, hunder⟩ := exists_of_mapM_eq_error hfault
  obtain ⟨inner, hdeclaration, rfl⟩ := mapError_eq_error.1 hunder
  obtain ⟨-, ⟨scope, hscope⟩, hcolons⟩ :=
    DependencySection.validate_eq_ok_iff.1 (hdependencies s hs)
  obtain hread | ⟨exclusions, -, hread⟩ := bind_eq_error.1 hdeclaration
  · obtain ⟨text, htext, hparse⟩ := exists_of_mapM_eq_error hread
    obtain ⟨hhalf, rfl⟩ := Exclusion.parse_eq_error.1 hparse
    exact ⟨s, hs, text, htext, hcolons text htext, hhalf, rfl⟩
  · rw [hscope] at hread
    cases hread

theorem converts_of_validate (h : m.validate = .ok ()) : m.Converts := by
  obtain ⟨s, hproject⟩ := exists_project_of_validate h
  obtain ⟨t, ht⟩ := exists_managementTable h
  have hconvert : m.toProject = m.declarations >>= fun ds =>
      .ok { coordinate := s.coordinate, dependencies := ds, management := t } := by
    unfold toProject
    rw [hproject, ht]
    rfl
  refine ⟨?_, exists_declarations_iff h, ⟨t, ht⟩, ?_⟩
  · rw [← exists_declarations_iff h, hconvert]
    cases m.declarations <;> simp [bind, Except.bind]
  · rintro fault (hfault | hfault)
    · rw [hconvert] at hfault
      obtain hfault | ⟨ds, -, hfault⟩ := bind_eq_error.1 hfault
      · exact of_declarations_eq_error h hfault
      · cases hfault
    · exact of_declarations_eq_error h hfault

/-- **Conversion of accepted manifests.** An accepted manifest is converted, to a project and to
declarations, exactly if its exclusions have both sides; a half exclusion is all that can be to blame.
Elsewhere validation and conversion agree: entries that conversion would refuse are refused before, for
their scope or for an exclusion without a colon. -/
theorem conversion_of_validate (h : m.validate = .ok ()) :
    m.Converts ∧ (∀ s : DependencySection, s.coordinate.Valid → s.Agrees) ∧
      ∀ s : ManagementSection, s.WellNamed → s.Agrees := by
  refine ⟨converts_of_validate h, ?_, ?_⟩
  · intro s hs
    exact DependencySection.agrees_of_valid hs
  · intro s hs
    exact ManagementSection.agrees_of_wellNamed hs

/-- A manifest with one dependency, which is not to bring what `exclusion` says. -/
def excluding (exclusion : String) : Manifest :=
  let web : DependencySection :=
    { group := "o", name := "w", version := "1", scope := "test", exclusions := [exclusion] }
  { project := some { group := "o", name := "a", version := "1" }
    dependencies := [web]
    management := [{ group := "o", name := "w", scope := "runtime" }] }

theorem excluding_converts :
    (excluding "o:l").validate = .ok () ∧ (∃ project, (excluding "o:l").toProject = .ok project) ∧
      (excluding ":").validate = .ok () ∧
      (¬ ∃ project, (excluding ":").toProject = .ok project) ∧
      (∀ s ∈ (excluding ":").dependencies, s.Agrees) ∧ ∀ s ∈ (excluding ":").management, s.Agrees := by
  have hwhole : (excluding "o:l").validate = .ok () := by rfl
  have hhalf : (excluding ":").validate = .ok () := by rfl
  obtain ⟨hconverts, hdependencies, hmanagement⟩ := conversion_of_validate hhalf
  refine ⟨hwhole, ?_, hhalf, ?_, ?_, ?_⟩
  · exact (conversion_of_validate hwhole).1.toProject_iff.2 (by decide)
  · rw [hconverts.toProject_iff]
    decide
  · intro s hs
    obtain rfl := List.mem_singleton.1 hs
    exact hdependencies _ (by decide)
  · intro s hs
    obtain rfl := List.mem_singleton.1 hs
    exact hmanagement _ (by constructor <;> decide)

/-- An exclusion of a colon alone passes validation and is refused by conversion, without the advice
that an exclusion without a colon gets. -/
theorem lateRefusal :
    (excluding ":").validate = .ok () ∧
    (excluding ":").toProject = .error ⟨.invalidDependency "o" "w", [.halfExclusion ":"]⟩ ∧
    (excluding ":").declarations = .error ⟨.invalidDependency "o" "w", [.halfExclusion ":"]⟩ ∧
    Fault.advice ⟨.invalidDependency "o" "w", [.halfExclusion ":"]⟩ = none ∧
    ∃ fault, (excluding "l").validate = .error fault ∧
      fault.advice = some Advice.exclusionForm := by
  refine ⟨by rfl, by rfl, by rfl, by rfl, ?_⟩
  exact ⟨_, by rfl, by rfl⟩

end Manifest

end ArtifactTree
