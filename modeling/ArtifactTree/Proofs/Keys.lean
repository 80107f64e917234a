import ArtifactTree.Graph.Basic
import ArtifactTree.Text.Segments

/-!
# What keys tell apart

Keys are parts joined by colons, so a key tells two coordinates apart only if no part has a colon of
its own. Then the parts are read back by cutting the key (`segments_joined`), and a key stands for the
artifact, the version and the scope that it was built from.

One ambiguity is left (`Coordinate.Shifted`). A key without a scope may be that of another coordinate
with one, with the classifier taken for the version and the version for the scope. It does not occur if
the coordinate without a scope has no classifier, since then its key has only four parts.
-/

namespace ArtifactTree

namespace Text

variable {sep : Char}

theorem segments_of_not_mem {piece : List Char} (h : sep ∉ piece) : segments sep piece = [piece] := by
  induction piece with
  | nil => rfl
  | cons c piece ih =>
    rw [List.mem_cons, not_or] at h
    rw [segments, if_neg (Ne.symm h.1), ih h.2]

theorem segments_append {piece : List Char} (h : sep ∉ piece) (text : List Char) :
    segments sep (piece ++ sep :: text) = piece :: segments sep text := by
  induction piece with
  | nil => rw [List.nil_append, segments, if_pos rfl]
  | cons c piece ih =>
    rw [List.mem_cons, not_or] at h
    rw [List.cons_append, segments, if_neg (Ne.symm h.1), ih h.2]

/-- Cutting reads back what was joined. -/
theorem segments_joined {pieces : List (List Char)} (hne : pieces ≠ [])
    (h : ∀ piece ∈ pieces, sep ∉ piece) : segments sep (joined sep pieces) = pieces := by
  induction pieces with
  | nil => exact absurd rfl hne
  | cons piece pieces ih =>
    have hpiece := h piece List.mem_cons_self
    cases pieces with
    | nil => exact segments_of_not_mem hpiece
    | cons next pieces =>
      rw [joined, segments_append hpiece]
      · rw [ih (List.cons_ne_nil _ _) fun p hp => h p (List.mem_cons_of_mem _ hp)]
      · exact List.cons_ne_nil _ _

end Text

/-- Whether a text has no colon. -/
def ColonFree (text : String) : Prop := ':' ∉ text.toList

instance (text : String) : Decidable (ColonFree text) := inferInstanceAs (Decidable (':' ∉ _))

theorem Scope.colonFree_name (scope : Scope) : ColonFree scope.name := by
  cases scope <;> decide

namespace Coordinate

/-- Full keys differ by artifact key, version and scope only. -/
theorem fullKey_congr {c d : Coordinate} (h : c.artifactKey = d.artifactKey) (version : String)
    (scope : Option Scope) : c.fullKey version scope = d.fullKey version scope := by
  unfold fullKey
  rw [h]

/-- All that names the artifact of a coordinate apart from its version. -/
def artifact (c : Coordinate) : String × String × String × Option String :=
  (c.group, c.name, c.type, c.classifier)

/-- The parts of the artifact key. -/
def artifactParts (c : Coordinate) : List String := [c.group, c.name, c.type] ++ c.classifier.toList

/-- The parts of the full key. -/
def fullParts (c : Coordinate) (version : String) (scope : Option Scope) : List String :=
  c.artifactParts ++ [version] ++ (scope.map Scope.name).toList

/-- No part of the coordinate has a colon. -/
structure PartsColonFree (c : Coordinate) : Prop where
  group : ColonFree c.group
  name : ColonFree c.name
  type : ColonFree c.type
  version : ColonFree c.version
  classifier : ∀ classifier ∈ c.classifier, ColonFree classifier

instance (c : Coordinate) : Decidable c.PartsColonFree :=
  decidable_of_iff
    (ColonFree c.group ∧ ColonFree c.name ∧ ColonFree c.type ∧ ColonFree c.version ∧
      ∀ classifier ∈ c.classifier, ColonFree classifier)
    ⟨fun ⟨hgroup, hname, htype, hversion, hclassifier⟩ =>
      ⟨hgroup, hname, htype, hversion, hclassifier⟩,
      fun h => ⟨h.group, h.name, h.type, h.version, h.classifier⟩⟩

theorem toList_artifactKey (c : Coordinate) :
    c.artifactKey.toList = Text.joined ':' (c.artifactParts.map String.toList) := by
  rw [artifactKey, artifactParts]
  cases c.classifier <;> simp [Text.joined, String.toList_append]

theorem toList_fullKey (c : Coordinate) (version : String) (scope : Option Scope) :
    (c.fullKey version scope).toList =
      Text.joined ':' ((c.fullParts version scope).map String.toList) := by
  unfold fullKey
  rw [artifactKey, fullParts, artifactParts]
  cases c.classifier <;> cases scope <;> simp [Text.joined, String.toList_append]

end Coordinate

/-- A part between two that may be missing: the same three times, or shifted by one. -/
theorem optional_parts_cases {before before' after after' : Option String} {part part' : String}
    (h : before.toList ++ [part] ++ after.toList = before'.toList ++ [part'] ++ after'.toList) :
    before = before' ∧ part = part' ∧ after = after' ∨
      before = some part' ∧ after' = some part ∧ before' = none ∧ after = none ∨
        before' = some part ∧ after = some part' ∧ before = none ∧ after' = none := by
  cases before <;> cases after <;> cases before' <;> cases after' <;> simp_all

/-- Parts without colons are read back from the text that joins them. -/
theorem segments_joined_parts {parts : List String} (hne : parts ≠ [])
    (h : ∀ part ∈ parts, ColonFree part) :
    Text.segments ':' (Text.joined ':' (parts.map String.toList)) = parts.map String.toList := by
  apply Text.segments_joined (by simpa using hne)
  intro piece hpiece
  obtain ⟨part, hpart, rfl⟩ := List.mem_map.1 hpiece
  exact h part hpart

/-- Texts joined from parts without colons have the same parts if they are equal. -/
theorem eq_of_joined_eq {parts parts' : List String} (hne : parts ≠ []) (hne' : parts' ≠ [])
    (h : ∀ part ∈ parts, ColonFree part) (h' : ∀ part ∈ parts', ColonFree part)
    (heq : Text.joined ':' (parts.map String.toList) =
      Text.joined ':' (parts'.map String.toList)) : parts = parts' := by
  have hsegments := congrArg (Text.segments ':') heq
  rw [segments_joined_parts hne h, segments_joined_parts hne' h'] at hsegments
  exact (List.map_inj_right fun _ _ => String.toList_inj.1).1 hsegments

namespace Coordinate

variable {c d : Coordinate}

theorem PartsColonFree.artifactParts (hc : c.PartsColonFree) :
    ∀ part ∈ c.artifactParts, ColonFree part := by
  intro part hpart
  simp only [Coordinate.artifactParts, List.mem_append, List.mem_cons, List.not_mem_nil, or_false,
    Option.mem_toList] at hpart
  rcases hpart with (rfl | rfl | rfl) | hpart
  · exact hc.group
  · exact hc.name
  · exact hc.type
  · exact hc.classifier part hpart

theorem PartsColonFree.fullParts (hc : c.PartsColonFree) {version : String}
    (hversion : ColonFree version) (scope : Option Scope) :
    ∀ part ∈ c.fullParts version scope, ColonFree part := by
  intro part hpart
  simp only [Coordinate.fullParts, List.mem_append, List.mem_singleton, Option.mem_toList,
    Option.map_eq_some_iff] at hpart
  rcases hpart with (hpart | rfl) | ⟨scope, -, rfl⟩
  · exact hc.artifactParts part hpart
  · exact hversion
  · exact scope.colonFree_name

/-- Colons cut a full key into its parts. -/
theorem PartsColonFree.segments_fullKey (hc : c.PartsColonFree) {version : String}
    (hversion : ColonFree version) (scope : Option Scope) :
    Text.segments ':' (c.fullKey version scope).toList =
      (c.fullParts version scope).map String.toList := by
  rw [toList_fullKey]
  exact segments_joined_parts (List.cons_ne_nil _ _) (hc.fullParts hversion scope)

theorem artifactParts_inj (h : c.artifactParts = d.artifactParts) : c.artifact = d.artifact := by
  rw [artifact, artifact]
  cases hc : c.classifier <;> cases hd : d.classifier <;> simp_all [artifactParts]

theorem artifactKey_eq_iff (hc : c.PartsColonFree) (hd : d.PartsColonFree) :
    c.artifactKey = d.artifactKey ↔ c.artifact = d.artifact := by
  constructor
  · intro h
    have htext := congrArg String.toList h
    rw [toList_artifactKey, toList_artifactKey] at htext
    refine artifactParts_inj (eq_of_joined_eq ?_ ?_ hc.artifactParts hd.artifactParts htext)
    · exact List.cons_ne_nil _ _
    · exact List.cons_ne_nil _ _
  · intro h
    simp only [artifact, Prod.mk.injEq] at h
    obtain ⟨hgroup, hname, htype, hclassifier⟩ := h
    rw [artifactKey, artifactKey, hgroup, hname, htype, hclassifier]

section FullKey

variable {version version' : String} {scope scope' : Option Scope}

theorem fullParts_of_fullKey_eq (hc : c.PartsColonFree) (hd : d.PartsColonFree)
    (hversion : ColonFree version) (hversion' : ColonFree version')
    (h : c.fullKey version scope = d.fullKey version' scope') :
    c.fullParts version scope = d.fullParts version' scope' := by
  have htext := congrArg String.toList h
  rw [toList_fullKey, toList_fullKey] at htext
  refine eq_of_joined_eq ?_ ?_ (hc.fullParts hversion scope) (hd.fullParts hversion' scope') htext
  · exact List.cons_ne_nil _ _
  · exact List.cons_ne_nil _ _

theorem fullKey_eq_of_fullParts_eq (h : c.fullParts version scope = d.fullParts version' scope') :
    c.fullKey version scope = d.fullKey version' scope' := by
  refine String.toList_inj.1 ?_
  rw [toList_fullKey, toList_fullKey, h]

/-- A key without a scope, read as one with a scope and without a classifier: the classifier is taken for
the version, and the version for the scope. -/
structure Shifted (c d : Coordinate) (version version' : String) (scope scope' : Option Scope) :
    Prop where
  group : c.group = d.group
  name : c.name = d.name
  type : c.type = d.type
  classifier : c.classifier = some version'
  version : scope'.map Scope.name = some version
  unclassified : d.classifier = none
  unscoped : scope = none

theorem Shifted.fullParts_eq (h : c.Shifted d version version' scope scope') :
    c.fullParts version scope = d.fullParts version' scope' := by
  rw [fullParts, fullParts, artifactParts, artifactParts, h.group, h.name, h.type, h.classifier,
    h.version, h.unclassified, h.unscoped]
  rfl

theorem fullParts_cases (h : c.fullParts version scope = d.fullParts version' scope') :
    c.artifact = d.artifact ∧ version = version' ∧ scope = scope' ∨
      c.Shifted d version version' scope scope' ∨ d.Shifted c version' version scope' scope := by
  simp only [Coordinate.fullParts, Coordinate.artifactParts, List.cons_append, List.nil_append,
    List.cons.injEq] at h
  obtain ⟨hgroup, hname, htype, hrest⟩ := h
  rcases optional_parts_cases hrest with
    ⟨hclassifier, hversion, hscope⟩ | ⟨hclassifier, hscope', hnone, hscope⟩ |
      ⟨hclassifier, hscope, hnone, hscope'⟩
  · left
    have hartifact : c.artifact = d.artifact := by
      rw [artifact, artifact, hgroup, hname, htype, hclassifier]
    exact ⟨hartifact, hversion, Option.map_injective (fun _ _ => Scope.name_injective) hscope⟩
  · right; left
    exact ⟨hgroup, hname, htype, hclassifier, hscope', hnone, Option.map_eq_none_iff.1 hscope⟩
  · right; right
    exact ⟨hgroup.symm, hname.symm, htype.symm, hclassifier, hscope, hnone,
      Option.map_eq_none_iff.1 hscope'⟩

section ColonFree

variable (hc : c.PartsColonFree) (hd : d.PartsColonFree) (hversion : ColonFree version)
  (hversion' : ColonFree version')
include hc hd hversion hversion'

/-- A full key stands for the artifact, the version and the scope, up to a shift. -/
theorem fullKey_eq_iff :
    c.fullKey version scope = d.fullKey version' scope' ↔
      c.artifact = d.artifact ∧ version = version' ∧ scope = scope' ∨
        c.Shifted d version version' scope scope' ∨
          d.Shifted c version' version scope' scope := by
  constructor
  · exact fun h => fullParts_cases (fullParts_of_fullKey_eq hc hd hversion hversion' h)
  · rintro (⟨hartifact, rfl, rfl⟩ | hshifted | hshifted)
    · exact fullKey_congr ((artifactKey_eq_iff hc hd).2 hartifact) version scope
    · exact fullKey_eq_of_fullParts_eq hshifted.fullParts_eq
    · exact (fullKey_eq_of_fullParts_eq hshifted.fullParts_eq).symm

/-- A full key with a scope stands for the artifact, the version and the scope. -/
theorem fullKey_some_eq_iff {scope scope' : Scope} :
    c.fullKey version (some scope) = d.fullKey version' (some scope') ↔
      c.artifact = d.artifact ∧ version = version' ∧ scope = scope' := by
  rw [fullKey_eq_iff hc hd hversion hversion', Option.some.injEq]
  constructor
  · rintro (hsame | hshifted | hshifted)
    · exact hsame
    · exact absurd hshifted.unscoped (Option.some_ne_none scope)
    · exact absurd hshifted.unscoped (Option.some_ne_none scope')
  · exact .inl

/-- A full key without a scope has only four parts if there is no classifier. -/
theorem fullKey_ne_of_classifier_eq_none (hnone : d.classifier = none) (scope : Scope) :
    c.fullKey version (some scope) ≠ d.fullKey version' none := by
  rw [Ne, fullKey_eq_iff hc hd hversion hversion']
  rintro (⟨-, -, hscope⟩ | hshifted | hshifted)
  · cases hscope
  · cases hshifted.unscoped
  · cases hnone.symm.trans hshifted.classifier

end ColonFree

end FullKey

end Coordinate

end ArtifactTree
