import ArtifactTree.Proofs.Manifest
import ArtifactTree.Proofs.Mediation.Markers
import ArtifactTree.Proofs.Rendering.Lines
import ArtifactTree.Render.Label

/-!
# Labels of valid nodes

A node whose texts are as manifests may write them has a label that stands on one line and does not
start like the columns in front of it. What mediation writes into labels are texts of other nodes of
the graph, so that holds of all nodes of an analysis whose texts are valid.
-/

namespace ArtifactTree

open Validation

/-! ## Texts without blanks -/

/-- Whether no character of a text is blank. -/
def NoBlank (text : String) : Prop := ∀ c ∈ text.toList, Text.isBlank c = false

instance (text : String) : Decidable (NoBlank text) :=
  List.decidableBAll (fun c => Text.isBlank c = false) text.toList

namespace NoBlank

variable {text text' : String}

theorem append (h : NoBlank text) (h' : NoBlank text') : NoBlank (text ++ text') :=
  Text.forall_mem_append.2 ⟨h, h'⟩

theorem space_not_mem (h : NoBlank text) : ' ' ∉ text.toList := by
  intro hmem
  exact absurd (h ' ' hmem) (by decide)

end NoBlank

/-- A text that may stand in a key and in a note: nothing in it is taken for the end of it. -/
structure Plain (text : String) : Prop where
  colonFree : ColonFree text
  noBlank : NoBlank text

instance (text : String) : Decidable (Plain text) :=
  decidable_of_iff (ColonFree text ∧ NoBlank text)
    ⟨fun ⟨hcolon, hblank⟩ => ⟨hcolon, hblank⟩, fun h => ⟨h.colonFree, h.noBlank⟩⟩

/-- Whether a text has no other blanks than spaces, so no line break of any kind. -/
def OnlySpaces (text : String) : Prop := ∀ c ∈ text.toList, Text.isBlank c → c = ' '

instance (text : String) : Decidable (OnlySpaces text) :=
  List.decidableBAll (fun c => Text.isBlank c → c = ' ') text.toList

namespace OnlySpaces

variable {text text' : String}

theorem append (h : OnlySpaces text) (h' : OnlySpaces text') : OnlySpaces (text ++ text') :=
  Text.forall_mem_append.2 ⟨h, h'⟩

theorem intercalate {sep : String} {texts : List String} (hsep : OnlySpaces sep)
    (h : ∀ text ∈ texts, OnlySpaces text) : OnlySpaces (String.intercalate sep texts) :=
  (Text.forall_mem_intercalate hsep).2 h

theorem singleLine (h : OnlySpaces text) : SingleLine text := fun hmem =>
  absurd (h '\n' hmem (by decide)) (by decide)

end OnlySpaces

theorem NoBlank.onlySpaces {text : String} (h : NoBlank text) : OnlySpaces text := fun c hc hblank =>
  absurd hblank (Bool.eq_false_iff.1 (h c hc))

/-- The characters of tokens are between the hyphen and `z`. -/
theorem toNat_of_isTokenChar {c : Char} (h : isTokenChar c) : 0x2D ≤ c.toNat ∧ c.toNat ≤ 0x7A := by
  have hval : c.val.toNat = c.toNat := rfl
  simp only [isTokenChar, isSegmentChar, Bool.or_eq_true, decide_eq_true_eq] at h
  rcases h with ((h | rfl) | rfl) | rfl
  · unfold Char.isAlphanum Char.isAlpha Char.isUpper Char.isLower Char.isDigit at h
    simp [UInt32.le_iff_toNat_le, hval] at h
    omega
  all_goals decide

theorem noBlank_of_isTokenChar {text : String} (h : ∀ c ∈ text.toList, isTokenChar c) :
    NoBlank text := by
  intro c hc
  have hbounds := toNat_of_isTokenChar (h c hc)
  simp [Text.isBlank, Text.blankRanges]
  omega

theorem noBlank_of_isVersion {text : String} (h : isVersion text) : NoBlank text := by
  intro c hc
  simp only [isVersion, Bool.and_eq_true, List.all_eq_true] at h
  simpa using (h.2 c hc).1

theorem Scope.noBlank_name (scope : Scope) : NoBlank scope.name := by
  cases scope <;> decide

theorem noBlank_colon : NoBlank ":" := by decide

theorem onlySpaces_of_isVersion {text : String} (h : isVersion text) : OnlySpaces text :=
  (noBlank_of_isVersion h).onlySpaces

theorem Scope.onlySpaces_name (scope : Scope) : OnlySpaces scope.name := scope.noBlank_name.onlySpaces

/-- Whether a text starts as labels do: with a character of a group, or with a parenthesis. -/
def StartsLabel (text : String) : Prop :=
  ∃ first rest, text.toList = first :: rest ∧ (isSegmentChar first ∨ first = '(')

theorem StartsLabel.append {text : String} (h : StartsLabel text) (more : String) :
    StartsLabel (text ++ more) := by
  obtain ⟨first, rest, htext, hfirst⟩ := h
  exact ⟨first, rest ++ more.toList, by rw [String.toList_append, htext, List.cons_append], hfirst⟩

/-- A key starts with the group. -/
theorem Coordinate.exists_fullKey_eq (c : Coordinate) (version : String) (scope : Option Scope) :
    ∃ more, c.fullKey version scope = c.group ++ more := by
  unfold fullKey artifactKey
  cases c.classifier <;> cases scope <;>
    · simp only [String.append_assoc]
      exact ⟨_, rfl⟩

namespace Coordinate.Named

variable {c : Coordinate} (h : c.Named)
include h

theorem noBlank_artifactKey : NoBlank c.artifactKey := by
  have hgroup := noBlank_of_isTokenChar (isTokenChar_of_isGroup h.group)
  have hname := noBlank_of_isTokenChar (isTokenChar_of_isToken h.name)
  have htype := noBlank_of_isTokenChar (isTokenChar_of_isToken h.type)
  have hkey := (((hgroup.append noBlank_colon).append hname).append noBlank_colon).append htype
  unfold artifactKey
  cases hclassifier : c.classifier with
  | none => exact hkey
  | some classifier =>
    have hvalid := isTokenChar_of_isToken (h.classifier classifier hclassifier)
    exact (hkey.append noBlank_colon).append (noBlank_of_isTokenChar hvalid)

theorem noBlank_fullKey {version : String} (hversion : NoBlank version) (scope : Option Scope) :
    NoBlank (c.fullKey version scope) := by
  have hkey := (h.noBlank_artifactKey.append noBlank_colon).append hversion
  unfold fullKey
  cases scope with
  | none => exact hkey
  | some scope => exact (hkey.append noBlank_colon).append scope.noBlank_name

/-- A key starts as its group does. -/
theorem exists_cons_fullKey (version : String) (scope : Option Scope) :
    ∃ first rest, (c.fullKey version scope).toList = first :: rest ∧ isSegmentChar first := by
  obtain ⟨first, rest, hgroup, hfirst⟩ := exists_cons_of_isGroup h.group
  obtain ⟨more, hkey⟩ := c.exists_fullKey_eq version scope
  exact ⟨first, rest ++ more.toList, by rw [hkey, String.toList_append, hgroup, List.cons_append],
    hfirst⟩

theorem startsLabel_fullKey (version : String) (scope : Option Scope) :
    StartsLabel (c.fullKey version scope) := by
  obtain ⟨first, rest, hkey, hfirst⟩ := h.exists_cons_fullKey version scope
  exact ⟨first, rest, hkey, .inl hfirst⟩

end Coordinate.Named

namespace Coordinate.Valid

variable {c : Coordinate} (h : c.Valid)
include h

theorem noBlank_fullKey {version : String} (hversion : isVersion version) (scope : Option Scope) :
    NoBlank (c.fullKey version scope) :=
  h.named.noBlank_fullKey (noBlank_of_isVersion hversion) scope

theorem onlySpaces_text : OnlySpaces c.text := (h.noBlank_fullKey h.version none).onlySpaces

end Coordinate.Valid

/-! ## Labels -/

/-- The texts of an omission are as manifests may write them. -/
def Omission.Valid : Omission → Prop
  | versionConflict winner => isVersion winner
  | cycle of => of.Valid
  | _ => True

theorem Omission.Valid.onlySpaces_text {omission : Omission} (h : omission.Valid) :
    OnlySpaces omission.text := by
  cases omission with
  | duplicate of => exact (by decide : OnlySpaces "omitted for duplicate")
  | scopeConflict winner => exact .append (by decide) winner.onlySpaces_name
  | versionConflict winner => exact .append (by decide) (onlySpaces_of_isVersion h)
  | cycle of => exact .append (by decide) (Coordinate.Valid.onlySpaces_text h)
  | optional => decide
  | malformed => decide

/-- The texts that a node declares, and those that management forces on it, are as manifests may write
them. -/
structure Node.Valid (n : Node) : Prop where
  coordinate : ∀ c ∈ n.coordinate, c.Valid
  managedVersion : ∀ version ∈ n.managedVersion, isVersion version

instance (n : Node) : Decidable n.Valid :=
  decidable_of_iff
    ((∀ c ∈ n.coordinate, c.Valid) ∧ ∀ version ∈ n.managedVersion, isVersion version)
    ⟨fun ⟨hcoordinate, hversion⟩ => ⟨hcoordinate, hversion⟩,
      fun h => ⟨h.coordinate, h.managedVersion⟩⟩

/-- What is read outside the arena is valid as well. -/
theorem Graph.valid_node {g : Graph} (h : ∀ n ∈ g.nodes.toList, n.Valid) (id : Nat) :
    (g.node id).Valid := by
  unfold node
  rw [Array.getD_eq_getD_getElem?]
  cases hid : g.nodes[id]? with
  | none => exact ⟨by simp, by simp⟩
  | some n => exact h n (Array.mem_toList_iff.2 (Array.mem_of_getElem? hid))

/-- All texts in the label of the node are as manifests may write them. -/
structure Node.Presentable (n : Node) : Prop extends n.Valid where
  omission : ∀ omission ∈ n.omission, omission.Valid

namespace Node

variable {n : Node}

theorem Valid.isVersion_of_effectiveVersion (h : n.Valid) {version : String}
    (hversion : n.effectiveVersion = some version) : isVersion version := by
  unfold effectiveVersion at hversion
  cases hmanaged : n.managedVersion with
  | some managed =>
    rw [hmanaged] at hversion
    exact Option.some.inj hversion ▸ h.managedVersion managed hmanaged
  | none =>
    rw [hmanaged] at hversion
    obtain ⟨c, hc, rfl⟩ := Option.map_eq_some_iff.1 hversion
    exact (h.coordinate c hc).version

/-- The declared version of a node, if another one is in force. -/
def versionFrom (n : Node) : Option String :=
  n.managedVersion.bind fun _ => n.coordinate.map (·.version)

/-- The declared scope of a node, if another one is in force. -/
def scopeFrom (n : Node) : Option Scope := n.managedScope.bind fun _ => n.scope

theorem versionNote_eq : n.versionNote = n.versionFrom.map ("version managed from " ++ ·) := by
  unfold versionNote versionFrom
  cases n.managedVersion <;> cases n.coordinate <;> rfl

theorem scopeNote_eq : n.scopeNote = n.scopeFrom.map ("scope managed from " ++ ·.name) := by
  unfold scopeNote scopeFrom
  cases n.managedScope <;> cases n.scope <;> rfl

theorem notes_eq :
    n.notes = n.versionNote.toList ++ (n.scopeNote.toList ++ (n.omission.map (·.text)).toList) := by
  unfold notes
  cases n.versionNote <;> cases n.scopeNote <;> cases n.omission <;> rfl

theorem notesText_eq (n : Node) :
    n.notesText = String.intercalate "; "
      ((n.versionFrom.map ("version managed from " ++ ·)).toList ++
        (((n.scopeFrom.map Scope.name).map ("scope managed from " ++ ·)).toList ++
          (n.omission.map (·.text)).toList)) := by
  rw [notesText, notes_eq, versionNote_eq, scopeNote_eq, Option.map_map]
  rfl

/-- What stands behind the mark in a label, and behind the scope in the label of an edge. -/
def notesPart (n : Node) : String := if n.notes.isEmpty then "" else " - " ++ n.notesText

theorem noted_eq (text : String) :
    (if n.notes.isEmpty then text else text ++ " - " ++ n.notesText) = text ++ n.notesPart := by
  unfold notesPart
  split
  · exact String.append_empty.symm
  · exact String.append_assoc

theorem optionalMark_eq (n : Node) :
    n.optionalMark = if n.optional && n.omission != some .optional then " (optional)" else "" := rfl

theorem notesPart_cases (n : Node) :
    n.notesPart.toList = [] ∨ ∃ more, n.notesPart.toList = ' ' :: '-' :: more := by
  unfold notesPart
  split
  · exact .inl rfl
  · exact .inr ⟨_, String.toList_append⟩

/-- Behind the key a label ends, or has a blank. -/
theorem tail_cases (n : Node) :
    (n.optionalMark ++ n.notesPart).toList = [] ∨
      ∃ more, (n.optionalMark ++ n.notesPart).toList = ' ' :: more := by
  rw [String.toList_append, optionalMark_eq]
  split
  · exact .inr ⟨_, rfl⟩
  · rcases n.notesPart_cases with hnone | ⟨more, hmore⟩
    · exact .inl (by rw [hnone]; rfl)
    · exact .inr ⟨_, hmore⟩

/-- A label is in parentheses exactly if the node is omitted. -/
theorem label_eq_of_fullKey {key : String} (hkey : n.fullKey = some key) :
    n.label =
      if n.isOmitted then "(" ++ (key ++ n.optionalMark ++ n.notesPart) ++ ")"
      else key ++ n.optionalMark ++ n.notesPart := by
  rw [label, hkey]
  dsimp only
  rw [noted_eq]

theorem edgeLabel_eq_of_effectiveScope {scope : Scope} (h : n.effectiveScope = some scope) :
    n.edgeLabel = scope.name ++ n.notesPart := by
  rw [edgeLabel, h]
  exact noted_eq scope.name

theorem onlySpaces_optionalMark (n : Node) : OnlySpaces n.optionalMark := by
  unfold optionalMark
  split <;> decide

namespace Presentable

variable (h : n.Presentable)
include h

theorem onlySpaces_notes : ∀ note ∈ n.notes, OnlySpaces note := by
  have hversionStart : OnlySpaces "version managed from " := by decide
  have hscopeStart : OnlySpaces "scope managed from " := by decide
  intro note hnote
  rw [notes_eq, versionNote_eq, scopeNote_eq, List.mem_append, List.mem_append, Option.mem_toList,
    Option.mem_toList, Option.mem_toList] at hnote
  rcases hnote with hnote | hnote | hnote
  · obtain ⟨version, hversion, rfl⟩ := Option.map_eq_some_iff.1 hnote
    obtain ⟨-, -, hversion⟩ := Option.bind_eq_some_iff.1 hversion
    obtain ⟨c, hc, rfl⟩ := Option.map_eq_some_iff.1 hversion
    exact hversionStart.append (onlySpaces_of_isVersion (h.coordinate c hc).version)
  · obtain ⟨scope, -, rfl⟩ := Option.map_eq_some_iff.1 hnote
    exact hscopeStart.append scope.onlySpaces_name
  · obtain ⟨omission, homission, rfl⟩ := Option.map_eq_some_iff.1 hnote
    exact (h.omission omission homission).onlySpaces_text

theorem onlySpaces_notesText : OnlySpaces n.notesText :=
  .intercalate (by decide) h.onlySpaces_notes

theorem onlySpaces_notesPart : OnlySpaces n.notesPart := by
  unfold notesPart
  split
  · decide
  · exact .append (by decide) h.onlySpaces_notesText

theorem onlySpaces_label : OnlySpaces n.label := by
  cases hc : n.coordinate with
  | none =>
    rw [label, fullKey, hc]
    exact (by decide : OnlySpaces malformedLabel)
  | some c =>
    have hversion := effectiveVersion_of_coordinate hc
    have hkey := ((h.coordinate c hc).noBlank_fullKey (h.isVersion_of_effectiveVersion hversion)
      n.effectiveScope).onlySpaces
    have hbody := (hkey.append n.onlySpaces_optionalMark).append h.onlySpaces_notesPart
    rw [label_eq_of_fullKey (fullKey_of_coordinate hc hversion)]
    split
    · exact (OnlySpaces.append (by decide) hbody).append (by decide)
    · exact hbody

theorem onlySpaces_edgeLabel : OnlySpaces n.edgeLabel := by
  cases hscope : n.effectiveScope with
  | none =>
    rw [edgeLabel, hscope]
    exact h.onlySpaces_notesText
  | some scope =>
    rw [edgeLabel_eq_of_effectiveScope hscope]
    exact scope.onlySpaces_name.append h.onlySpaces_notesPart

theorem singleLine_label : SingleLine n.label := h.onlySpaces_label.singleLine

theorem singleLine_edgeLabel : SingleLine n.edgeLabel := h.onlySpaces_edgeLabel.singleLine

end Presentable

theorem Valid.startsLabel_label (h : n.Valid) : StartsLabel n.label := by
  have hopen : StartsLabel "(" := ⟨'(', [], by decide, .inr rfl⟩
  cases hc : n.coordinate with
  | none =>
    rw [label, fullKey, hc]
    exact hopen.append "malformed node)"
  | some c =>
    have hversion := effectiveVersion_of_coordinate hc
    have hkey := (h.coordinate c hc).named.startsLabel_fullKey (n.managedVersion.getD c.version)
      n.effectiveScope
    rw [label_eq_of_fullKey (fullKey_of_coordinate hc hversion)]
    split
    · exact (hopen.append _).append ")"
    · exact (hkey.append _).append _

end Node

/-! ## Labels of an analysis -/

open Mediation

theorem coordinate_of_markerOmission {n : Node} {of : Coordinate}
    (h : markerOmission n = .cycle of) : n.coordinate = some of := by
  unfold markerOmission at h
  cases hc : n.coordinate with
  | none => simp [hc] at h
  | some c =>
    rw [hc] at h
    dsimp only at h
    split at h
    · cases h
    · rw [Omission.cycle.inj h]

section Analyze

variable {m : Type → Type} {σ : Type} [Monad m] [Execution m σ] {project : Project}
  {collector : Collector m} {limit : Nat} {s : σ} {analysis : Analysis}

/-- What mediation writes into a label is a text of some node. -/
theorem presentable_of_analyze (h : (exec (project.analyze collector limit).run s).1 = .ok analysis)
    (hvalid : ∀ id, (analysis.graph.node id).Valid) (id : Nat) :
    (analysis.graph.node id).Presentable := by
  obtain ⟨trace, houtcome⟩ := exists_outcome_of_analyze h
  refine ⟨hvalid id, fun omission homission => ?_⟩
  have hstatus : (analysis.graph.node id).status = .omitted omission := by
    unfold Node.omission at homission
    split at homission
    · next hstatus => rw [hstatus, Option.some.inj homission]
    · cases homission
  cases omission with
  | versionConflict version =>
    obtain ⟨-, winner, -, -, -, -, hwinner⟩ := houtcome.exists_winner_of_versionConflict hstatus
    exact (hvalid winner).isVersion_of_effectiveVersion hwinner
  | cycle of =>
    rcases houtcome.mem_or_of_status hstatus with hmem | hmarker | hunvisited
    · have hcycle := houtcome.cycleOf_eq_none (Trace.mem_ids.2 ⟨_, hmem⟩)
      exact absurd hstatus (houtcome.status_ne_cycle hcycle of)
    · have hc := coordinate_of_markerOmission (Status.omitted.inj hmarker).symm
      exact (hvalid id).coordinate of hc
    · cases hunvisited
  | _ => trivial

end Analyze

end ArtifactTree
