import ArtifactTree.Manifest.Section
import ArtifactTree.Text.Blank

/-!
# Validation of manifests

What the names and versions of a manifest may look like. A group is dot-separated segments, names,
types and classifiers are tokens, and a version is any text without blanks and colons. The first
fault in the order of the sections and of their fields is reported, with advice.
-/

namespace ArtifactTree

namespace Validation

/-- Whether a character may stand in a segment of a group. -/
def isSegmentChar (c : Char) : Bool := c.isAlphanum || c = '_' || c = '-'

/-- Whether a character may stand in a name, a type or a classifier. -/
def isTokenChar (c : Char) : Bool := isSegmentChar c || c = '.'

/-- Whether what is left of a group may follow, inside a segment or where one has to start: dots
stand behind segments only, and a segment stands at the end. -/
def isGroupRest (inside : Bool) : List Char → Bool
  | [] => inside
  | c :: rest =>
    if isSegmentChar c then isGroupRest true rest else c = '.' && inside && isGroupRest false rest

/-- Whether a text is one or more segments, each not empty, with dots between them. -/
def isGroup (text : String) : Bool := isGroupRest false text.toList

/-- Whether a list of characters is a segment. -/
def isSegment (piece : List Char) : Bool := !piece.isEmpty && piece.all isSegmentChar

/-- Where a segment has to start, all pieces are segments; inside one, the first may be empty. -/
theorem isGroupRest_eq (inside : Bool) (text : List Char) :
    isGroupRest inside text =
      match Text.segments '.' text with
      | [] => false
      | piece :: pieces =>
        (inside || !piece.isEmpty) && piece.all isSegmentChar && pieces.all isSegment := by
  induction text generalizing inside with
  | nil => simp [isGroupRest, Text.segments]
  | cons c rest ih =>
    by_cases hdot : c = '.'
    · have hc : isSegmentChar '.' = false := by decide
      simp only [isGroupRest, Text.segments, hdot, hc, ih]
      cases hs : Text.segments '.' rest with
      | nil => exact absurd hs (Text.segments_ne_nil '.' rest)
      | cons piece pieces => simp [isSegment]
    · simp only [isGroupRest, Text.segments, hdot, ih, if_false, decide_false, Bool.false_and]
      cases hs : Text.segments '.' rest with
      | nil => exact absurd hs (Text.segments_ne_nil '.' rest)
      | cons piece pieces => cases hc : isSegmentChar c <;> simp [hc]

/-- A group is a text that dots cut into segments. -/
theorem isGroup_eq (text : String) :
    isGroup text = (Text.segments '.' text.toList).all isSegment := by
  rw [isGroup, isGroupRest_eq]
  cases hs : Text.segments '.' text.toList with
  | nil => exact absurd hs (Text.segments_ne_nil '.' text.toList)
  | cons piece pieces => simp [isSegment]

/-- Whether a text is a token: not empty, and of token characters only. -/
def isToken (text : String) : Bool := !text.toList.isEmpty && text.toList.all isTokenChar

/-- Whether a text is a version: not empty, without blanks and without colons. -/
def isVersion (text : String) : Bool :=
  !text.toList.isEmpty && text.toList.all fun c => !Text.isBlank c && c != ':'

abbrev Check := Except Fault Unit

/-- Passes if the condition holds, and else fails with a message and advice. -/
def require (holds : Bool) (message advice : String) : Check :=
  if holds then .ok () else .error (.configuration message advice)

def checkGroup (text : String) : Check :=
  require (isGroup text) ("Invalid group '" ++ text ++ "'") Advice.coordinateForm

/-- Checks a token, which the message calls `field`. -/
def checkToken (field text : String) : Check :=
  require (isToken text) ("Invalid " ++ field ++ " '" ++ text ++ "'") Advice.coordinateForm

def checkToken? (field : String) : Option String → Check
  | some text => checkToken field text
  | none => .ok ()

def checkVersion (text : String) : Check :=
  require (isVersion text) ("Invalid version '" ++ text ++ "'") Advice.versionForm

def checkVersion? : Option String → Check
  | some text => checkVersion text
  | none => .ok ()

/-- Checks that an exclusion has a colon. -/
def checkExclusion (text : String) : Check :=
  require (text.toList.contains ':') ("Invalid exclusion '" ++ text ++ "'") Advice.exclusionForm

/-- The same check; a fault is seen from one step further out. -/
def under (cause : Cause) (check : Check) : Check := check.mapError (·.under cause)

end Validation

open Validation

def ProjectSection.validate (s : ProjectSection) : Check := do
  checkGroup s.group
  checkToken "name" s.name
  checkToken "type" s.type
  checkVersion s.version
  checkToken? "classifier" s.classifier

/-- The scope that the section states, `compile` if it states none. -/
def DependencySection.parseScope (s : DependencySection) : Except Fault Scope :=
  match s.scope with
  | some name => Scope.parse name
  | none => .ok .compile

def DependencySection.validate (s : DependencySection) : Check := do
  checkGroup s.group
  checkToken "name" s.name
  checkToken "type" s.type
  checkVersion s.version
  checkToken? "classifier" s.classifier
  let _ ← s.parseScope
  s.exclusions.forM checkExclusion

/-- The scope that the section forces, if it forces one. -/
def ManagementSection.parseScope (s : ManagementSection) : Except Fault (Option Scope) :=
  match s.scope with
  | some name => (Scope.parse name).map some
  | none => .ok none

def ManagementSection.validate (s : ManagementSection) : Check := do
  checkGroup s.group
  checkToken "name" s.name
  checkToken "type" s.type
  checkToken? "classifier" s.classifier
  checkVersion? s.version
  let _ ← s.parseScope.mapError (·.under (.invalidManagedScope s.key))
  require (s.version.isSome || s.scope.isSome)
    ("Management entry '" ++ s.key ++ "' overrides nothing") Advice.managementEffect

/-- Checks that a manifest has a project and that all its sections are well formed. -/
def Manifest.validate (m : Manifest) : Check := do
  match m.project with
  | none => throw ⟨.noProject, []⟩
  | some project => project.validate
  m.dependencies.forM fun s => under (.invalidDependency s.group s.name) s.validate
  m.management.forM fun s => under (.invalidManagement s.key) s.validate

def Manifest.parse (text : String) : Except Fault Manifest :=
  match Toml.read? text with
  | none => .error ⟨.unparsedManifest, [.notToml]⟩
  | some entries =>
    match Manifest.ofEntries entries with
    | .error fault => .error ⟨.unparsedManifest, [.shape fault]⟩
    | .ok m => do
      m.validate
      return m

end ArtifactTree
