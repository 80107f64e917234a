import ArtifactTree.Analysis
import ArtifactTree.Manifest.Validation

/-!
# From manifests to projects

A manifest that has a project section gives a project to analyze; any manifest gives the
declarations of the artifact that it describes.
-/

namespace ArtifactTree

/-- The declaration that an entry of `[[dependencies]]` makes. -/
def DependencySection.declaration (s : DependencySection) : Except Fault Declaration := do
  let exclusions ← s.exclusions.mapM Exclusion.parse
  let scope ← s.parseScope
  return { coordinate := s.coordinate, scope, optional := s.optional, exclusions }

/-- The override that an entry of `[[management]]` makes. -/
def ManagementSection.override (s : ManagementSection) : Except Fault Override := do
  return { version := s.version, scope := ← s.parseScope }

namespace Manifest

def declarations (m : Manifest) : Except Fault (List Declaration) :=
  m.dependencies.mapM fun s =>
    s.declaration.mapError (·.under (.invalidDependency s.group s.name))

def managementTable (m : Manifest) : Except Fault Management := do
  let entries ← m.management.mapM fun s => do return (s.key, ← s.override)
  return .ofList entries

def toProject (m : Manifest) : Except Fault Project :=
  match m.project with
  | none => .error ⟨.projectNeeded, []⟩
  | some s => do
    return {
      coordinate := s.coordinate
      dependencies := ← m.declarations
      management := ← m.managementTable }

end Manifest

end ArtifactTree
