import ArtifactTree.Manifest.Conversion
import ArtifactTree.Storage

/-!
# Descriptor repositories

A repository is a directory of manifests, one per artifact version, at
`<group path>/<name>/<version>/<name>-<version>.toml`, a path of Unix. Artifacts that differ only in
type or classifier share one descriptor.
-/

namespace ArtifactTree

/-- A directory of descriptors. -/
structure Repository where
  root : Path
  /-- Whether an artifact without a descriptor declares nothing. -/
  allowMissing : Bool := false

namespace Repository

def descriptorSteps (c : Coordinate) : List String :=
  (Text.segments '.' c.group.toList).map String.ofList ++
    [c.name, c.version, c.name ++ "-" ++ c.version ++ ".toml"]

def descriptorPath (r : Repository) (c : Coordinate) : Path := r.root.joinAll (descriptorSteps c)

/-- What a descriptor with the given text declares. -/
def declarationsOf (path : Path) (text : String) : Answer :=
  (do (← Manifest.parse text).declarations : Answer).mapError (·.under (.invalidDescriptor path))

/-- Tells what artifacts declare by their descriptors in the repository. -/
def collector {m : Type → Type} [Monad m] (storage : Storage m) (r : Repository) : Collector m where
  collect c := do
    let path := r.descriptorPath c
    if ← storage.has path then
      match ← storage.read path with
      | .ok text => return declarationsOf path text
      | .error fault => return .error ⟨.unreadableDescriptor path, [.storage fault]⟩
    else if r.allowMissing then return .ok []
    else return .error ⟨.noDescriptor c (some path), []⟩

end Repository

end ArtifactTree
