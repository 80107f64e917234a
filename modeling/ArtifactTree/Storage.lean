import ArtifactTree.Fault

/-!
# Storage

What the tool asks of a file system: whether a path leads anywhere, whether to a file, the text of a
file, and to write one.
-/

namespace ArtifactTree

/-- A file system, used in a monad. -/
structure Storage (m : Type → Type) where
  has : Path → m Bool
  isFile : Path → m Bool
  read : Path → m (Except StorageFault String)
  /-- Makes the text the content of the file at the path, which need not be there yet. -/
  write : Path → String → m (Except StorageFault Unit)

end ArtifactTree
