import ArtifactTree.Lookup
import ArtifactTree.Storage

/-!
# File trees

A finite file system as a value: files and directories by their place below the working directory.
Paths are followed step by step; every step but the last has to be a directory, and two dots lead
one directory up. Above the working directory there are only directories without known content.
-/

namespace ArtifactTree

/-- Where a path leads: steps from the working directory, or from the root of the file system if the
first is `/`. Two dots occur only in front. -/
abbrev Place := List String

inductive FileEntry where
  | directory
  | file (content : ByteArray)

structure FileTree where
  entries : List (Place × FileEntry) := []

namespace FileTree

def rootStep : String := "/"

/-- Whether a place is the working directory, one above it, or the root: these are always there. -/
def isAnchor (place : Place) : Bool := place = [rootStep] || place.all (· == "..")

def find? (t : FileTree) (place : Place) : Option FileEntry :=
  if isAnchor place then some .directory else t.entries.lookup place

/-- One directory up. -/
def above (place : Place) : Place :=
  if place = [rootStep] then place
  else if isAnchor place then place ++ [".."]
  else place.dropLast

/-- The longest name of an entry, in bytes. -/
def nameLimit : Nat := 255

/-- The length that a path has to stay below, in bytes. -/
def pathLimit : Nat := 4096

/-- Follows the steps of a path from a place; the last one need not lead anywhere. -/
def follow (t : FileTree) : Place → List String → Except StorageFault Place
  | place, [] => .ok place
  | place, step :: steps =>
    match t.find? place with
    | none => .error .noSuchEntry
    | some (.file _) => .error .notDirectory
    | some .directory =>
      if step = ".." then t.follow (above place) steps
      else if step.utf8ByteSize > nameLimit then .error .nameTooLong
      else t.follow (place ++ [step]) steps

/-- The place where a path starts. -/
def anchor (p : Path) : Place := if p.isAbsolute then [rootStep] else []

/-- Fails if the text cannot be a path at all. -/
def checkPath (p : Path) : Except StorageFault Unit :=
  if p.text.toList.contains (Char.ofNat 0) then .error .nulInPath
  else if p.text.isEmpty then .error .noSuchEntry
  else if p.text.utf8ByteSize ≥ pathLimit then .error .nameTooLong
  else .ok ()

/-- Where a path leads, once every step but the last has been found to be a directory. -/
def locate (t : FileTree) (p : Path) : Except StorageFault Place := do
  checkPath p
  t.follow (anchor p) p.steps

/-- Fails unless there is a directory at a place. -/
def enter (t : FileTree) (place : Place) : Except StorageFault Unit :=
  match t.find? place with
  | none => .error .noSuchEntry
  | some (.file _) => .error .notDirectory
  | some .directory => .ok ()

/-- What a path leads to. A path that ends in an idle step leads to directories only. -/
def entry (t : FileTree) (p : Path) : Except StorageFault FileEntry := do
  match t.find? (← t.locate p) with
  | none => .error .noSuchEntry
  | some .directory => return .directory
  | some (.file content) => if p.namesDirectory then .error .notDirectory else return .file content

def has (t : FileTree) (p : Path) : Bool := (t.entry p).isOk

def isFile (t : FileTree) (p : Path) : Bool :=
  match t.entry p with
  | .ok (.file _) => true
  | _ => false

def read (t : FileTree) (p : Path) : Except StorageFault String := do
  match ← t.entry p with
  | .directory => .error .isDirectory
  | .file content =>
    match String.fromUTF8? content with
    | some text => return text
    | none => .error .notText

/-- Puts an entry at a place, instead of what was there. -/
def assign (t : FileTree) (place : Place) (entry : FileEntry) : FileTree :=
  ⟨(place, entry) :: t.entries.filter (·.1 != place)⟩

theorem find?_assign_self (t : FileTree) {place : Place} (entry : FileEntry)
    (h : isAnchor place = false) : (t.assign place entry).find? place = some entry := by
  simp [find?, assign, h]

theorem find?_assign_of_ne (t : FileTree) {place other : Place} (entry : FileEntry)
    (h : other ≠ place) : (t.assign place entry).find? other = t.find? other := by
  have hne : (other == place) = false := beq_eq_false_iff_ne.2 h
  have hl : (t.assign place entry).entries.lookup other = t.entries.lookup other := by
    simp only [assign, List.lookup_cons, hne]
    exact Lookup.lookup_filter_ne h t.entries
  unfold find?
  rw [hl]

/-- Writes a file; its directory has to be there. A path that ends in slashes is refused as soon as
its last step is reached, one that ends in a dot once it has led to a directory. -/
def write (t : FileTree) (p : Path) (text : String) : Except StorageFault FileTree :=
  match p.ending with
  | .step => do
    let place ← t.locate p
    match t.find? place with
    | some .directory => .error .isDirectory
    | _ => return t.assign place (.file text.toUTF8)
  | .slashed => do
    checkPath p
    t.enter (← t.follow (anchor p) p.steps.dropLast)
    .error .isDirectory
  | .idle => do
    let _ ← t.entry p
    .error .isDirectory

/-- Where a path leads if every step is taken to be a directory. -/
def placeOf (p : Path) : Place :=
  p.steps.foldl (fun place step => if step = ".." then above place else place ++ [step]) (anchor p)

/-- Puts an entry at a path together with the directories on the way. -/
def put (t : FileTree) (p : Path) (entry : FileEntry) : FileTree :=
  let place := placeOf p
  let parents := ((List.range place.length).map place.take).filter fun parent =>
    !isAnchor parent && (t.entries.lookup parent).isNone
  let made := parents.foldl (fun t parent => t.assign parent .directory) t
  if isAnchor place then made else made.assign place entry

/-- Removes what is at a path and all below it. -/
def remove (t : FileTree) (p : Path) : FileTree :=
  let place := placeOf p
  ⟨t.entries.filter fun entry => !place.isPrefixOf entry.1⟩

/-- The number of bytes in all files. -/
def volume (t : FileTree) : Nat :=
  t.entries.foldr
    (fun entry total =>
      match entry.2 with
      | .file content => content.size + total
      | .directory => total) 0

def storage : Storage (StateM FileTree) where
  has p := return (← get).has p
  isFile p := return (← get).isFile p
  read p := return (← get).read p
  write p text := do
    match (← get).write p text with
    | .ok t => do
      set t
      return .ok ()
    | .error fault => return .error fault

end FileTree

end ArtifactTree
