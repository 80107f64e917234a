import ArtifactTree.Text.Segments

/-!
# Paths

A path is the text that names a file: steps between slashes, from the root of the file system if
the first character is a slash and from the working directory otherwise. Joining and taking the
directory part work on the text alone, so messages show paths as they were written.

These are the paths of Unix. No other character separates steps, and there are no drives.
-/

namespace ArtifactTree

structure Path where
  text : String
deriving DecidableEq

namespace Path

def isAbsolute (p : Path) : Bool := p.text.toList.head? = some '/'

/-- Goes on from `p` by `step`. An absolute step starts anew; otherwise one slash is put between
the two, unless `p` is empty or ends in a slash already. -/
def join (p : Path) (step : String) : Path :=
  if (Path.mk step).isAbsolute then ⟨step⟩
  else if p.text.isEmpty || p.text.toList.getLast? = some '/' then ⟨p.text ++ step⟩
  else ⟨p.text ++ "/" ++ step⟩

/-- Goes on from `p` by several steps. -/
def joinAll (p : Path) (steps : List String) : Path := steps.foldl join p

/-- Steps that stay where they are: the empty one and the single dot. -/
def isIdle (step : List Char) : Bool := step = [] || step = ['.']

/-- The steps without idle ones at the end. -/
def dropIdle (steps : List (List Char)) : List (List Char) :=
  (steps.reverse.dropWhile isIdle).reverse

/-- The part of the text that names where the path starts, and the rest of it. -/
def splitAnchor : List Char → List Char × List Char
  | '/' :: rest => (['/'], rest)
  | ['.'] => (['.'], [])
  | '.' :: '/' :: rest => (['.'], '/' :: rest)
  | text => ([], text)

/-- The directory part: the path without its last step, and without idle steps before it. -/
def directory (p : Path) : Path :=
  let (anchor, body) := splitAnchor p.text.toList
  let steps := dropIdle (Text.segments '/' body)
  ⟨.ofList (anchor ++ Text.joined '/' (dropIdle steps.dropLast))⟩

/-- The steps of a path, idle ones left out. -/
def steps (p : Path) : List String :=
  ((Text.segments '/' p.text.toList).filter fun step => !isIdle step).map .ofList

inductive Ending where
  /-- In a step that names something. -/
  | step
  /-- In slashes behind such a step. -/
  | slashed
  /-- In a single dot, with or without slashes behind it, or without any step. -/
  | idle
deriving DecidableEq

def ending (p : Path) : Ending :=
  let pieces := Text.segments '/' p.text.toList
  match pieces.reverse.find? (· != []) with
  | none => .idle
  | some last =>
    if last = ['.'] then .idle else if pieces.getLast? = some [] then .slashed else .step

/-- Whether the path can only name a directory, because something idle ends it. -/
def namesDirectory (p : Path) : Bool := p.ending != .step

example : (Path.mk "a").join "b" = ⟨"a/b"⟩ ∧ (Path.mk "").join "b" = ⟨"b"⟩ ∧
    (Path.mk "a/").join "b" = ⟨"a/b"⟩ ∧ (Path.mk "a").join "" = ⟨"a/"⟩ ∧
    (Path.mk "a").join "/b" = ⟨"/b"⟩ := by decide

example : (Path.mk "a.toml").directory = ⟨""⟩ ∧ (Path.mk "a//b/./c").directory = ⟨"a//b"⟩ ∧
    (Path.mk "./c").directory = ⟨"."⟩ ∧ (Path.mk "/c").directory = ⟨"/"⟩ := by decide

example : (Path.mk "a/b").ending = .step ∧ (Path.mk "a/..//").ending = .slashed ∧
    (Path.mk "a/.//").ending = .idle ∧ (Path.mk "//").ending = .idle := by decide

end Path

end ArtifactTree
