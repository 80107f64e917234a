import ArtifactTree.Scope

/-!
# Coordinates and declarations

A `Coordinate` names an artifact. Its parts joined by colons give three texts: the *artifact key*
(no version), which management and version conflicts go by; the *full key* (with a version and a
scope), which duplicates go by; and the plain text, which messages and paths show.

A `Declaration` is one request for an artifact. Its exclusions are recorded and never applied.
-/

namespace ArtifactTree

/-- The identity of an artifact. An absent classifier and an empty one are different. -/
structure Coordinate where
  group : String
  name : String
  type : String
  version : String
  classifier : Option String := none
deriving DecidableEq

namespace Coordinate

/-- The type of an artifact that names none. -/
def defaultType : String := "jar"

/-- `group:name:type[:classifier]`: all that names the artifact apart from its version. -/
def artifactKey (c : Coordinate) : String :=
  let key := c.group ++ ":" ++ c.name ++ ":" ++ c.type
  match c.classifier with
  | none => key
  | some classifier => key ++ ":" ++ classifier

/-- `group:name:type[:classifier]:version[:scope]`, with the version and scope in force. -/
def fullKey (c : Coordinate) (version : String) (scope : Option Scope) : String :=
  let key := c.artifactKey ++ ":" ++ version
  match scope with
  | none => key
  | some scope => key ++ ":" ++ scope.name

/-- `group:name:type[:classifier]:version`, the coordinate as messages show it. -/
def text (c : Coordinate) : String := c.artifactKey ++ ":" ++ c.version

end Coordinate

/-- A `group:name` pair that a declaration asks to leave out. -/
structure Exclusion where
  group : String
  name : String
deriving DecidableEq

namespace Exclusion

/-- The characters before and after the first colon, if there is one. -/
def splitColon : List Char → Option (List Char × List Char)
  | [] => none
  | c :: rest =>
    if c = ':' then some ([], rest)
    else (splitColon rest).map fun (before, after) => (c :: before, after)

/-- Reads `group:name`, cut at the first colon; both sides must be there. -/
def ofText? (text : String) : Option Exclusion :=
  match splitColon text.toList with
  | some (group, name) =>
    if group.isEmpty || name.isEmpty then none else some ⟨.ofList group, .ofList name⟩
  | none => none

def text (e : Exclusion) : String := e.group ++ ":" ++ e.name

end Exclusion

/-- One request for an artifact, as a project or a descriptor states it. -/
structure Declaration where
  coordinate : Coordinate
  scope : Scope := .compile
  optional : Bool := false
  exclusions : List Exclusion := []
deriving DecidableEq

end ArtifactTree
