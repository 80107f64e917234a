import ArtifactTree.Json
import ArtifactTree.Render.Label
import ArtifactTree.Render.Walk

/-!
# Nested records

The record of a node holds its label, what is in force, what was declared otherwise, and the records
of its rendered children. Records are put together from the events of the walk: a node opens a
record, leaving it closes the record and hands it to the one that is open around it.
-/

namespace ArtifactTree

/-- What a record says about its node alone. -/
structure NodeFacts where
  label : String
  coordinate : Option Coordinate
  scope : Option Scope
  optional : Bool
  versionManagedFrom : Option String
  scopeManagedFrom : Option Scope
  exclusions : List Exclusion
  status : Status
deriving DecidableEq

/-- A node with the nodes rendered below it. -/
inductive Record where
  | node (facts : NodeFacts) (dependencies : List Record)

def Node.facts (n : Node) : NodeFacts where
  label := n.label
  coordinate := n.coordinate.map fun c => { c with version := n.managedVersion.getD c.version }
  scope := n.effectiveScope
  optional := n.optional
  versionManagedFrom := n.managedVersion.bind fun _ => n.coordinate.map (·.version)
  scopeManagedFrom := n.managedScope.bind fun _ => n.scope
  exclusions := n.exclusions
  status := n.status

namespace Record

/-- Records under construction: the open ones, the innermost first, each with its children so far in
reverse, and the record that was closed last with none open around it. -/
structure Builder where
  opened : List (NodeFacts × List Record) := []
  finished : Option Record := none

def Builder.follow (g : Graph) (b : Builder) : Event → Builder
  | .node visit => { b with opened := ((g.node visit.id).facts, []) :: b.opened }
  | .edge _ _ => b
  | .leave _ =>
    match b.opened with
    | [] => b
    | [(facts, children)] => { opened := [], finished := some (node facts children.reverse) }
    | (facts, children) :: (outer, siblings) :: opened =>
      { b with opened := (outer, node facts children.reverse :: siblings) :: opened }

/-- The record of the root of a graph. -/
def ofGraph? (g : Graph) : Option Record := (g.walk.foldl (Builder.follow g) {}).finished

def statusName : Status → String
  | .unvisited => "unvisited"
  | .included => "included"
  | .omitted (.duplicate _) => "duplicate"
  | .omitted (.scopeConflict _) => "scope-conflict"
  | .omitted (.versionConflict _) => "version-conflict"
  | .omitted (.cycle _) => "cycle"
  | .omitted .optional => "optional"
  | .omitted .malformed => "malformed"

def omissionText : Status → Option String
  | .omitted reason => some reason.text
  | _ => none

/-- A member that is there if its value is. -/
def member (key : String) (value : Option String) : List (String × Json) :=
  value.toList.map fun text => (key, .string text)

def coordinateMembers (c : Coordinate) : List (String × Json) :=
  [("group", .string c.group), ("name", .string c.name), ("type", .string c.type),
    ("version", .string c.version)] ++ member "classifier" c.classifier

/-- The list of exclusions, as a member only if there are any. -/
def exclusionMembers (exclusions : List Exclusion) : List (String × Json) :=
  if exclusions.isEmpty then []
  else
    [("exclusions", .list (exclusions.map fun e =>
      .object [("group", .string e.group), ("name", .string e.name)]))]

def factMembers (facts : NodeFacts) : List (String × Json) :=
  [("label", .string facts.label)] ++
    facts.coordinate.elim [] coordinateMembers ++
    member "scope" (facts.scope.map (·.name)) ++
    (if facts.optional then [("optional", .boolean true)] else []) ++
    member "versionManagedFrom" facts.versionManagedFrom ++
    member "scopeManagedFrom" (facts.scopeManagedFrom.map (·.name)) ++
    exclusionMembers facts.exclusions ++
    [("status", .string (statusName facts.status))] ++
    member "omission" (omissionText facts.status)

mutual

def toJson : Record → Json
  | node facts dependencies =>
    .object (factMembers facts ++ [("dependencies", .list (toJsons dependencies))])

def toJsons : List Record → List Json
  | [] => []
  | record :: records => toJson record :: toJsons records

end

end Record

/-- The graph as a JSON text of nested records. -/
def Render.json (g : Graph) : String :=
  match Record.ofGraph? g with
  | some record => record.toJson.text
  | none => ""

end ArtifactTree
