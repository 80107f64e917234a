import ArtifactTree.Proofs.Rendering.Drawn

/-!
# How records nest

The builder of records sees the events of a walk and no links. It opens a record for a node, closes it
when the node is left, and hands it to the record that is open then. In a tree, what is closed last is the
rendered tree once more (`Record.Mirrors`): below the record of a node stand the records of the children
that are shown, in order. So no record is lost or repeated (`Record.listing`), and none stands below
another one than that of the parent of its node (`Record.nesting`).

Main statement: `Record.nested_of_wellLinked`.
-/

namespace ArtifactTree

open ArtifactTree.Graph

/-! ## What a record says -/

/-- How a record tells a status: by a name of its kind, and by the reason if the node is omitted. -/
inductive Status.ToldAs : Status → String → Option String → Prop
  | unvisited : ToldAs .unvisited "unvisited" none
  | included : ToldAs .included "included" none
  | duplicate (of : Coordinate) :
    ToldAs (.omitted (.duplicate of)) "duplicate" (some "omitted for duplicate")
  | scopeConflict (winner : Scope) :
    ToldAs (.omitted (.scopeConflict winner)) "scope-conflict"
      (some ("omitted for conflict with " ++ winner.name))
  | versionConflict (winner : String) :
    ToldAs (.omitted (.versionConflict winner)) "version-conflict"
      (some ("omitted for conflict with " ++ winner))
  | cycle (of : Coordinate) :
    ToldAs (.omitted (.cycle of)) "cycle"
      (some ("omitted for introducing a cycle with " ++ of.text))
  | optional : ToldAs (.omitted .optional) "optional" (some "omitted due to optional dependency")
  | malformed : ToldAs (.omitted .malformed) "malformed" (some "omitted for malformed node")

/-- The facts are those of a node. -/
structure NodeFacts.Tells (facts : NodeFacts) (n : Node) : Prop where
  label : facts.label = n.label
  /-- The coordinate is told with the version in force. -/
  coordinate : ∀ c, facts.coordinate = some c ↔ ∃ declared version,
    n.coordinate = some declared ∧ n.effectiveVersion = some version ∧ c = { declared with version }
  scope : facts.scope = n.effectiveScope
  optional : facts.optional = n.optional
  /-- The declared version is told if another one is forced on a node with a coordinate. -/
  versionManagedFrom : ∀ version, facts.versionManagedFrom = some version ↔
    n.managedVersion.isSome ∧ ∃ c, n.coordinate = some c ∧ c.version = version
  /-- The declared scope is told if there is one and another one is forced. -/
  scopeManagedFrom : ∀ scope, facts.scopeManagedFrom = some scope ↔
    n.managedScope.isSome ∧ n.scope = some scope
  exclusions : facts.exclusions = n.exclusions
  status : n.status.ToldAs (Record.statusName facts.status) (Record.omissionText facts.status)

theorem Status.toldAs (status : Status) :
    status.ToldAs (Record.statusName status) (Record.omissionText status) := by
  cases status with
  | unvisited => exact .unvisited
  | included => exact .included
  | omitted reason => cases reason <;> constructor

theorem Node.tells_facts (n : Node) : n.facts.Tells n where
  label := rfl
  coordinate c := by
    cases hc : n.coordinate with
    | none => simp [facts, hc]
    | some declared => cases hversion : n.managedVersion <;>
        simp [facts, hc, effectiveVersion, hversion, eq_comm]
  scope := rfl
  optional := rfl
  versionManagedFrom version := by
    cases hversion : n.managedVersion <;> simp [facts, hversion]
  scopeManagedFrom scope := by
    cases hscope : n.managedScope <;> simp [facts, hscope]
  exclusions := rfl
  status := n.status.toldAs

namespace Record

/-! ## The records of the nodes of a tree -/

/-- What a walk reads is all that its records depend on. -/
theorem ofWalk_congr {g : Graph} {limit limit' : Nat} {visit : Visit}
    (h : g.walkWithin limit visit = g.walkWithin limit' visit) :
    ofWalk g limit visit = ofWalk g limit' visit := by
  -- below an open record, the builder hands on what `ofWalk` says
  have hbuilt := handsOn g limit visit (g.node root).facts [] [] none
  rw [h, handsOn g limit'] at hbuilt
  simpa using hbuilt.symm

/-- The records that the walk through a node hands on. -/
def ofTour (g : Graph) (id : Nat) : List Record := ofWalk g g.size (g.visitOf id)

/-- In a tree, the walk through a node hands on one record, with those from below in it. -/
theorem ofTour_eq {g : Graph} (hg : g.WellLinked) (id : Nat) :
    ofTour g id = [node (g.node id).facts ((g.shownBelow id).flatMap (ofTour g))] := by
  obtain ⟨limit, hlimit⟩ := Nat.exists_eq_add_one.2 hg.size_pos
  have hbelow : (g.shownBelow id).flatMap (fun child => ofWalk g limit (g.visitOf child)) =
      (g.shownBelow id).flatMap (ofTour g) := by
    refine List.flatMap_congr fun child hchild => ofWalk_congr ?_
    obtain ⟨hlt, hsize⟩ := hg.lt_of_mem (mem_children_of_mem_shownBelow hchild)
    exact hg.walkWithin_of_le hsize (by omega) (by omega)
  rw [ofTour, hlimit, ofWalk, hg.visitsBelow_visitOf, List.flatMap_map, hbelow]
  rfl

/-! ## The members of an object -/

/-- The texts that the object of a record has, by key. A key without a text is not there. -/
def texts (facts : NodeFacts) : List (String × Option String) := [
  ("label", some facts.label),
  ("group", facts.coordinate.map (·.group)),
  ("name", facts.coordinate.map (·.name)),
  ("type", facts.coordinate.map (·.type)),
  ("version", facts.coordinate.map (·.version)),
  ("classifier", facts.coordinate.bind (·.classifier)),
  ("scope", facts.scope.map (·.name)),
  ("versionManagedFrom", facts.versionManagedFrom),
  ("scopeManagedFrom", facts.scopeManagedFrom.map (·.name)),
  ("status", some (statusName facts.status)),
  ("omission", omissionText facts.status)]

theorem textUnder?_append (key : String) (members others : List (String × Json)) :
    textUnder? key (.object (members ++ others)) =
      (textUnder? key (.object members)).or (textUnder? key (.object others)) :=
  List.findSome?_append

theorem textUnder?_member (key other : String) (value : Option String) :
    textUnder? key (.object (member other value)) = if other = key then value else none := by
  cases value with
  | none => simp [member, textUnder?]
  | some text => by_cases h : other = key <;> simp [member, textUnder?, h]

theorem textUnder?_toJson (facts : NodeFacts) (dependencies : List Record) :
    ∀ entry ∈ texts facts, textUnder? entry.1 (node facts dependencies).toJson = entry.2 := by
  have hcoordinate : ∀ key, textUnder? key (.object (facts.coordinate.elim [] coordinateMembers)) =
      facts.coordinate.bind fun c => textUnder? key (.object (coordinateMembers c)) := by
    intro key
    cases facts.coordinate <;> rfl
  have hoptional : ∀ key, textUnder? key
      (.object (if facts.optional then [("optional", Json.boolean true)] else [])) = none := by
    intro key
    split <;> rfl
  have hexclusions : ∀ key, textUnder? key (.object (exclusionMembers facts.exclusions)) = none := by
    intro key
    unfold exclusionMembers
    split <;> rfl
  have hdependencies : ∀ key,
      textUnder? key (.object [("dependencies", .list (toJsons dependencies))]) = none := fun _ => rfl
  simp only [toJson, factMembers, textUnder?_append, textUnder?_member, hcoordinate, hoptional,
    hexclusions, hdependencies, coordinateMembers, texts, List.forall_mem_cons]
  cases facts.coordinate <;> simp [textUnder?]

/-! ## Records and nodes -/

/-- The record is that of a node of the graph, its object has the texts of the record, and nested in it
are the records of the children that are shown, in order. -/
inductive Mirrors (g : Graph) : Nat → Record → Prop
  | node {id : Nat} {facts : NodeFacts} {dependencies : List Record}
    (tells : facts.Tells (g.node id))
    (written : ∀ entry ∈ texts facts,
      textUnder? entry.1 (Record.node facts dependencies).toJson = entry.2)
    (below : List.Forall₂ (Mirrors g) (g.shownBelow id) dependencies) :
    Mirrors g id (.node facts dependencies)

def facts : Record → NodeFacts
  | node facts _ => facts

mutual

/-- What the records nested in a record say, each with what the record right around it says, in order. -/
def nesting : Record → List (NodeFacts × NodeFacts)
  | node facts dependencies => nestings facts dependencies

def nestings (outer : NodeFacts) : List Record → List (NodeFacts × NodeFacts)
  | [] => []
  | record :: records => (outer, record.facts) :: nesting record ++ nestings outer records

end

/-- What the node at `id` says, with what its parent says. -/
def link? (g : Graph) (id : Nat) : Option (NodeFacts × NodeFacts) :=
  (g.node id).parent.map fun parent => ((g.node parent).facts, (g.node id).facts)

/-- The record of a node: it mirrors the node, and what is nested in it hangs together as the nodes do
that the walk shows below. -/
structure OfNode (g : Graph) (id : Nat) (record : Record) : Prop where
  mirrors : Mirrors g id record
  facts : record.facts = (g.node id).facts
  nesting : record.nesting =
    ((g.shownBelow id).flatMap fun child => shownBy (g.tour child)).filterMap (link? g)

/-- The records of some children of a node, one after the other. -/
theorem ofTours_children {g : Graph} (hg : g.WellLinked) {id : Nat} {ids : List Nat}
    (hids : ∀ child ∈ ids, child ∈ g.children id)
    (h : ∀ child ∈ ids, ∃ record, ofTour g child = [record] ∧ OfNode g child record) :
    List.Forall₂ (Mirrors g) ids (ids.flatMap (ofTour g)) ∧
      nestings (g.node id).facts (ids.flatMap (ofTour g)) =
        (ids.flatMap fun child => shownBy (g.tour child)).filterMap (link? g) := by
  induction ids with
  | nil => exact ⟨.nil, rfl⟩
  | cons child ids ih =>
    obtain ⟨hchild, hids⟩ := List.forall_mem_cons.1 hids
    obtain ⟨⟨record, hrecord, hnode⟩, h⟩ := List.forall_mem_cons.1 h
    obtain ⟨hmirrors, hnesting⟩ := ih hids h
    have hlink : link? g child = some ((g.node id).facts, (g.node child).facts) := by
      rw [link?, hg.parent_of_mem hchild, Option.map_some]
    simp only [List.flatMap_cons, hrecord, List.singleton_append]
    refine ⟨.cons hnode.mirrors hmirrors, ?_⟩
    rw [nestings, hnode.facts, hnode.nesting, hnesting, List.filterMap_append,
      hg.shownBy_tour_eq (hg.lt_of_mem hchild).2, List.filterMap_cons_some hlink]

theorem exists_ofNode {g : Graph} (hg : g.WellLinked) {id : Nat} (hid : id < g.size) :
    ∃ record, ofTour g id = [record] ∧ OfNode g id record := by
  induction id, hid using hg.below_induction with
  | node id hid ih =>
    have hmem : ∀ child ∈ g.shownBelow id, child ∈ g.children id :=
      fun _ => mem_children_of_mem_shownBelow
    obtain ⟨hmirrors, hnesting⟩ :=
      ofTours_children hg hmem fun child hchild => ih child (hmem child hchild)
    refine ⟨_, ofTour_eq hg id, ?_, rfl, ?_⟩
    · exact .node (g.node id).tells_facts (textUnder?_toJson _ _) hmirrors
    · rw [nesting, hnesting]

/-! ## Main statement -/

/-- The record is what comes of the walk through a graph. -/
structure Nested (g : Graph) (record : Record) : Prop where
  /-- All that the walk opens is closed in the end, and the record was closed last. -/
  built : g.walk.foldl (Builder.follow g) {} = ⟨[], some record⟩
  mirrors : Mirrors g root record
  /-- There is a record for each node that the walk shows, and for none a second one. -/
  listing : record.listing = (shownBy g.walk).map fun id => (g.node id).facts
  nodup : (shownBy g.walk).Nodup
  /-- Each nested record stands in that of the parent of its node. -/
  nesting : record.nesting = (shownBy g.walk).filterMap (link? g)
  /-- The record is what is written. -/
  written : Json.read? (Render.json g) = some record.toJson

/-- **The nested records are the rendered tree**, for every graph of which the links describe a tree,
whether it is mediated or not. -/
theorem nested_of_wellLinked {g : Graph} (hg : g.WellLinked) : ∃ record, Nested g record := by
  have hroot : root < g.size := hg.size_pos
  obtain ⟨limit, hlimit⟩ := Nat.exists_eq_add_one.2 hg.size_pos
  obtain ⟨record, hrecord, hnode⟩ := exists_ofNode hg hroot
  rw [ofTour, hg.visitOf_root, hlimit] at hrecord
  have hbuilt : g.walk.foldl (Builder.follow g) {} = ⟨[], some record⟩ := by
    obtain rfl := List.singleton_inj.1 hrecord
    rw [Graph.walk, hlimit, (handsOn g limit).foldl_succ, Builder.follow]
    simp only [List.reverse_reverse]
  refine ⟨record, hbuilt, hnode.mirrors, ?_, hg.nodup_shownBy, ?_, ?_⟩
  · have hlisting := listings_ofWalk g (limit + 1) ⟨root, none, []⟩
    rw [hrecord, listings, listings, List.append_nil] at hlisting
    rw [hlisting, Graph.walk, hlimit]
  · have hlink : link? g root = none := by rw [link?, hg.parent_root, Option.map_none]
    rw [hnode.nesting, hg.walk_eq_tour, hg.shownBy_tour_eq hroot, List.filterMap_cons_none hlink]
  · rw [Render.json, ofGraph?, hbuilt]
    exact Json.read?_text _

/-- Management forced another version and another scope on `web`. Below it `log` lost a conflict, so the
walk does not go on to `core`, just as it does not go on below the node without a coordinate. -/
def managedBranch : Graph :=
  (ofRoot (requested "app")).changed [
    .addChild root { requested "web" with
      scope := some .compile
      exclusions := [⟨"org", "mock"⟩]
      managedVersion := some "2"
      managedScope := some .runtime
      status := .included },
    .addChild 1 { requested "log" with status := .omitted (.versionConflict "3") },
    .addChild 2 (requested "core"), .addChild 1 (requested "util"),
    .addChild root { managedVersion := some "2" }, .addChild 5 (requested "lost")]

theorem nested_managedBranch :
    managedBranch.WellLinked ∧ ∃ record, Nested managedBranch record ∧
      record.listing.map (·.label) =
        ["org:app:jar:1",
          "org:web:jar:2:runtime - version managed from 1; scope managed from compile",
          "(org:log:jar:1 - omitted for conflict with 3)", "org:util:jar:1", "(malformed node)"] ∧
      record.nesting.map (fun pair => (pair.1.versionManagedFrom, statusName pair.2.status)) =
        [(none, "included"), (some "1", "version-conflict"), (some "1", "unvisited"),
          (none, "unvisited")] := by
  have h : managedBranch.WellLinked :=
    (wellLinked_ofRoot (requested "app")).changed (by decide +kernel)
  obtain ⟨record, hrecord⟩ := nested_of_wellLinked h
  refine ⟨h, record, hrecord, ?_, ?_⟩
  · rw [hrecord.listing]
    decide +kernel
  · rw [hrecord.nesting]
    decide +kernel

end Record

end ArtifactTree
