import ArtifactTree.Proofs.Mediation.Winners

/-!
# Mediation by values, level by level

`Reference.status` decides about the nodes of a graph in another way than mediation does. It has no
queue but visits one level after another, it keeps no tables but looks at the included nodes
themselves, and it compares the parts of coordinates instead of keys.

This module compares single verdicts. If no text has a colon and the project has no classifier, keys
can be read back (`Legible`), and against the same included nodes both decide the same
(`Legible.status_eq_judge`). The one point that is not immediate is the scope that a scope conflict
names: mediation takes the first in the order of scopes, the reference the first in the order of
nodes. They are one, because an artifact has at most one included node with a scope.
-/

namespace ArtifactTree

/-- All that names the artifact of the node apart from its version. -/
def Node.artifact (n : Node) : Option (String × String × String × Option String) :=
  n.coordinate.map (·.artifact)

/-- No part of the coordinate has a colon, and neither has the managed version. -/
structure Node.KeysColonFree (n : Node) : Prop where
  coordinate : ∀ c ∈ n.coordinate, c.PartsColonFree
  managedVersion : ∀ version ∈ n.managedVersion, ColonFree version

open ArtifactTree.Graph Mediation

/-! ## The reference -/

namespace Reference

/-- The winners that a node has its artifact in common with. -/
def rivals (winners : List Node) (n : Node) : List Node :=
  winners.filter fun w => w.artifact = n.artifact

/-- Those of them that also have its version. -/
def twins (winners : List Node) (n : Node) : List Node :=
  (rivals winners n).filter fun w => w.effectiveVersion = n.effectiveVersion

/-- What a node gets against the nodes that were included before it, the first one first. -/
def judge (winners : List Node) (n : Node) : Status :=
  match n.coordinate with
  | none => .omitted .malformed
  | some c =>
    if (twins winners n).any fun w => w.effectiveScope = n.effectiveScope then
      .omitted (.duplicate c)
    else
      match (twins winners n).findSome? (·.effectiveScope) with
      | some scope => .omitted (.scopeConflict scope)
      | none =>
        let version := (rivals winners n).head?.bind (·.effectiveVersion)
        match version.filter (some · ≠ n.effectiveVersion) with
        | some version => .omitted (.versionConflict version)
        | none => if n.optional then .omitted .optional else .included

/-- What a node gets after others were visited. The marker of an included node is not judged. -/
def verdict (g : Graph) (visited : Trace) (id : Nat) : Status :=
  let n := g.node id
  if n.cycleOf.any fun target => target ∈ visited.included then
    match n.coordinate with
    | none => .omitted .malformed
    | some c => if n.optional then .omitted .optional else .omitted (.cycle c)
  else judge (visited.included.map g.node) n

/-- Visits the nodes of a level in order. -/
def visitLevel (g : Graph) (visited : Trace) : List Nat → Trace
  | [] => []
  | id :: level =>
    let entry := (id, verdict g visited id)
    entry :: visitLevel g (visited ++ [entry]) level

/-- Visits a level and those below it. What is below a level are the children of the nodes that were
included there. -/
def visitLevels (g : Graph) : (depth : Nat) → Trace → List Nat → Trace
  | 0, visited, _ => visited
  | depth + 1, visited, level =>
    let entries := visitLevel g visited level
    visitLevels g depth (visited ++ entries) (entries.included.flatMap g.children)

/-- The status of a node, if all levels are visited from the root on. -/
def status (g : Graph) (id : Nat) : Status :=
  ((visitLevels g g.size [] [root]).lookup id).getD .unvisited

end Reference

namespace Reference

theorem mem_rivals {g : Graph} {ids : List Nat} {n w : Node} :
    w ∈ rivals (ids.map g.node) n ↔ ∃ id ∈ ids, g.node id = w ∧ w.artifact = n.artifact := by
  rw [rivals, List.mem_filter, List.mem_map, decide_eq_true_iff]
  constructor
  · rintro ⟨⟨id, hid, hw⟩, hartifact⟩
    exact ⟨id, hid, hw, hartifact⟩
  · rintro ⟨id, hid, hw, hartifact⟩
    exact ⟨⟨id, hid, hw⟩, hartifact⟩

theorem mem_twins {winners : List Node} {n w : Node} :
    w ∈ twins winners n ↔ w ∈ rivals winners n ∧ w.effectiveVersion = n.effectiveVersion := by
  rw [twins, List.mem_filter, decide_eq_true_iff]

/-- The first node is judged without looking at others. -/
theorem verdict_empty (n : Node) : ({} : Winners).verdict n = judge [] n := by
  unfold Winners.verdict Winners.omission? judge
  cases n.coordinate with
  | none => rfl
  | some c =>
    have hscope : ({} : Winners).otherScope? c (n.managedVersion.getD c.version)
        n.effectiveScope = none := by
      unfold Winners.otherScope?
      cases n.effectiveScope <;> simp
    simp only [hscope]
    cases n.optional <;> rfl

end Reference

/-! ## Keys that can be read back -/

/-- The coordinate and the version of a node, without colons. -/
structure Node.Keyed (n : Node) (c : Coordinate) (version : String) : Prop where
  coordinate : n.coordinate = some c
  effectiveVersion : n.effectiveVersion = some version
  parts : c.PartsColonFree
  version_free : ColonFree version

theorem Node.Keyed.artifact {n : Node} {c : Coordinate} {version : String}
    (h : n.Keyed c version) : n.artifact = some c.artifact := by
  rw [Node.artifact, h.coordinate, Option.map_some]

namespace Mediation

/-- An outcome without colons in its texts, of a project without a classifier. -/
structure Legible (g : Graph) (project : Coordinate) (trace : Trace) : Prop
    extends Outcome g project trace where
  colonFree : ∀ id, (g.node id).KeysColonFree
  classifier : project.classifier = none

namespace Legible

variable {g : Graph} {project : Coordinate} {trace : Trace} (h : Legible g project trace)
include h

theorem exists_keyed {id : Nat} (hid : id ∈ trace.ids) : ∃ c version, (g.node id).Keyed c version := by
  obtain ⟨c, hc⟩ := h.unfolding.coordinate (h.lt_size hid)
  have hparts := (h.colonFree id).coordinate c hc
  refine ⟨c, _, hc, Node.effectiveVersion_of_coordinate hc, hparts, ?_⟩
  cases hmanaged : (g.node id).managedVersion with
  | none => exact hparts.version
  | some version => exact (h.colonFree id).managedVersion version hmanaged

theorem artifactKey_iff {id : Nat} (hid : id ∈ trace.ids) {c : Coordinate}
    (hc : c.PartsColonFree) :
    (g.node id).artifactKey = some c.artifactKey ↔ (g.node id).artifact = some c.artifact := by
  obtain ⟨d, _, hd⟩ := h.exists_keyed hid
  rw [Node.artifactKey_of_coordinate hd.coordinate, hd.artifact, Option.some.injEq,
    Option.some.injEq, Coordinate.artifactKey_eq_iff hd.parts hc]

/-- A full key with a scope is that of the nodes with this artifact, version and scope. -/
theorem fullKey_iff {id : Nat} (hid : id ∈ trace.ids) {n : Node} {c : Coordinate}
    {version : String} (hn : n.Keyed c version) (scope : Scope) :
    (g.node id).fullKey = some (c.fullKey version (some scope)) ↔
      (g.node id).artifact = n.artifact ∧ (g.node id).effectiveVersion = n.effectiveVersion ∧
        (g.node id).effectiveScope = some scope := by
  obtain ⟨d, own, hd⟩ := h.exists_keyed hid
  rw [Node.fullKey_of_coordinate hd.coordinate hd.effectiveVersion, hd.artifact, hn.artifact, hd.effectiveVersion,
    hn.effectiveVersion, Option.some.injEq, Option.some.injEq, Option.some.injEq]
  by_cases hroot : id = root
  · -- the root has no scope, and its key is too short for one
    have hproject : d = project := by
      have hcoordinate := hd.coordinate
      rw [hroot, h.unfolding.coordinate_root] at hcoordinate
      exact (Option.some.inj hcoordinate).symm
    rw [hroot, h.scope_root]
    constructor
    · intro heq
      refine absurd heq.symm (Coordinate.fullKey_ne_of_classifier_eq_none hn.parts hd.parts
        hn.version_free hd.version_free ?_ scope)
      rw [hproject, h.classifier]
    · rintro ⟨-, -, hscope⟩
      cases hscope
  · obtain ⟨other, hother⟩ := h.exists_effectiveScope hid hroot
    rw [hother, Coordinate.fullKey_some_eq_iff hd.parts hn.parts hd.version_free hn.version_free,
      Option.some.injEq]

/-! ## Judging by values -/

section Judge

variable {before : Trace} (hbefore : before <+: trace) {n : Node} {c : Coordinate}
  {version : String} (hn : n.Keyed c version)

include hbefore

omit h in
theorem mem_ids_of_mem_before {w : Nat} (hw : w ∈ before.included) : w ∈ trace.ids :=
  (hbefore.map _).subset ((Trace.included_sublist before).subset hw)

include hn

theorem lookup_versions_eq :
    (before.winners g).versions.lookup c.artifactKey =
      (Reference.rivals (before.included.map g.node) n).head?.bind (·.effectiveVersion) := by
  have hsame : before.included.filter (fun w => (g.node w).artifactKey = some c.artifactKey) =
      before.included.filter ((fun w : Node => w.artifact = n.artifact) ∘ g.node) := by
    apply List.filter_congr
    intro w hw
    rw [Function.comp_apply, hn.artifact]
    exact decide_eq_decide.2 (h.artifactKey_iff (mem_ids_of_mem_before hbefore hw) hn.parts)
  rw [Trace.lookup_versions_winners, ← List.head?_filter, hsame, Reference.rivals,
    List.filter_map, List.head?_map, Option.bind_map]
  rfl

theorem otherVersion?_eq :
    (before.winners g).otherVersion? c version =
      ((Reference.rivals (before.included.map g.node) n).head?.bind
        (·.effectiveVersion)).filter (some · ≠ n.effectiveVersion) := by
  rw [Winners.otherVersion?, h.lookup_versions_eq hbefore hn, hn.effectiveVersion]
  congr 1
  funext other
  by_cases hsame : other = version <;> simp [hsame]

/-- The nodes with a full key of a node, under any scope, are its twins with that scope. -/
theorem mem_keys_iff (scope : Scope) :
    c.fullKey version (some scope) ∈ (before.winners g).keys ↔
      ∃ w ∈ Reference.twins (before.included.map g.node) n, w.effectiveScope = some scope := by
  rw [Trace.mem_keys_winners]
  constructor
  · rintro ⟨w, hw, hkey⟩
    have hid := mem_ids_of_mem_before hbefore hw
    obtain ⟨hartifact, hversion, hscope⟩ := (h.fullKey_iff hid hn scope).1 hkey
    have hrival := Reference.mem_rivals.2 ⟨w, hw, rfl, hartifact⟩
    exact ⟨g.node w, Reference.mem_twins.2 ⟨hrival, hversion⟩, hscope⟩
  · rintro ⟨_, hmem, hscope⟩
    obtain ⟨hrival, hversion⟩ := Reference.mem_twins.1 hmem
    obtain ⟨w, hw, rfl, hartifact⟩ := Reference.mem_rivals.1 hrival
    have hid := mem_ids_of_mem_before hbefore hw
    exact ⟨w, hw, (h.fullKey_iff hid hn scope).2 ⟨hartifact, hversion, hscope⟩⟩

/-- A node has at most one twin with a scope. -/
theorem scope_unique {w w' : Node} (hw : w ∈ Reference.twins (before.included.map g.node) n)
    (hw' : w' ∈ Reference.twins (before.included.map g.node) n) {scope scope' : Scope}
    (hscope : w.effectiveScope = some scope) (hscope' : w'.effectiveScope = some scope') :
    scope = scope' := by
  obtain ⟨a, ha, rfl, hartifact⟩ := Reference.mem_rivals.1 (Reference.mem_twins.1 hw).1
  obtain ⟨b, hb, rfl, hartifact'⟩ := Reference.mem_rivals.1 (Reference.mem_twins.1 hw').1
  rw [hn.artifact] at hartifact hartifact'
  have hkey := (h.artifactKey_iff (mem_ids_of_mem_before hbefore ha) hn.parts).2 hartifact
  have hkey' := (h.artifactKey_iff (mem_ids_of_mem_before hbefore hb) hn.parts).2 hartifact'
  obtain ⟨after, rfl⟩ := hbefore
  rw [h.judged.of_append.eq_of_included ha hb hkey hkey' hscope hscope', hscope'] at hscope
  exact (Option.some.inj hscope).symm

/-- Without a duplicate, the first other scope is the scope of a twin. -/
theorem otherScope?_eq {own : Scope} (hown : n.effectiveScope = some own)
    (hkey : c.fullKey version (some own) ∉ (before.winners g).keys) :
    (before.winners g).otherScope? c version n.effectiveScope =
      (Reference.twins (before.included.map g.node) n).findSome? (·.effectiveScope) := by
  cases hother : (before.winners g).otherScope? c version n.effectiveScope with
  | some winner =>
    have hmem := (Winners.otherScope?_eq_some hother).2
    obtain ⟨w, hw, hscope⟩ := (h.mem_keys_iff hbefore hn winner).1 hmem
    cases hfind : (Reference.twins (before.included.map g.node) n).findSome? (·.effectiveScope) with
    | none =>
      rw [List.findSome?_eq_none_iff.1 hfind w hw] at hscope
      cases hscope
    | some scope =>
      obtain ⟨w', hw', hscope'⟩ := List.exists_of_findSome?_eq_some hfind
      rw [h.scope_unique hbefore hn hw hw' hscope hscope']
  | none =>
    symm
    rw [List.findSome?_eq_none_iff]
    intro w hw
    rw [hown] at hother
    cases hscope : w.effectiveScope with
    | none => rfl
    | some scope =>
      have hmem := (h.mem_keys_iff hbefore hn scope).2 ⟨w, hw, hscope⟩
      by_cases hsame : scope = own
      · exact absurd (hsame ▸ hmem) hkey
      · exact absurd hmem (Winners.otherScope?_eq_none hother hsame)

theorem any_twins_iff {own : Scope} (hown : n.effectiveScope = some own) :
    ((Reference.twins (before.included.map g.node) n).any
      fun w => w.effectiveScope = n.effectiveScope) = true ↔
        c.fullKey version n.effectiveScope ∈ (before.winners g).keys := by
  rw [hown, h.mem_keys_iff hbefore hn own, List.any_eq_true]
  simp only [decide_eq_true_iff]

/-- Keys and values lead to the same verdict. -/
theorem verdict_eq_judge {own : Scope} (hown : n.effectiveScope = some own) :
    (before.winners g).verdict n = Reference.judge (before.included.map g.node) n := by
  have hany := h.any_twins_iff hbefore hn hown
  have hmanaged : n.managedVersion.getD c.version = version := by
    have hversion := hn.effectiveVersion
    rw [Node.effectiveVersion_of_coordinate hn.coordinate, Option.some.injEq] at hversion
    exact hversion
  unfold Winners.verdict Winners.omission? Reference.judge
  rw [hn.coordinate]
  dsimp only
  rw [hmanaged]
  by_cases hkey : c.fullKey version n.effectiveScope ∈ (before.winners g).keys
  · rw [if_pos (List.contains_iff_mem.2 hkey), if_pos (hany.2 hkey)]
  · have hscope := h.otherScope?_eq hbefore hn hown (hown ▸ hkey)
    have hother := h.otherVersion?_eq hbefore hn
    rw [if_neg fun hmem => hkey (List.contains_iff_mem.1 hmem), if_neg fun h => hkey (hany.1 h),
      ← hscope, ← hother]
    cases (before.winners g).otherScope? c version n.effectiveScope with
    | some winner => rfl
    | none =>
      cases (before.winners g).otherVersion? c version with
      | some winner => rfl
      | none => cases n.optional <;> rfl

end Judge

/-- Every verdict of mediation is that of the reference against the same included nodes. -/
theorem status_eq_judge {before after : Trace} {id : Nat} {status : Status}
    (htrace : before ++ (id, status) :: after = trace) :
    status = Reference.judge (before.included.map g.node) (g.node id) := by
  have hjudged := h.judged
  rw [← htrace] at hjudged
  rw [hjudged.verdict]
  by_cases hroot : id = root
  · subst hroot
    rw [h.eq_nil_of_root htrace]
    exact Reference.verdict_empty (g.node root)
  · have hid : id ∈ trace.ids := by
      rw [← htrace]
      exact Trace.mem_ids.2 ⟨status, by simp⟩
    obtain ⟨own, hown⟩ := h.exists_effectiveScope hid hroot
    obtain ⟨c, version, hn⟩ := h.exists_keyed hid
    exact h.verdict_eq_judge ⟨_, htrace⟩ hn hown

end Legible

end Mediation

end ArtifactTree
