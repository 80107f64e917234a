import ArtifactTree.Proofs.Rendering.Columns
import ArtifactTree.Proofs.Rendering.Formats

/-!
# Nodes known by their labels

A Graphviz text has no ids: a node is what its quoted label says. That is enough for all that has
something below it. The key of an included node is not that of another one, because mediation omits a
node with the key of an included one (`Judged.eq_of_fullKey`), and it is read off the label, where it
ends at the first blank. The label of an omitted node starts with a parenthesis, which no key does. So
two nodes that are drawn as one are omitted, and nothing hangs below them.

Main statement: `identifies_of_analyze`.
-/

namespace ArtifactTree

open ArtifactTree.Graph Mediation Validation

/-! ## Keys of included nodes -/

/-- Two included nodes with the same key are one. -/
theorem Mediation.Judged.eq_of_fullKey {g : Graph} {trace : Trace} (h : Judged g trace) {a b : Nat}
    (ha : a ∈ trace.included) (hb : b ∈ trace.included) {key : String}
    (hkey : (g.node a).fullKey = some key) (hkey' : (g.node b).fullKey = some key) : a = b := by
  induction h with
  | nil => cases ha
  | @snoc trace id before ih =>
    rcases (trace.winners g).verdict_cases (g.node id) with hverdict | ⟨omission, hverdict⟩
    · -- the key of a node that is included is new
      have hnew : ∀ w ∈ trace.included, (g.node w).fullKey ≠ (g.node id).fullKey := by
        intro w hw heq
        obtain ⟨c, version, hunopposed⟩ := Winners.exists_unopposed hverdict
        rw [Node.fullKey_of_coordinate hunopposed.hc hunopposed.hversion] at heq
        exact hunopposed.hkey (Trace.mem_keys_winners.2 ⟨w, hw, heq⟩)
      rw [hverdict, Trace.included_snoc_included, List.mem_append, List.mem_singleton] at ha hb
      rcases ha with ha | rfl <;> rcases hb with hb | rfl
      · exact ih ha hb
      · exact absurd (hkey.trans hkey'.symm) (hnew a ha)
      · exact absurd (hkey'.trans hkey.symm) (hnew b hb)
      · rfl
    · rw [hverdict, Trace.included_snoc_omitted] at ha hb
      exact ih ha hb

/-! ## Keys in labels -/

namespace Node

variable {n : Node}

/-- The label of an omitted node is in parentheses. -/
theorem exists_label_of_isOmitted (h : n.isOmitted) : ∃ rest, n.label.toList = '(' :: rest := by
  have hopen : ∀ text : String, ∃ rest, ("(" ++ text).toList = '(' :: rest := fun text =>
    ⟨text.toList, by rw [String.toList_append]; rfl⟩
  cases hkey : n.fullKey with
  | none =>
    rw [label, hkey]
    exact hopen "malformed node)"
  | some key =>
    rw [label_eq_of_fullKey hkey, if_pos h, String.append_assoc]
    exact hopen _

namespace Valid

variable (hn : n.Valid) {key : String} (hkey : n.fullKey = some key)
include hn hkey

theorem noBlank_of_fullKey : NoBlank key := by
  obtain ⟨c, hc, rfl⟩ := Option.map_eq_some_iff.1 hkey
  exact (hn.coordinate c hc).noBlank_fullKey
    (hn.isVersion_of_effectiveVersion (effectiveVersion_of_coordinate hc)) n.effectiveScope

/-- The key is what stands in the label before the first blank. -/
theorem takeWhile_label (h : ¬ n.isOmitted) : n.label.toList.takeWhile (· ≠ ' ') = key.toList := by
  have hblank := (hn.noBlank_of_fullKey hkey).space_not_mem
  rw [label_eq_of_fullKey hkey, if_neg h, String.append_assoc, String.toList_append]
  exact (Text.span_word hblank n.tail_cases).1

/-- The label starts with the group, so not with a parenthesis. -/
theorem label_ne_of_isOmitted (h : ¬ n.isOmitted) {other : Node} (hother : other.isOmitted) :
    other.label ≠ n.label := by
  intro heq
  obtain ⟨rest, hopen⟩ := exists_label_of_isOmitted hother
  have hkept := hn.takeWhile_label hkey h
  obtain ⟨c, hc, rfl⟩ := Option.map_eq_some_iff.1 hkey
  obtain ⟨first, key, hkey, hfirst⟩ := (hn.coordinate c hc).named.exists_cons_fullKey
    (n.managedVersion.getD c.version) n.effectiveScope
  rw [← heq, hopen, hkey] at hkept
  obtain rfl : '(' = first := (List.cons.inj hkept).1
  exact absurd hfirst (by decide)

end Valid

end Node

/-! ## Edges of a walk -/

namespace Graph

variable {g : Graph}

/-- The edges of a walk lead to the nodes that are shown, each from its parent. -/
theorem WellLinked.shownEdges_eq (hg : g.WellLinked) :
    g.shownEdges = (shownBy g.walk).filterMap fun id =>
      (g.node id).parent.map fun parent => ((g.node parent).label, (g.node id).label) := by
  rw [shownEdges, edgesOf, hg.filterMap_walk fun _ => rfl, List.filterMap_eq_flatMap_toList]
  refine List.flatMap_congr fun id _ => ?_
  cases h : (g.node id).parent <;> simp [arrival, h, edge?, List.filterMap_cons]

/-- The parent of a node that is shown is shown and not omitted. -/
theorem WellLinked.shown_and_kept_of_parent (hg : g.WellLinked) {child parent : Nat}
    (hchild : child ∈ shownBy g.walk) (hparent : (g.node child).parent = some parent) :
    parent ∈ shownBy g.walk ∧ ¬ (g.node parent).isOmitted := by
  obtain ⟨hshown, hentered, -⟩ := hg.shown_parent (hg.mem_shownBy_walk_iff.1 hchild) hparent
  exact ⟨hg.mem_shownBy_walk_iff.2 hshown, (entered_iff.1 hentered).2⟩

/-- A node that is shown and not omitted is included. -/
theorem Mediated.included_of_mem_shownBy (hg : g.Mediated) (hpreorder : g.preorder = List.range g.size)
    {id : Nat} (hid : id ∈ shownBy g.walk) (hkept : ¬ (g.node id).isOmitted) :
    (g.node id).status = .included := by
  have hvisited := ((hg.mem_shownBy_walk_iff hpreorder).1 hid).1
  cases hstatus : (g.node id).status with
  | unvisited => exact absurd hstatus hvisited
  | included => rfl
  | omitted omission => simp [Node.isOmitted, Node.omission, hstatus] at hkept

end Graph

/-! ## Nodes of a Graphviz text -/

namespace Dot

/-- What stands for a node. -/
def quoted (g : Graph) (id : Nat) : String := Render.dotQuoted (g.node id).label

/-- The Graphviz text tells the nodes of the rendered tree apart as far as something is below them. -/
structure Identifies (g : Graph) : Prop where
  kept_ne : ∀ a ∈ shownBy g.walk, ∀ b ∈ shownBy g.walk, a ≠ b →
    ¬ (g.node a).isOmitted → ¬ (g.node b).isOmitted → quoted g a ≠ quoted g b
  omitted_ne : ∀ a < g.size, ∀ b < g.size, (g.node a).isOmitted → ¬ (g.node b).isOmitted →
    quoted g a ≠ quoted g b
  /-- What an edge of the text starts from stands for one node of the drawing. -/
  source : ∀ edge ∈ read (Render.dot g),
    ∃! id, id ∈ shownBy g.walk ∧ quoted g id = Render.dotQuoted edge.1
  /-- Two nodes that are drawn as one are omitted and have nothing below them. -/
  merged : ∀ a ∈ shownBy g.walk, ∀ b ∈ shownBy g.walk, a ≠ b → quoted g a = quoted g b →
    (g.node a).isOmitted ∧ ∀ child ∈ shownBy g.walk, (g.node child).parent ≠ some a
  /-- A quoted text is read back, whatever follows it. -/
  unquote_eq : ∀ label : String, ∃ text, (Render.dotQuoted label).toList = '"' :: text ∧
    ∀ rest, unquote (text ++ rest) = some (label.toList, rest)

theorem exists_quoted (label : String) : ∃ text, (Render.dotQuoted label).toList = '"' :: text ∧
    ∀ rest, unquote (text ++ rest) = some (label.toList, rest) := by
  refine ⟨label.toList.flatMap Render.dotChar ++ ['"'], toList_dotQuoted label, fun rest => ?_⟩
  rw [List.append_assoc]
  exact unquote_escaped label.toList rest

theorem dotQuoted_injective : Function.Injective Render.dotQuoted := by
  intro label other heq
  obtain ⟨text, htext, hread⟩ := exists_quoted label
  obtain ⟨text', htext', hread'⟩ := exists_quoted other
  obtain rfl : text = text' := by
    rw [heq, htext'] at htext
    exact (List.cons.inj htext).2.symm
  have hlabels := (hread []).symm.trans (hread' [])
  rw [Option.some.injEq, Prod.mk.injEq, String.toList_inj] at hlabels
  exact hlabels.1

end Dot

section Analyze

variable {m : Type → Type} {σ : Type} [Monad m] [Execution m σ] {project : Project}
  {collector : Collector m} {limit : Nat} {s : σ} {analysis : Analysis}
  (h : (exec (project.analyze collector limit).run s).1 = .ok analysis)
  (hvalid : ∀ id, (analysis.graph.node id).Valid)
include h

theorem exists_fullKey_of_analyze {id : Nat} (hid : id < analysis.graph.size) :
    ∃ key, (analysis.graph.node id).fullKey = some key := by
  obtain ⟨trace, houtcome⟩ := exists_outcome_of_analyze h
  obtain ⟨c, hc⟩ := houtcome.unfolding.coordinate hid
  exact ⟨_, Node.fullKey_of_coordinate hc (Node.effectiveVersion_of_coordinate hc)⟩

include hvalid

/-- An omitted node is not drawn as one that is not. -/
theorem quoted_ne_of_isOmitted {a b : Nat} (hb : b < analysis.graph.size)
    (homitted : (analysis.graph.node a).isOmitted) (hkept : ¬ (analysis.graph.node b).isOmitted) :
    Dot.quoted analysis.graph a ≠ Dot.quoted analysis.graph b := by
  intro heq
  obtain ⟨key, hkey⟩ := exists_fullKey_of_analyze h hb
  exact (hvalid b).label_ne_of_isOmitted hkey hkept homitted (Dot.dotQuoted_injective heq)

/-- Two nodes that are not omitted are drawn as two. -/
theorem eq_of_quoted_eq {a b : Nat} (ha : a ∈ shownBy analysis.graph.walk)
    (hb : b ∈ shownBy analysis.graph.walk) (hkept : ¬ (analysis.graph.node a).isOmitted)
    (hkept' : ¬ (analysis.graph.node b).isOmitted)
    (heq : Dot.quoted analysis.graph a = Dot.quoted analysis.graph b) : a = b := by
  have hmediated := mediated_of_analyze h
  have hpreorder := preorder_of_analyze h
  obtain ⟨trace, houtcome⟩ := exists_outcome_of_analyze h
  obtain ⟨key, hkey⟩ := exists_fullKey_of_analyze h (hmediated.lt_of_mem_shownBy ha)
  obtain ⟨key', hkey'⟩ := exists_fullKey_of_analyze h (hmediated.lt_of_mem_shownBy hb)
  have hincluded := hmediated.included_of_mem_shownBy hpreorder ha hkept
  have hincluded' := hmediated.included_of_mem_shownBy hpreorder hb hkept'
  have hkeys : key = key' := by
    have hread := (hvalid a).takeWhile_label hkey hkept
    rwa [Dot.dotQuoted_injective heq, (hvalid b).takeWhile_label hkey' hkept', String.toList_inj,
      eq_comm] at hread
  exact houtcome.judged.eq_of_fullKey (houtcome.mem_included_of_status hincluded)
    (houtcome.mem_included_of_status hincluded') hkey (hkeys ▸ hkey')

/-- **Labels identify nodes in the Graphviz text** of an analysis whose coordinates and managed versions
are valid: only leaves that are omitted may be drawn as one. -/
theorem identifies_of_analyze : Dot.Identifies analysis.graph := by
  have hlinked := (mediated_of_analyze h).toWellLinked
  refine {
    kept_ne := fun a ha b hb hne hkept hkept' heq =>
      hne (eq_of_quoted_eq h hvalid ha hb hkept hkept' heq)
    omitted_ne := fun a _ b hb => quoted_ne_of_isOmitted h hvalid hb
    source := ?_
    merged := ?_
    unquote_eq := Dot.exists_quoted }
  · rw [Dot.read_dot (presentable_of_analyze h hvalid), hlinked.shownEdges_eq]
    intro edge hedge
    obtain ⟨child, hchild, hedge⟩ := List.mem_filterMap.1 hedge
    obtain ⟨parent, hparent, rfl⟩ := Option.map_eq_some_iff.1 hedge
    obtain ⟨hshown, hkept⟩ := hlinked.shown_and_kept_of_parent hchild hparent
    refine ⟨parent, ⟨hshown, rfl⟩, fun other ⟨hother, heq⟩ => ?_⟩
    by_cases homitted : (analysis.graph.node other).isOmitted
    · exact absurd heq
        (quoted_ne_of_isOmitted h hvalid (hlinked.lt_of_mem_shownBy hshown) homitted hkept)
    · exact eq_of_quoted_eq h hvalid hother hshown homitted hkept heq
  · intro a ha b hb hne heq
    by_cases homitted : (analysis.graph.node a).isOmitted
    · exact ⟨homitted, fun child hchild hparent =>
        (hlinked.shown_and_kept_of_parent hchild hparent).2 homitted⟩
    · by_cases homitted' : (analysis.graph.node b).isOmitted
      · exact absurd heq.symm
          (quoted_ne_of_isOmitted h hvalid (hlinked.lt_of_mem_shownBy ha) homitted' homitted)
      · exact absurd (eq_of_quoted_eq h hvalid ha hb homitted homitted' heq) hne

end Analyze

/-- A project of which two dependencies ask for `web` once more. -/
def twinRequests : Project where
  coordinate := ⟨"org", "app", "jar", "1", none⟩
  dependencies := [
    { coordinate := ⟨"org", "web", "jar", "\"\\", none⟩ },
    { coordinate := ⟨"org", "core", "jar", "1", none⟩ },
    { coordinate := ⟨"org", "util", "jar", "1", none⟩ }]

def twinAnswer (c : Coordinate) : Answer :=
  .ok <|
    if c.name = "core" || c.name = "util" then
      [{ coordinate := ⟨"org", "web", "jar", "\"\\", none⟩ }]
    else []

/-- The nodes 3 and 5 are duplicates and drawn as one; the node 1 is the one that won. -/
theorem identifies_twinRequests :
    ∃ analysis, (exec (twinRequests.analyze (.ofFunction twinAnswer : Collector Id) 3).run ()).1 =
        .ok analysis ∧
      (∀ id, (analysis.graph.node id).Valid) ∧
      Dot.Identifies analysis.graph ∧
      shownBy analysis.graph.walk = List.range 6 ∧
      Dot.quoted analysis.graph 1 = "\"org:web:jar:\\\"\\\\:compile\"" ∧
      Dot.quoted analysis.graph 3 = Dot.quoted analysis.graph 5 := by
  have h : (exec (twinRequests.analyze (.ofFunction twinAnswer : Collector Id) 3).run ()).1 =
      .ok _ := rfl
  refine ⟨_, h, Graph.valid_node (by decide +kernel), identifies_of_analyze h ?_, by decide +kernel,
    by decide +kernel, by decide +kernel⟩
  exact Graph.valid_node (by decide +kernel)

end ArtifactTree
