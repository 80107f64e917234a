import ArtifactTree.Proofs.Mediation.Exploration
import ArtifactTree.Proofs.Rendering.Records
import ArtifactTree.Proofs.Rendering.Tour
import ArtifactTree.Proofs.Reporting
import ArtifactTree.Render.Format

/-!
# What is drawn is what was mediated

Mediation and the walk go through the tree on their own. Mediation goes on below the nodes that it
included, the walk below all that has a coordinate and is not omitted. They come to the same nodes,
because a node that was not reached is below an omitted one (`Mediated.unobstructed_iff`); only what is
left out as a test node is judged and not shown.

Every format writes the nodes that the walk shows, one after the other (`Format.draws_render`). So it
draws exactly the nodes with a status, but for those left out, and the report counts them.

Main statement: `draws_judged_of_analyze`.
-/

namespace ArtifactTree

open ArtifactTree.Graph Mediation

/-! ## The formats, node by node -/

namespace Graph

/-- What a walk tells when it comes to a node. -/
def arrival (g : Graph) (id : Nat) : List Event :=
  .node (g.visitOf id) :: ((g.node id).parent.map (Event.edge · id)).toList

namespace WellLinked

variable {g : Graph} (hg : g.WellLinked)
include hg

/-- What is read off the events of a tour, apart from the leaves, is read off its nodes one by one. -/
theorem filterMap_tour {α : Type} {f : Event → Option α} (hf : ∀ id, f (.leave id) = none) {id : Nat}
    (hid : id < g.size) :
    (g.tour id).filterMap f = (shownBy (g.tour id)).flatMap fun a => (g.arrival a).filterMap f := by
  induction id, hid using hg.below_induction with
  | node id hid ih =>
    have hbelow : ((g.shownBelow id).flatMap g.tour).filterMap f =
        ((g.shownBelow id).flatMap fun child => shownBy (g.tour child)).flatMap fun a =>
          (g.arrival a).filterMap f := by
      rw [List.filterMap_flatMap, List.flatMap_assoc]
      exact List.flatMap_congr fun child hchild => ih child (mem_children_of_mem_shownBelow hchild)
    rw [hg.shownBy_tour_eq hid, hg.tour_eq hid, List.flatMap_cons, ← hbelow, List.filterMap_append,
      List.filterMap_append, List.filterMap_cons_none (hf id), List.filterMap_nil, List.append_nil,
      arrival]

theorem filterMap_walk {α : Type} {f : Event → Option α} (hf : ∀ id, f (.leave id) = none) :
    g.walk.filterMap f = (shownBy g.walk).flatMap fun id => (g.arrival id).filterMap f := by
  rw [hg.walk_eq_tour]
  exact hg.filterMap_tour hf hg.size_pos

end WellLinked

end Graph

namespace Record

mutual

/-- What a record and the records nested in it say about their nodes, the outer one first. -/
def listing : Record → List NodeFacts
  | node facts dependencies => facts :: listings dependencies

def listings : List Record → List NodeFacts
  | [] => []
  | record :: records => listing record ++ listings records

end

theorem listings_eq_flatMap (records : List Record) : listings records = records.flatMap listing := by
  induction records with
  | nil => rfl
  | cons record records ih => rw [listings, ih, List.flatMap_cons]

/-- The records of a walk say the facts of its nodes, in the order of the walk. -/
theorem listings_ofWalk (g : Graph) (limit : Nat) (visit : Visit) :
    listings (ofWalk g limit visit) =
      (shownBy (g.walkWithin limit visit)).map fun id => (g.node id).facts := by
  induction limit generalizing visit with
  | zero => rfl
  | succ limit ih =>
    have hshown : shownBy (g.walkWithin (limit + 1) visit) =
        visit.id :: (g.visitsBelow visit).flatMap fun v => shownBy (g.walkWithin limit v) := by
      rw [walkWithin_succ, ← shownBy_flatMap]
      cases visit.parent <;> simp [shownBy, shownId?, List.filterMap_cons]
    have hbelow : listings ((g.visitsBelow visit).flatMap (ofWalk g limit)) =
        (g.visitsBelow visit).flatMap fun v =>
          (shownBy (g.walkWithin limit v)).map fun id => (g.node id).facts := by
      rw [listings_eq_flatMap, List.flatMap_assoc]
      refine List.flatMap_congr fun v _ => ?_
      rw [← listings_eq_flatMap, ih]
    rw [ofWalk, listings, listings, listing, List.append_nil, hbelow, hshown, List.map_cons,
      List.map_flatMap]

end Record

namespace Format

/-- What an output in the given format is if it draws the given nodes of the graph, one after the other:
lines, edges and elements, or nested records. -/
def Draws (g : Graph) (ids : List Nat) : Format → String → Prop
  | text, output => output = String.join (ids.map fun id => Render.textLine g (g.visitOf id))
  | dot, output =>
    output = String.join (ids.map fun id =>
      match (g.node id).parent with
      | none => "digraph " ++ Render.dotQuoted (g.node id).label ++ " \x7b\n"
      | some parent => Render.dotEdge g parent id) ++ "\x7d\n"
  | tgf, output =>
    output = String.join (ids.map (Render.tgfNode g)) ++ "#\n" ++
      String.join (ids.filterMap fun id => (g.node id).parent.map (Render.tgfEdge g · id))
  | graphml, output =>
    output = Render.graphmlHeader ++
      String.join (ids.flatMap fun id =>
        Render.graphmlNode g id :: ((g.node id).parent.map (Render.graphmlEdge g · id)).toList) ++
      Render.graphmlFooter
  | json, output =>
    ∃ record : Record, output = record.toJson.text ∧
      record.listing = ids.map fun id => (g.node id).facts

theorem draws_render {g : Graph} (hg : g.WellLinked) (format : Format) :
    format.Draws g (shownBy g.walk) (g.render format) := by
  cases format with
  | text =>
    rw [Draws, render, Render.text, hg.filterMap_walk fun _ => rfl, List.map_eq_flatMap]
    refine congrArg String.join (List.flatMap_congr fun id _ => ?_)
    cases h : (g.node id).parent <;> simp [arrival, h]
  | dot =>
    rw [Draws, render, Render.dot, hg.filterMap_walk fun _ => rfl, List.map_eq_flatMap]
    refine congrArg (String.join · ++ "\x7d\n") (List.flatMap_congr fun id _ => ?_)
    cases h : (g.node id).parent <;> simp [arrival, visitOf, h]
  | tgf =>
    rw [Draws, render, Render.tgf, hg.filterMap_walk fun _ => rfl, hg.filterMap_walk fun _ => rfl,
      List.map_eq_flatMap, List.filterMap_eq_flatMap_toList]
    refine congrArg₂ (String.join · ++ "#\n" ++ String.join ·)
      (List.flatMap_congr fun id _ => ?_) (List.flatMap_congr fun id _ => ?_) <;>
    · cases h : (g.node id).parent <;> simp [arrival, visitOf, h]
  | graphml =>
    rw [Draws, render, Render.graphml, hg.filterMap_walk fun _ => rfl]
    refine congrArg (Render.graphmlHeader ++ String.join · ++ Render.graphmlFooter)
      (List.flatMap_congr fun id _ => ?_)
    cases h : (g.node id).parent <;> simp [arrival, visitOf, h]
  | json =>
    obtain ⟨limit, hlimit⟩ := Nat.exists_eq_add_one.2 hg.size_pos
    have hrecord := Record.ofGraph?_eq hlimit
    have hlisting := Record.listings_ofWalk g (limit + 1) ⟨root, none, []⟩
    rw [Record.ofWalk] at hrecord hlisting
    rw [List.head?_cons] at hrecord
    rw [Record.listings, Record.listings, List.append_nil, ← hlimit] at hlisting
    exact ⟨_, by rw [render, Render.json, hrecord], hlisting⟩

end Format

/-! ## Mediation and the walk -/

namespace Graph

/-- Mediation changes the graph no more, and what it included has a coordinate. -/
structure Mediated (g : Graph) : Prop extends g.WellLinked where
  mediate : g.mediate = g
  coordinate : ∀ id, (g.node id).status = .included → (g.node id).coordinate.isSome

namespace Mediated

variable {g : Graph} (hg : g.Mediated)
include hg

theorem status_child {id child : Nat} (h : child ∈ g.children id) :
    (g.node child).status = .unvisited ↔ (g.node id).status ≠ .included := by
  have hstatus := hg.status_mediate_child h
  rwa [hg.mediate] at hstatus

/-- What is above a node with a status is included. -/
theorem included_of_mem_ancestors {level id : Nat} (h : g.ReachedAt level id) :
    (g.node id).status ≠ .unvisited → ∀ a ∈ g.ancestors id, (g.node a).status = .included := by
  induction h with
  | root =>
    intro _ a ha
    rw [hg.ancestors_of_root] at ha
    cases ha
  | @child level id child above mem ih =>
    intro hvisited a ha
    have hparent : (g.node id).status = .included := by
      by_contra hnot
      exact hvisited ((hg.status_child mem).2 hnot)
    rw [hg.ancestors_of_parent (hg.parent_of_mem mem)] at ha
    rcases List.mem_cons.1 ha with rfl | ha
    · exact hparent
    · refine ih ?_ a ha
      rw [hparent]
      exact Status.noConfusion

/-- A node below nodes that are not omitted has a status. -/
theorem visited_of_ancestors {level id : Nat} (h : g.ReachedAt level id) :
    (∀ a ∈ g.ancestors id, ¬ (g.node a).isOmitted) → (g.node id).status ≠ .unvisited := by
  induction h with
  | root =>
    intro _
    have hroot := hg.status_mediate_root
    rwa [hg.mediate] at hroot
  | @child level id child above mem ih =>
    intro hopen
    rw [hg.ancestors_of_parent (hg.parent_of_mem mem)] at hopen
    obtain ⟨hid, habove⟩ := List.forall_mem_cons.1 hopen
    intro hchild
    refine (hg.status_child mem).1 hchild ?_
    cases hstatus : (g.node id).status with
    | unvisited => exact absurd hstatus (ih habove)
    | included => rfl
    | omitted omission => simp [Node.isOmitted, Node.omission, hstatus] at hid

/-- The walk is kept from the nodes that mediation did not reach, and from those left out. -/
theorem unobstructed_iff {id : Nat} (hid : id ∈ g.preorder) :
    g.Unobstructed id ↔ (g.node id).status ≠ .unvisited ∧ ∀ a ∈ id :: g.ancestors id, ¬ g.LeftOut a := by
  have hreached := hg.reachedAt_iff.2 ⟨hid, rfl⟩
  refine and_congr_left fun _ => ⟨fun habove => ?_, fun hvisited a ha => ?_⟩
  · exact hg.visited_of_ancestors hreached fun a ha => (habove a ha).2
  · have hincluded := hg.included_of_mem_ancestors hreached hvisited a ha
    exact ⟨hg.coordinate a hincluded, by simp [Node.isOmitted, Node.omission, hincluded]⟩

/-- The walk shows what mediation reached, but for what is left out. -/
theorem mem_shownBy_walk_iff (hpreorder : g.preorder = List.range g.size) {id : Nat} :
    id ∈ shownBy g.walk ↔
      (g.node id).status ≠ .unvisited ∧ ∀ a ∈ id :: g.ancestors id, ¬ g.LeftOut a := by
  have hlisted : (g.node id).status ≠ .unvisited → id ∈ g.preorder := by
    intro hvisited
    rw [hpreorder, List.mem_range]
    by_contra hsize
    exact hvisited (by rw [node_of_size_le (Nat.le_of_not_lt hsize)])
  rw [hg.shownBy_walk, List.mem_filter, decide_eq_true_iff]
  constructor
  · rintro ⟨hid, hfree⟩
    exact (hg.unobstructed_iff hid).1 hfree
  · intro hvisited
    exact ⟨hlisted hvisited.1, (hg.unobstructed_iff (hlisted hvisited.1)).2 hvisited⟩

/-- As long as nothing is left out, the walk shows as many nodes as the report counts. -/
theorem length_shownBy_walk (hpreorder : g.preorder = List.range g.size)
    (hkept : ∀ id, ¬ g.LeftOut id) :
    (shownBy g.walk).length = g.report.included + g.report.omitted := by
  rw [included_add_omitted_report hpreorder, countStatus, List.countP_eq_length_filter,
    hg.shownBy_walk, hpreorder]
  refine congrArg List.length (List.filter_congr fun id hid => ?_)
  rw [Bool.eq_iff_iff, decide_eq_true_iff, bne_iff_ne,
    hg.unobstructed_iff (hpreorder ▸ hid)]
  exact and_iff_left fun a _ => hkept a

end Mediated

end Graph

/-! ## Main statement -/

/-- What is drawn of an analysis is what was judged. -/
structure Analysis.DrawsJudged (analysis : Analysis) : Prop where
  /-- Every format draws the nodes that the walk shows. -/
  formats : ∀ format : Format,
    format.Draws analysis.graph (shownBy analysis.graph.walk) (analysis.graph.render format)
  /-- None is drawn twice. -/
  nodup : (shownBy analysis.graph.walk).Nodup
  mem_iff : ∀ id, id ∈ shownBy analysis.graph.walk ↔
    (analysis.graph.node id).status ≠ .unvisited ∧
      ∀ a ∈ id :: analysis.graph.ancestors id, ¬ analysis.graph.LeftOut a
  length : (∀ id, ¬ analysis.graph.LeftOut id) →
    (shownBy analysis.graph.walk).length = analysis.report.included + analysis.report.omitted

section Analyze

variable {m : Type → Type} {σ : Type} [Monad m] [Execution m σ] {project : Project}
  {collector : Collector m} {limit : Nat} {s : σ} {analysis : Analysis}

theorem mediated_of_analyze (h : (exec (project.analyze collector limit).run s).1 = .ok analysis) :
    analysis.graph.Mediated := by
  obtain ⟨trace, houtcome⟩ := exists_outcome_of_analyze h
  obtain ⟨forest, hforest, hgraph⟩ := exists_forest_of_analyze collector.answers_anything trivial h
  have hmanaged := (manage_frame (forest.toGraph project.coordinate) project.management).1
  have hunfolding := (Forest.isUnfolding_toGraph hforest).congr hmanaged.symm
  refine { houtcome.unfolding.tree.wellLinked with mediate := ?_, coordinate := fun id hid => ?_ }
  · rw [hgraph, mediate_mediate hunfolding]
  · have hjudged := (Trace.included_sublist trace).subset (houtcome.mem_included_of_status hid)
    obtain ⟨c, hc⟩ := houtcome.unfolding.coordinate (houtcome.lt_size hjudged)
    exact Option.isSome_of_mem hc

/-- The nodes of an analysis are listed by their positions. -/
theorem preorder_of_analyze (h : (exec (project.analyze collector limit).run s).1 = .ok analysis) :
    analysis.graph.preorder = List.range analysis.graph.size := by
  obtain ⟨forest, -, hbare⟩ := exists_bare_forest_of_analyze collector.answers_anything trivial h
  have hbare : analysis.graph.bare = (forest.toGraph project.coordinate).bare := by
    rw [hbare, Forest.bare_toGraph]
  rw [preorder_congr (size_eq_of_bare hbare) (children_eq_of_bare hbare), Forest.preorder_toGraph,
    size_eq_of_bare hbare]

/-- **What is drawn is what was judged**, in every format and for every analysis that succeeds; only the
branches of deeper test nodes are judged and not drawn. -/
theorem draws_judged_of_analyze
    (h : (exec (project.analyze collector limit).run s).1 = .ok analysis) : analysis.DrawsJudged := by
  have hmediated := mediated_of_analyze h
  have hpreorder := preorder_of_analyze h
  exact {
    formats := Format.draws_render hmediated.toWellLinked
    nodup := hmediated.nodup_shownBy
    mem_iff := fun _ => hmediated.mem_shownBy_walk_iff hpreorder
    length := fun hkept => by rw [report_of_analyze h, hmediated.length_shownBy_walk hpreorder hkept] }

/-- A project that makes `mock` a test dependency. It asks for `web` itself and once more by way of
`core`. -/
def mockRequests : Project where
  coordinate := ⟨"org", "app", "jar", "1", none⟩
  dependencies := [
    { coordinate := ⟨"org", "web", "jar", "1", none⟩ },
    { coordinate := ⟨"org", "core", "jar", "1", none⟩ }]
  management := .ofList [("org:mock:jar", { scope := some .test })]

def mockAnswer (c : Coordinate) : Answer :=
  .ok <|
    if c.name = "web" then
      [{ coordinate := ⟨"org", "util", "jar", "1", none⟩ },
        { coordinate := ⟨"org", "mock", "jar", "1", none⟩ }]
    else if c.name = "mock" then [{ coordinate := ⟨"org", "stub", "jar", "1", none⟩ }]
    else if c.name = "core" then [{ coordinate := ⟨"org", "web", "jar", "1", none⟩ }]
    else []

/-- Of the nodes that were judged, the walk hides `mock`, which is the node 3, and `stub` below it. The
node 7 is below the repeated request for `web` and was not reached. -/
theorem draws_judged_mockRequests :
    ∃ analysis, (exec (mockRequests.analyze (.ofFunction mockAnswer : Collector Id) 4).run ()).1 =
        .ok analysis ∧
      analysis.DrawsJudged ∧
      shownBy analysis.graph.walk = [root, 1, 2, 5, 6] ∧
      (analysis.graph.node 4).status = .included ∧
      (analysis.graph.node 7).status = .unvisited := by
  have h : (exec (mockRequests.analyze (.ofFunction mockAnswer : Collector Id) 4).run ()).1 =
      .ok _ := rfl
  exact ⟨_, h, draws_judged_of_analyze h, by decide +kernel, by decide +kernel, by decide +kernel⟩

end Analyze

end ArtifactTree
