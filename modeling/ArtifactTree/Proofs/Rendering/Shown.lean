import ArtifactTree.Proofs.Listing
import ArtifactTree.Proofs.Mediation.Markers
import ArtifactTree.Proofs.Rendering.Walk

/-!
# Which nodes a walk shows

A walk shows the root, and below a node that it enters the children that it may show
(`Graph.Shown`). Mediation and the walk do not go by the same nodes: mediation lets every node compete
that the unfolding has, and the unfolding leaves out what is declared in the scope `test` below the
first level; the walk leaves out what has this scope in force there, which management may force on any
node. So a node may win that no format shows (`hiddenWinner_unshown`), with everything below it, and a
shown loser tells of a winner that the reader does not find.

Management is the only reason: a winner is shown unless the scope was forced on it or on a node above
it (`shown_winner_of_loser`).
-/

namespace ArtifactTree

open ArtifactTree.Graph Mediation

namespace Graph

/-! ## The nodes of a walk -/

/-- The nodes that a walk shows. -/
inductive Shown (g : Graph) : Nat → Prop
  | root : Shown g root
  | child {id child : Nat} (above : Shown g id) (entered : g.entered id = true)
    (mem : child ∈ g.renderedChildren id) : Shown g child

variable {g : Graph}

theorem map_id_visitsBelow (g : Graph) (visit : Visit) :
    (g.visitsBelow visit).map (·.id) =
      if g.entered visit.id then g.renderedChildren visit.id else [] := by
  unfold visitsBelow
  split
  · rw [List.map_map]
    exact map_fst_withLast _
  · rfl

theorem exists_mem_visitsBelow_iff {visit : Visit} {child : Nat} :
    (∃ v ∈ g.visitsBelow visit, v.id = child) ↔
      g.entered visit.id = true ∧ child ∈ g.renderedChildren visit.id := by
  rw [← List.mem_map, map_id_visitsBelow]
  by_cases hentered : g.entered visit.id <;> simp [hentered]

theorem Shown.of_mem_shownBy {limit : Nat} {visit : Visit} (hvisit : g.Shown visit.id) {id : Nat}
    (h : id ∈ shownBy (g.walkWithin limit visit)) : g.Shown id := by
  obtain ⟨w, hw, rfl⟩ := mem_shownBy.1 h
  clear h
  induction limit generalizing visit with
  | zero => cases hw
  | succ limit ih =>
    rw [walkWithin_succ] at hw
    simp only [List.mem_append, List.mem_cons, Event.node.injEq, Option.mem_toList,
      Option.map_eq_some_iff, reduceCtorEq, and_false, exists_false, or_false, List.not_mem_nil,
      List.mem_flatMap] at hw
    rcases hw with rfl | ⟨v, hv, hw⟩
    · exact hvisit
    · obtain ⟨hentered, hmem⟩ := exists_mem_visitsBelow_iff.1 ⟨v, hv, rfl⟩
      exact ih (hvisit.child hentered hmem) hw

/-- What is shown is reached by a walk that still has as many levels left as there may be below. -/
theorem Shown.exists_walkWithin (hg : g.WellLinked) {id : Nat} (h : g.Shown id) :
    id < g.size ∧ ∃ visit limit, visit.id = id ∧ g.depth id + limit = g.size ∧
      ∀ event ∈ g.walkWithin limit visit, event ∈ g.walk := by
  induction h with
  | root =>
    refine ⟨hg.size_pos, ⟨Graph.root, none, []⟩, g.size, rfl, ?_, fun _ h => h⟩
    rw [hg.depth_of_root, Nat.zero_add]
  | @child id child above entered mem ih =>
    obtain ⟨hsize, visit, limit, rfl, hlimit, hwalk⟩ := ih
    have hchild := (List.mem_filter.1 mem).1
    have hdepth := hg.depth_le_self hsize
    obtain ⟨limit, rfl⟩ : ∃ k, limit = k + 1 := ⟨limit - 1, by omega⟩
    obtain ⟨v, hv, rfl⟩ := exists_mem_visitsBelow_iff.2 ⟨entered, mem⟩
    refine ⟨(hg.lt_of_mem hchild).2, v, limit, rfl, ?_, fun event hevent => hwalk event ?_⟩
    · rw [hg.depth_of_mem hchild]
      omega
    · rw [walkWithin_succ]
      simp only [List.mem_append, List.mem_flatMap]
      exact .inl (.inr ⟨v, hv, hevent⟩)

/-! ## What hides a node -/

/-- The node is below the first level and has the scope `test` in force. -/
def LeftOut (g : Graph) (id : Nat) : Prop :=
  2 ≤ g.depth id ∧ (g.node id).effectiveScope = some .test

namespace WellLinked

variable (hg : g.WellLinked)
include hg

theorem mem_shownBy_walk_iff {id : Nat} : id ∈ shownBy g.walk ↔ g.Shown id := by
  constructor
  · exact Shown.of_mem_shownBy .root
  · intro h
    obtain ⟨hsize, visit, limit, rfl, hlimit, hwalk⟩ := h.exists_walkWithin hg
    have hdepth := hg.depth_le_self hsize
    obtain ⟨limit, rfl⟩ : ∃ k, limit = k + 1 := ⟨limit - 1, by omega⟩
    obtain ⟨w, hw, hid⟩ := mem_shownBy.1 (mem_shownBy_succ g limit visit)
    exact mem_shownBy.2 ⟨w, hwalk _ hw, hid⟩

/-- What is above a node that is shown is shown. -/
theorem shown_of_mem_ancestors {id : Nat} (h : g.Shown id) : ∀ a ∈ g.ancestors id, g.Shown a := by
  induction h with
  | root =>
    intro a ha
    rw [hg.ancestors_of_root] at ha
    cases ha
  | child above _ mem ih =>
    rw [hg.ancestors_of_parent (hg.parent_of_mem (List.mem_filter.1 mem).1)]
    exact List.forall_mem_cons.2 ⟨above, ih⟩

/-- A node is shown below its parent alone. -/
theorem shown_parent {id parent : Nat} (h : g.Shown id) (hparent : (g.node id).parent = some parent) :
    g.Shown parent ∧ g.entered parent = true ∧ id ∈ g.renderedChildren parent := by
  cases h with
  | root =>
    rw [hg.parent_root] at hparent
    cases hparent
  | child above entered mem =>
    rw [hg.parent_of_mem (List.mem_filter.1 mem).1, Option.some.injEq] at hparent
    exact hparent ▸ ⟨above, entered, mem⟩

/-- Only the children of the root are on the first level. -/
theorem shows_iff {id child : Nat} (h : child ∈ g.children id) :
    g.shows id child = true ↔ ¬ g.LeftOut child := by
  rw [shows, Bool.or_eq_true, beq_iff_eq, bne_iff_ne, LeftOut, hg.depth_of_mem h, not_and_or]
  by_cases hroot : id = root
  · simp [hroot, hg.depth_of_root]
  · obtain ⟨hlt, hsize⟩ := hg.lt_of_mem h
    obtain ⟨parent, -, hparent⟩ := hg.exists_parent (Nat.lt_trans hlt hsize) hroot
    simp [hroot, hg.depth_of_parent hparent]

/-- A walk shows the reachable nodes of which it enters all that is above them and leaves out nothing on
the way. -/
theorem shown_iff {id : Nat} :
    g.Shown id ↔ id ∈ g.preorder ∧ (∀ a ∈ g.ancestors id, g.entered a = true) ∧
      ∀ a ∈ id :: g.ancestors id, ¬ g.LeftOut a := by
  constructor
  · intro h
    induction h with
    | root =>
      have hroot : ¬ g.LeftOut root := fun hleft => by
        rw [LeftOut, hg.depth_of_root] at hleft
        exact absurd hleft.1 (by decide)
      rw [hg.ancestors_of_root]
      exact ⟨(hg.of_reachedAt .root).1, List.forall_mem_nil _, List.forall_mem_singleton.2 hroot⟩
    | child _ entered mem ih =>
      obtain ⟨hchild, hshows⟩ := List.mem_filter.1 mem
      rw [hg.ancestors_of_parent (hg.parent_of_mem hchild), List.forall_mem_cons,
        List.forall_mem_cons]
      exact ⟨hg.child_mem_branch hg.size_pos hchild ih.1, ⟨entered, ih.2.1⟩,
        (hg.shows_iff hchild).1 hshows, ih.2.2⟩
  · rintro ⟨hmem, hentered, hleft⟩
    obtain ⟨level, hreached⟩ : ∃ level, g.ReachedAt level id := ⟨_, hg.reachedAt_iff.2 ⟨hmem, rfl⟩⟩
    clear hmem
    induction hreached with
    | root => exact .root
    | child _ mem ih =>
      rw [hg.ancestors_of_parent (hg.parent_of_mem mem), List.forall_mem_cons] at hentered
      rw [hg.ancestors_of_parent (hg.parent_of_mem mem), List.forall_mem_cons] at hleft
      refine (ih hentered.2 hleft.2).child hentered.1 (List.mem_filter.2 ⟨mem, ?_⟩)
      exact (hg.shows_iff mem).2 hleft.1

end WellLinked

end Graph

/-! ## What is left out of an unfolding already -/

/-- Below the first level nothing is declared in the scope `test`. -/
theorem Forest.UnfoldsProject.scope_ne_test {declares : Coordinate → List Declaration → Prop}
    {project : Coordinate} {dependencies : List Declaration} {forest : Forest}
    (h : UnfoldsProject declares project dependencies forest) {id : Nat}
    (hdepth : 2 ≤ (forest.toGraph project).depth id) :
    ((forest.toGraph project).node id).scope ≠ some .test := by
  have hroot : id ≠ Graph.root := by
    rintro rfl
    rw [(isTree_toGraph forest project).depth_root] at hdepth
    exact absurd hdepth (by decide)
  by_cases hid : id < (forest.toGraph project).size
  · obtain ⟨p, hp, rfl⟩ := exists_mem_placesBelow hid hroot
    rw [depth_toGraph_of_mem_places hp] at hdepth
    rw [(requests_of_mem_places hp).scope]
    exact fun hscope => (h.explained p hp).scope hdepth (Option.some.inj hscope)
  · rw [Graph.node_of_size_le (Nat.le_of_not_lt hid)]
    exact fun hscope => nomatch hscope

namespace Graph

/-- Management forced the scope `test` on the node or on one above it, below the first level. -/
def HiddenByManagement (g : Graph) (id : Nat) : Prop :=
  ∃ a ∈ id :: g.ancestors id, 2 ≤ g.depth a ∧ (g.node a).managedScope = some .test

theorem leftOut_iff {g : Graph} {id : Nat}
    (h : 2 ≤ g.depth id → (g.node id).scope ≠ some .test) :
    g.LeftOut id ↔ 2 ≤ g.depth id ∧ (g.node id).managedScope = some .test := by
  refine and_congr_right fun hdepth => ?_
  rw [Node.effectiveScope]
  cases (g.node id).managedScope with
  | none => simp [h hdepth]
  | some scope => rfl

/-- An included node is shown unless management hides it. -/
theorem mem_shownBy_iff_of_included {g : Graph} {project : Coordinate} {trace : Trace}
    (h : Outcome g project trace)
    (hscope : ∀ id, 2 ≤ g.depth id → (g.node id).scope ≠ some .test) {id : Nat}
    (hid : (g.node id).status = .included) :
    id ∈ shownBy g.walk ↔ ¬ g.HiddenByManagement id := by
  have hjudged : id ∈ trace.ids := (Trace.included_sublist trace).subset (h.status_included_iff.1 hid)
  have hsize := h.lt_size hjudged
  have hentered : ∀ a ∈ g.ancestors id, g.entered a = true := by
    intro a ha
    have hincluded := h.included_of_ancestor hjudged a ha
    obtain ⟨c, hc⟩ := h.unfolding.coordinate
      (h.lt_size ((Trace.included_sublist trace).subset hincluded))
    rw [entered, hc, Node.isOmitted, Node.omission, h.status_included_iff.2 hincluded]
    rfl
  have hlinked := h.unfolding.tree.wellLinked
  rw [hlinked.mem_shownBy_walk_iff, hlinked.shown_iff]
  constructor
  · rintro ⟨-, -, hleft⟩ ⟨a, ha, hforced⟩
    exact hleft a ha ((leftOut_iff (hscope a)).2 hforced)
  · intro hhidden
    refine ⟨h.unfolding.tree.mem_preorder hsize, hentered, fun a ha hleft => hhidden ?_⟩
    exact ⟨a, ha, (leftOut_iff (hscope a)).1 hleft⟩

/-! ## Losers and winners -/

/-- The winner is of the kind that the omission of the loser names: it has the full key of the loser,
that key with the named scope, or the artifact key of the loser and the named version. -/
def Beats (g : Graph) (winner loser : Nat) : Omission → Prop
  | .duplicate _ => ∃ key, (g.node loser).fullKey = some key ∧ (g.node winner).fullKey = some key
  | .scopeConflict scope =>
    ∃ key, ((g.node loser).inScope scope).fullKey = some key ∧ (g.node winner).fullKey = some key
  | .versionConflict version =>
    ∃ key, (g.node loser).artifactKey = some key ∧ (g.node winner).artifactKey = some key ∧
      (g.node winner).effectiveVersion = some version
  | .cycle _ | .optional | .malformed => False

end Graph

/-- Whether a node is omitted because another one won. -/
def Omission.isLoss : Omission → Bool
  | .duplicate _ | .scopeConflict _ | .versionConflict _ => true
  | .cycle _ | .optional | .malformed => false

theorem Mediation.Outcome.exists_beats {g : Graph} {project : Coordinate} {trace : Trace}
    (h : Outcome g project trace) {id : Nat} {omission : Omission}
    (hstatus : (g.node id).status = .omitted omission) (hloss : omission.isLoss) :
    ∃ winner, g.WinsBefore winner id ∧ g.Beats winner id omission := by
  cases omission with
  | duplicate of =>
    obtain ⟨winner, key, hwins, hbeats⟩ := h.exists_winner_of_duplicate hstatus
    exact ⟨winner, hwins, key, hbeats⟩
  | scopeConflict scope =>
    obtain ⟨-, winner, key, hwins, hbeats⟩ := h.exists_winner_of_scopeConflict hstatus
    exact ⟨winner, hwins, key, hbeats⟩
  | versionConflict version =>
    obtain ⟨-, winner, key, hwins, hbeats⟩ := h.exists_winner_of_versionConflict hstatus
    exact ⟨winner, hwins, key, hbeats⟩
  | cycle | optional | malformed => cases hloss

section Analyze

variable {m : Type → Type} {σ : Type} [Monad m] [Execution m σ] {project : Project}
  {collector : Collector m} {limit : Nat} {s : σ} {analysis : Analysis}

theorem scope_ne_test_of_analyze
    (h : (exec (project.analyze collector limit).run s).1 = .ok analysis) {id : Nat}
    (hdepth : 2 ≤ analysis.graph.depth id) : (analysis.graph.node id).scope ≠ some .test := by
  obtain ⟨forest, hforest, hbare⟩ :=
    exists_bare_forest_of_analyze collector.answers_anything trivial h
  rw [← Forest.bare_toGraph] at hbare
  rw [depth, ancestors_eq_of_bare hbare] at hdepth
  rw [scope_eq_of_bare hbare]
  exact hforest.scope_ne_test hdepth

/-- **A loser has an included winner before it, and every format shows the winner** unless management
forced the scope `test` on that node or on one above it, below the first level. -/
theorem shown_winner_of_loser
    (h : (exec (project.analyze collector limit).run s).1 = .ok analysis) {id : Nat}
    {omission : Omission} (hstatus : (analysis.graph.node id).status = .omitted omission)
    (hloss : omission.isLoss) :
    ∃ winner, analysis.graph.WinsBefore winner id ∧ analysis.graph.Beats winner id omission ∧
      (winner ∈ shownBy analysis.graph.walk ↔ ¬ analysis.graph.HiddenByManagement winner) := by
  obtain ⟨trace, houtcome⟩ := exists_outcome_of_analyze h
  obtain ⟨winner, hwins, hbeats⟩ := houtcome.exists_beats hstatus hloss
  refine ⟨winner, hwins, hbeats, ?_⟩
  exact mem_shownBy_iff_of_included houtcome (fun _ => scope_ne_test_of_analyze h) hwins.1

/-- The artifact `org:name:jar:1`. -/
def hiddenWinnerArtifact (name : String) : Coordinate := ⟨"org", name, "jar", "1", none⟩

/-- A project that forces the scope `test` on `mock`. -/
def hiddenWinnerProject : Project where
  coordinate := hiddenWinnerArtifact "app"
  dependencies := [{ coordinate := hiddenWinnerArtifact "web" }]
  management := .ofList [("org:mock:jar", { scope := some .test })]

/-- Below `web` there are `mock` and `core`, and both ask for `util`. -/
def hiddenWinnerAnswer (c : Coordinate) : Answer :=
  .ok <|
    if c.name = "web" then
      [{ coordinate := hiddenWinnerArtifact "mock" }, { coordinate := hiddenWinnerArtifact "core" }]
    else if c.name = "mock" ∨ c.name = "core" then [{ coordinate := hiddenWinnerArtifact "util" }]
    else []

def hiddenWinnerAnalysis : Except UnfoldingFault Analysis :=
  (exec (hiddenWinnerProject.analyze (.ofFunction hiddenWinnerAnswer : Collector Id) 4).run ()).1

/-- The node 5 is the `util` below `core`. Its winner is the one below `mock`. -/
theorem shown_winner_of_hiddenWinnerProject :
    ∃ analysis, hiddenWinnerAnalysis = .ok analysis ∧
      (analysis.graph.node 5).status = .omitted (.duplicate (hiddenWinnerArtifact "util")) ∧
      ∃ winner, analysis.graph.WinsBefore winner 5 ∧
        analysis.graph.Beats winner 5 (.duplicate (hiddenWinnerArtifact "util")) ∧
        (winner ∈ shownBy analysis.graph.walk ↔ ¬ analysis.graph.HiddenByManagement winner) := by
  have h : hiddenWinnerAnalysis = .ok _ := rfl
  refine ⟨_, h, by decide +kernel, ?_⟩
  exact shown_winner_of_loser h (by decide +kernel) rfl

/-- A shown node is omitted for a duplicate of which no included node is shown. -/
theorem hiddenWinner_unshown :
    ∃ analysis, hiddenWinnerAnalysis = .ok analysis ∧ 5 ∈ shownBy analysis.graph.walk ∧
      (analysis.graph.node 5).status = .omitted (.duplicate (hiddenWinnerArtifact "util")) ∧
      ∀ winner ∈ shownBy analysis.graph.walk, (analysis.graph.node winner).status = .included →
        (analysis.graph.node winner).fullKey ≠ (analysis.graph.node 5).fullKey := by
  have h : hiddenWinnerAnalysis = .ok _ := rfl
  exact ⟨_, h, by decide +kernel, by decide +kernel, by decide +kernel⟩

end Analyze

end ArtifactTree
