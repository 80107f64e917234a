import ArtifactTree.Proofs.Correspondence
import ArtifactTree.Proofs.Frame
import ArtifactTree.Proofs.Tree
import ArtifactTree.Render.Format

/-!
# Exclusions are informational

A declaration takes its exclusions along into the node, and the record of the node writes them. Nothing
else reads them. So taking them away (`Graph.plain`) commutes with every operation on graphs, and what is
read off a graph without them is what is read off the graph itself: its report, and its text in every
format but JSON.

For the unfolding, a declaration without its exclusions is a view of it (`Declaration.View.plain`), since
only its scope and its coordinate decide how the unfolding goes on.

Main statement: `exclusions_inert`.
-/

namespace ArtifactTree

/-! ## Without exclusions -/

def Declaration.plain (d : Declaration) : Declaration := { d with exclusions := [] }

/-- Sees all of a declaration but its exclusions. -/
def Declaration.View.plain : Declaration.View := ⟨Declaration.plain, fun _ => rfl, fun _ => rfl⟩

def Node.plain (n : Node) : Node := { n with exclusions := [] }

/-- The graph without the exclusions of its nodes. -/
def Graph.plain (g : Graph) : Graph := ⟨g.nodes.map Node.plain⟩

namespace Graph

@[simp] theorem size_plain (g : Graph) : g.plain.size = g.size := by simp [plain, size]

@[simp] theorem node_plain (g : Graph) (id : Nat) : g.plain.node id = (g.node id).plain := by
  simp only [node_eq_getElem?, plain, Array.getElem?_map]
  cases g.nodes[id]? <;> rfl

theorem children_plain (g : Graph) (id : Nat) : g.plain.children id = g.children id := by
  rw [children, node_plain]
  rfl

/-! ## Changes -/

/-- A change that does not look at exclusions is the same change without them. -/
theorem plain_modify {f : Node → Node} (h : ∀ n, (f n).plain = f n.plain) (g : Graph) (id : Nat) :
    (g.modify id f).plain = g.plain.modify id f := by
  apply ext_node (by simp)
  intro other hother
  rw [size_plain, size_modify] at hother
  rw [node_plain, node_modify g id f hother, node_modify _ id f (by rwa [size_plain]), node_plain]
  split
  · exact h _
  · rfl

theorem plain_addChild (g : Graph) (parent : Nat) (n : Node) :
    (g.addChild parent n).plain = g.plain.addChild parent n.plain := by
  have hpush : ∀ n : Node, (⟨g.nodes.push n⟩ : Graph).plain = ⟨g.plain.nodes.push n.plain⟩ := by
    intro n
    simp [plain]
  simp only [addChild, link, size_plain]
  rw [plain_modify (by intro n; rfl), hpush]
  rfl

theorem plain_setStatus (g : Graph) (id : Nat) (status : Status) :
    (g.setStatus id status).plain = g.plain.setStatus id status := plain_modify (by intro n; rfl) g id

theorem plain_truncateChildren (g : Graph) (id : Nat) :
    (g.truncateChildren id).plain = g.plain.truncateChildren id := plain_modify (by intro n; rfl) g id

theorem plain_clearStatuses (g : Graph) : g.clearStatuses.plain = g.plain.clearStatuses := by
  apply ext_node (by simp)
  intro id _
  rw [node_plain, node_clearStatuses, node_clearStatuses, node_plain]
  rfl

theorem preorder_plain (g : Graph) : g.plain.preorder = g.preorder :=
  preorder_congr (size_plain g) (children_plain g)

theorem ancestors_plain (g : Graph) (id : Nat) : g.plain.ancestors id = g.ancestors id :=
  ancestors_congr (size_plain g) (fun id => by rw [node_plain]; rfl) id

theorem plain_retainChildren (g : Graph) (id : Nat) {keep : Node → Bool}
    (h : ∀ n, keep n.plain = keep n) :
    (g.retainChildren id keep).plain = g.plain.retainChildren id keep := by
  simp only [retainChildren, keepChildren, children_plain, node_plain, h]
  exact plain_modify (by intro n; rfl) g id

/-- What a pass carries along besides the graph does not matter here. -/
def plainPass (state : Graph × Nat) : Graph × Nat := (state.1.plain, state.2)

theorem plain_pruneAt (g : Graph) (id : Nat) : g.plain.pruneAt id = plainPass (g.pruneAt id) := by
  have hpruned : (g.retainChildren id mayNest).plain = g.plain.retainChildren id mayNest :=
    plain_retainChildren g id fun n => rfl
  simp only [pruneAt, ← hpruned, children_plain, plainPass]

theorem plain_pruneNestedTests (g : Graph) :
    g.pruneNestedTests.1.plain = g.plain.pruneNestedTests.1 := by
  rw [pruneNestedTests, pruneNestedTests, preorder_plain]
  refine (congrArg Prod.fst (List.foldl_hom plainPass ?_)).symm
  rintro ⟨g, count⟩ id
  dsimp only [plainPass]
  rw [plain_pruneAt]
  rfl

/-! ## Management -/

theorem plain_manageAt (t : Management) (state : Graph × Nat) (id : Nat) :
    manageAt t (plainPass state) id = plainPass (manageAt t state id) := by
  have hoverride : t.override? (state.1.plain.node id) = t.override? (state.1.node id) := by
    rw [node_plain]
    rfl
  simp only [manageAt, plainPass, hoverride]
  cases t.override? (state.1.node id) with
  | none => rfl
  | some o => rw [plain_modify (by intro n; rfl)]

theorem plain_manage (g : Graph) (t : Management) : (g.manage t).1.plain = (g.plain.manage t).1 := by
  rw [manage, manage, preorder_plain]
  exact (congrArg Prod.fst (List.foldl_hom plainPass (plain_manageAt t))).symm

end Graph

/-! ## Mediation -/

namespace Mediation

open ArtifactTree.Graph

def State.plain (s : State) : State := { s with graph := s.graph.plain }

theorem plain_meet (s : State) (child : Nat) : s.plain.meet child = (s.meet child).plain := by
  have hcloses : s.plain.closesCycle child = s.closesCycle child := by
    rw [State.closesCycle, State.plain, node_plain]
    rfl
  have homission : markerOmission (s.graph.plain.node child) = markerOmission (s.graph.node child) := by
    rw [node_plain]
    rfl
  have hsame : s.plain.met = s.met := rfl
  rw [State.meet, State.meet, hcloses, hsame]
  by_cases hmarker : s.closesCycle child = true
  · rw [if_pos hmarker, if_pos hmarker]
    simp only [State.plain, homission, plain_setStatus, plain_truncateChildren]
  · rw [if_neg hmarker, if_neg hmarker]
    by_cases hmet : s.met.contains child = true
    · rw [if_pos hmet, if_pos hmet]
    · rw [if_neg hmet, if_neg hmet]
      rfl

theorem plain_include (s : State) (id : Nat) : s.plain.include id = (s.include id).plain := by
  have hchildren : (s.graph.plain.setStatus id .included).children id =
      (s.graph.setStatus id .included).children id := by
    rw [← plain_setStatus, children_plain]
  simp only [State.include]
  rw [← List.foldl_hom State.plain plain_meet]
  simp only [State.plain, node_plain, hchildren, plain_setStatus]
  rfl

theorem plain_judge (s : State) (id : Nat) : s.plain.judge id = (s.judge id).plain := by
  have homission : s.winners.omission? (s.graph.plain.node id) =
      s.winners.omission? (s.graph.node id) := by
    rw [node_plain]
    rfl
  rw [State.judge, State.judge, plain_include]
  simp only [State.plain, homission]
  cases s.winners.omission? (s.graph.node id) with
  | some omission => simp only [plain_setStatus]
  | none => rfl

theorem plain_run (limit : Nat) (s : State) : s.plain.run limit = (s.run limit).plain := by
  induction limit generalizing s with
  | zero => rfl
  | succ limit ih =>
    have hqueue : s.plain.queue = s.queue := rfl
    rw [State.run, State.run, hqueue]
    cases s.queue with
    | nil => rfl
    | cons id queue =>
      dsimp only
      rw [← ih, ← plain_judge]
      rfl

end Mediation

namespace Graph

theorem plain_mediate (g : Graph) : g.mediate.plain = g.plain.mediate := by
  rw [mediate, mediate, size_plain, ← plain_clearStatuses]
  exact congrArg Mediation.State.graph (Mediation.plain_run g.size _).symm

/-! ## Readings -/

theorem report_plain (g : Graph) : g.plain.report = g.report := by
  have hconflict : ∀ id, g.plain.conflict? id = g.conflict? id := by
    intro id
    have hpath : g.plain.pathTo id = g.pathTo id := by
      simp only [pathTo, ancestors_plain, node_plain]
      rfl
    simp only [conflict?, hpath, node_plain]
    rfl
  have hdepth : ∀ id, g.plain.depth id = g.depth id := fun id => by rw [depth, ancestors_plain, depth]
  simp only [report, preorder_plain, node_plain, hconflict, hdepth]
  rfl

theorem walk_plain (g : Graph) : g.plain.walk = g.walk := by
  have hshows : g.plain.shows = g.shows := by
    funext id child
    rw [shows, node_plain]
    rfl
  have hentered : g.plain.entered = g.entered := by
    funext id
    rw [entered, node_plain]
    rfl
  have hwithin : ∀ limit visit, g.plain.walkWithin limit visit = g.walkWithin limit visit := by
    intro limit
    induction limit with
    | zero => exact fun _ => rfl
    | succ limit ih =>
      intro visit
      simp only [walkWithin, renderedChildren, children_plain, hshows, hentered, ih]
  rw [walk, walk, size_plain, hwithin]

theorem label_plain (g : Graph) (id : Nat) : (g.plain.node id).label = (g.node id).label := by
  rw [node_plain]
  rfl

theorem edgeLabel_plain (g : Graph) (id : Nat) :
    (g.plain.node id).edgeLabel = (g.node id).edgeLabel := by
  rw [node_plain]
  rfl

/-- Only the records of the nodes write exclusions. -/
theorem render_plain (g : Graph) {format : Format} (h : format ≠ .json) :
    g.plain.render format = g.render format := by
  cases format with
  | text => simp only [render, Render.text, Render.textLine, walk_plain, label_plain]
  | dot => simp only [render, Render.dot, Render.dotEdge, walk_plain, label_plain]
  | tgf =>
    simp only [render, Render.tgf, Render.tgfNode, Render.tgfEdge, walk_plain, label_plain,
      edgeLabel_plain]
  | graphml =>
    have hnode : Render.graphmlNode g.plain = Render.graphmlNode g := by
      funext id
      -- the equation of a definition with long literals is slow to make, so none is used here
      delta Render.graphmlNode
      rw [label_plain]
    have hedge : Render.graphmlEdge g.plain = Render.graphmlEdge g := by
      funext parent child
      delta Render.graphmlEdge
      rw [edgeLabel_plain]
    rw [render, render]
    unfold Render.graphml
    rw [walk_plain, hnode, hedge]
  | json => exact absurd rfl h

end Graph

/-! ## Unfolding -/

namespace Forest

theorem plain_layOut (forest : Forest) (ancestors : List Nat) (g : Graph) :
    (forest.layOut ancestors g).plain = (forest.seen .plain).layOut ancestors g.plain := by
  induction forest generalizing ancestors g with
  | nil => rfl
  | cons d cycle below rest ihBelow ihRest =>
    simp only [seen, layOut, ihRest, ihBelow, Graph.plain_addChild, Graph.size_plain]
    rfl

theorem plain_toGraph (forest : Forest) (project : Coordinate) :
    (forest.toGraph project).plain = (forest.seen .plain).toGraph project := by
  have hroot : (Graph.ofProject project).plain = .ofProject project := by
    simp [Graph.plain, Graph.ofProject, Graph.ofRoot, Node.plain, Node.project]
  rw [toGraph, plain_layOut, hroot, toGraph]

end Forest

/-! ## Two runs -/

/-- The project without the exclusions of its declarations. -/
def Project.plain (project : Project) : Project :=
  { project with dependencies := project.dependencies.map Declaration.plain }

/-- The answer without the exclusions of its declarations. -/
def Answer.plain (answer : Answer) : Answer := answer.map (List.map Declaration.plain)

/-- The analyses are the same but for the exclusions of nodes. -/
structure Analysis.PlainlyEqual (a a' : Analysis) : Prop where
  graph : a.graph.plain = a'.graph.plain
  report : a.report = a'.report
  render : ∀ format : Format, format ≠ .json → a.graph.render format = a'.graph.render format

/-- Either both fail with one fault, or both succeed and the analyses are the same but for exclusions. -/
inductive PlainlyEqual : Except UnfoldingFault Analysis → Except UnfoldingFault Analysis → Prop
  | failed (e : UnfoldingFault) : PlainlyEqual (.error e) (.error e)
  | succeeded {a a' : Analysis} (analyses : a.PlainlyEqual a') : PlainlyEqual (.ok a) (.ok a')

/-- What is read off the graphs is the same as soon as the graphs are, but for exclusions. -/
theorem Analysis.PlainlyEqual.of_graph {g g' : Graph} (h : g.plain = g'.plain) :
    PlainlyEqual ⟨g, g.report⟩ ⟨g', g'.report⟩ where
  graph := h
  report := by rw [← g.report_plain, h, g'.report_plain]
  render format hformat := by rw [← g.render_plain hformat, h, g'.render_plain hformat]

section Runs

variable {m m' : Type → Type} {σ σ' : Type} [Monad m] [Execution m σ] [Monad m'] [Execution m' σ']

/-- In states related by `R`, the answers of the two collectors are the same but for exclusions, and the
next states are related again. -/
structure Collector.PlainlyAlike (collector : Collector m) (collector' : Collector m')
    (R : σ → σ' → Prop) : Prop where
  answer : ∀ {s s'}, R s s' → ∀ c,
    Answer.plain (exec (collector.collect c) s).1 = Answer.plain (exec (collector'.collect c) s').1
  next : ∀ {s s'}, R s s' → ∀ c,
    R (exec (collector.collect c) s).2 (exec (collector'.collect c) s').2

/-- The tie of two runs of which neither may end alone. -/
def Tie.close (R : σ → σ' → Prop) : Tie σ σ' where
  running := R
  ended _ _ := True
  alone _ := False

variable {collector : Collector m} {collector' : Collector m'} {R : σ → σ' → Prop}

theorem Collector.PlainlyAlike.tied (h : collector.PlainlyAlike collector' R) :
    collector.Tied collector' (Tie.close R) .plain := by
  intro c s s' hs
  have hanswer := h.answer hs c
  have hnext := h.next hs c
  rw [Forest.exec_declared, Forest.exec_declared]
  cases hc : (exec (collector.collect c) s).1 with
  | ok ds =>
    cases hc' : (exec (collector'.collect c) s').1 with
    | ok ds' =>
      rw [hc, hc'] at hanswer
      exact .answered (Except.ok.inj hanswer) hnext
    | error reason =>
      rw [hc, hc'] at hanswer
      cases hanswer
  | error reason =>
    cases hc' : (exec (collector'.collect c) s').1 with
    | ok ds =>
      rw [hc, hc'] at hanswer
      cases hanswer
    | error reason' =>
      rw [hc, hc'] at hanswer
      obtain rfl := Except.error.inj hanswer
      exact .faulted trivial

section Projects

variable {project project' : Project} (hproject : project.plain = project'.plain)
  (h : collector.PlainlyAlike collector' R) (limit : Nat)
include hproject h

theorem runs_unfold_plain : (Tie.close R).Runs (fun g g' => g.plain = g'.plain)
    (project.unfold collector limit) (project'.unfold collector' limit) := by
  obtain ⟨hcoordinate, hdependencies, -⟩ := Project.mk.inj hproject
  have hlimits : (Tie.close R).Limits limit limit :=
    ⟨Nat.le_refl limit, .inr ⟨rfl, fun _ _ _ => trivial⟩⟩
  rw [Project.unfold, Project.unfold, Graph.unfold, Graph.unfold, ← hcoordinate]
  refine (h.tied.runs_ofProject hlimits project.coordinate hdependencies).bind
    fun forest forest' hforest => .pure ?_
  rw [Graph.plain_pruneNestedTests, Graph.plain_pruneNestedTests, Forest.plain_toGraph, hforest,
    Forest.plain_toGraph]

theorem runs_analyze_plain : (Tie.close R).Runs Analysis.PlainlyEqual
    (project.analyze collector limit) (project'.analyze collector' limit) := by
  obtain ⟨-, -, hmanagement⟩ := Project.mk.inj hproject
  rw [Project.analyze, Project.analyze, ← hmanagement]
  refine (runs_unfold_plain hproject h limit).bind fun g g' hg => .pure (.of_graph ?_)
  rw [Graph.plain_mediate, Graph.plain_mediate, Graph.plain_manage, Graph.plain_manage, hg]

/-- **Exclusions are inert**: projects and collectors that differ in exclusions only are analyzed to the
same fault, or to graphs that differ in exclusions only, with one report and with the same text in every
format but JSON. -/
theorem exclusions_inert {s : σ} {s' : σ'} (hs : R s s') :
    PlainlyEqual (exec (project.analyze collector limit).run s).1
      (exec (project'.analyze collector' limit).run s').1 := by
  have hends := runs_analyze_plain hproject h limit s s' hs
  generalize exec (project.analyze collector limit).run s = run,
    exec (project'.analyze collector' limit).run s' = run' at hends
  cases hends with
  | answered value _ => exact .succeeded value
  | faulted _ => exact .failed _
  | alone alone => exact alone.elim

end Projects

end Runs

/-- Asks for `web`, with or without an exclusion, and for `log`. -/
def excludingRequests (exclusions : List Exclusion) : Project where
  coordinate := ⟨"org", "app", "jar", "1", none⟩
  dependencies := [{ coordinate := ⟨"org", "web", "jar", "1", none⟩, exclusions },
    { coordinate := ⟨"org", "log", "jar", "1", none⟩ }]

/-- What `web` declares is what the project excludes from it. -/
def excludedAnswer (exclusions : List Exclusion) (c : Coordinate) : Answer :=
  .ok (if c.name = "web" then [{ coordinate := ⟨"org", "log", "jar", "2", none⟩, exclusions }] else [])

/-- The exclusion of `log` does not keep it out, neither from the graph nor from the report. -/
theorem exclusions_inert_excludingRequests :
    PlainlyEqual
      (exec ((excludingRequests [⟨"org", "log"⟩]).analyze
        (.ofFunction (excludedAnswer [⟨"org", "util"⟩]) : Collector Id) 2).run ()).1
      (exec ((excludingRequests []).analyze
        (.ofFunction (excludedAnswer []) : Collector Id) 2).run ()).1 ∧
    ∃ analysis, (exec ((excludingRequests [⟨"org", "log"⟩]).analyze
        (.ofFunction (excludedAnswer [⟨"org", "util"⟩]) : Collector Id) 2).run ()).1 = .ok analysis ∧
      (analysis.graph.node 1).exclusions = [⟨"org", "log"⟩] ∧ analysis.report.versionConflicts = 1 := by
  have hproject : (excludingRequests [⟨"org", "log"⟩]).plain = (excludingRequests []).plain := rfl
  have hcollector : (.ofFunction (excludedAnswer [⟨"org", "util"⟩]) : Collector Id).PlainlyAlike
      (.ofFunction (excludedAnswer []) : Collector Id) fun _ _ => True := by
    refine ⟨fun _ c => ?_, fun _ _ => trivial⟩
    change Answer.plain (excludedAnswer [⟨"org", "util"⟩] c) = Answer.plain (excludedAnswer [] c)
    unfold excludedAnswer
    split <;> rfl
  exact ⟨exclusions_inert hproject hcollector 2 trivial, _, rfl, by decide +kernel, by decide +kernel⟩

end ArtifactTree
