import ArtifactTree.Proofs.Rendering.Labels
import ArtifactTree.Proofs.Rendering.Walk
import ArtifactTree.Render.Tgf

/-!
# Reading tables of nodes and edges

Two formats list the nodes with their names and labels, and the edges by the names of their ends. If
nodes have different names, looking up the ends gives the labels back (`resolve_walk`), because a
walk shows both ends of each of its edges. The Trivial Graph Format is read here.
-/

namespace ArtifactTree

namespace Table

/-- Replaces the names at the ends of edges by labels. -/
def resolve (labels edges : List (String × String)) : Option (List (String × String)) :=
  edges.mapM fun (parent, child) => do return (← labels.lookup parent, ← labels.lookup child)

theorem resolve_cons {labels edges shown : List (String × String)} {parent child a b : String}
    (hparent : labels.lookup parent = some a) (hchild : labels.lookup child = some b)
    (h : resolve labels edges = some shown) :
    resolve labels ((parent, child) :: edges) = some ((a, b) :: shown) := by
  unfold resolve at h ⊢
  rw [List.mapM_cons, h]
  dsimp only
  rw [hparent, hchild]
  rfl

def ends (name : Nat → String) : Event → Option (String × String)
  | .edge parent child => some (name parent, name child)
  | _ => none

variable {name : Nat → String} (hname : Function.Injective name)
include hname

theorem lookup_map {ids : List Nat} {id : Nat} (hid : id ∈ ids) (label : Nat → String) :
    (ids.map fun i => (name i, label i)).lookup (name id) = some (label id) := by
  induction ids with
  | nil => cases hid
  | cons first ids ih =>
    rw [List.map_cons, List.lookup_cons]
    by_cases heq : id = first
    · rw [heq, beq_self_eq_true]
    · have hne : (name id == name first) = false := beq_eq_false_iff_ne.2 fun h => heq (hname h)
      rw [hne]
      exact ih ((List.mem_cons.1 hid).resolve_left heq)

/-- In a table of the nodes that a walk shows, the names of its edges stand for their labels. -/
theorem resolve_walk (g : Graph) :
    resolve ((Graph.shownBy g.walk).map fun id => (name id, (g.node id).label))
      (g.walk.filterMap (ends name)) = some g.shownEdges := by
  have hevents : ∀ events : List Event, (∀ event ∈ events, event ∈ g.walk) →
      resolve ((Graph.shownBy g.walk).map fun id => (name id, (g.node id).label))
        (events.filterMap (ends name)) = some (g.edgesOf events) := by
    intro events hmem
    induction events with
    | nil => rfl
    | cons event events ih =>
      obtain ⟨hevent, hevents⟩ := List.forall_mem_cons.1 hmem
      have hrest := ih hevents
      cases event with
      | edge parent child =>
        obtain ⟨hparent, hchild⟩ := Graph.mem_shownBy_walk hevent
        exact resolve_cons (lookup_map hname hparent _) (lookup_map hname hchild _) hrest
      | node visit => exact hrest
      | leave id => exact hrest
  exact hevents g.walk fun _ h => h

end Table

namespace Tgf

/-- The name and the label in the line of a node. -/
def readNode (line : String) : String × String :=
  let (name, label) := Text.cut ' ' line.toList
  (.ofList name, .ofList label)

/-- The names of the two ends in the line of an edge. -/
def readEdge (line : String) : String × String :=
  let (parent, rest) := Text.cut ' ' line.toList
  (.ofList parent, .ofList (Text.cut ' ' rest).1)

def read (text : String) : Option (List (String × String)) :=
  let (nodes, edges) := Text.cut "#" (Text.lines text)
  Table.resolve (nodes.map readNode) (edges.map readEdge)

variable (g : Graph)

def nodeLine (id : Nat) : String := toString id ++ " " ++ (g.node id).label

def edgeLine : Event → Option String
  | .edge parent child => some (toString parent ++ " " ++ toString child ++ " " ++
      (g.node child).edgeLabel)
  | _ => none

theorem readNode_nodeLine (id : Nat) :
    readNode (nodeLine g id) = (toString id, (g.node id).label) := by
  have htext : (nodeLine g id).toList =
      (toString id).toList ++ ' ' :: (g.node id).label.toList := by
    simp only [nodeLine, String.toList_append, List.append_assoc]
    rfl
  rw [readNode, htext, Text.cut_append (not_mem_toString (by decide))]
  dsimp only
  rw [String.ofList_toList, String.ofList_toList]

theorem readEdge_edgeLine (event : Event) :
    (edgeLine g event).map readEdge = Table.ends (fun id => toString id) event := by
  cases event with
  | edge parent child =>
    have htext : (toString parent ++ " " ++ toString child ++ " " ++
          (g.node child).edgeLabel).toList =
        (toString parent).toList ++ ' ' :: ((toString child).toList ++
          ' ' :: (g.node child).edgeLabel.toList) := by
      simp only [String.toList_append, List.append_assoc]
      rfl
    rw [edgeLine, Option.map_some, readEdge, htext, Text.cut_append (not_mem_toString (by decide))]
    dsimp only
    rw [Text.cut_append (not_mem_toString (by decide)), String.ofList_toList, String.ofList_toList]
    rfl
  | node visit => rfl
  | leave id => rfl

/-- A line with a blank is not the one between the tables. -/
theorem nodeLine_ne (id : Nat) : nodeLine g id ≠ "#" := by
  intro h
  have hblank : ' ' ∈ (nodeLine g id).toList := by simp [nodeLine, String.toList_append]
  rw [h] at hblank
  exact absurd hblank (by decide)

theorem tgf_eq_unlines :
    Render.tgf g = Text.unlines
      ((Graph.shownBy g.walk).map (nodeLine g) ++ ["#"] ++ g.walk.filterMap (edgeLine g)) := by
  rw [Text.unlines_append, Text.unlines_append, Graph.shownBy, List.map_filterMap,
    ← Text.join_filterMap _ g.walk, ← Text.join_filterMap _ g.walk]
  · rfl
  · rintro (visit | ⟨parent, child⟩ | id) <;>
      simp [edgeLine, Render.tgfEdge, String.append_assoc]
  · rintro (visit | ⟨parent, child⟩ | id) <;>
      simp [Graph.shownId?, nodeLine, Render.tgfNode, String.append_assoc]

/-- **The Trivial Graph Format shows the edges of the walk.** -/
theorem read_tgf {g : Graph} (hg : ∀ id, (g.node id).Presentable) :
    read (Render.tgf g) = some g.shownEdges := by
  have hlines : ∀ l ∈ (Graph.shownBy g.walk).map (nodeLine g) ++ ["#"] ++
      g.walk.filterMap (edgeLine g), SingleLine l := by
    intro l hl
    simp only [List.mem_append, List.mem_map, List.mem_singleton] at hl
    rcases hl with (⟨id, -, rfl⟩ | rfl) | hl
    · exact ((singleLine_toString id).append (by decide)).append (hg id).singleLine_label
    · decide
    · obtain ⟨event, -, hevent⟩ := List.mem_filterMap.1 hl
      cases event with
      | edge parent child =>
        obtain rfl := Option.some.inj hevent
        exact ((((singleLine_toString parent).append (by decide)).append
          (singleLine_toString child)).append (by decide)).append (hg child).singleLine_edgeLabel
      | node visit => cases hevent
      | leave id => cases hevent
  have hstop : "#" ∉ (Graph.shownBy g.walk).map (nodeLine g) := by
    intro hstop
    obtain ⟨id, -, hid⟩ := List.mem_map.1 hstop
    exact nodeLine_ne g id hid
  rw [read, tgf_eq_unlines, Text.lines_unlines hlines, List.append_assoc, List.singleton_append,
    Text.cut_append hstop]
  dsimp only
  rw [List.map_map, List.map_filterMap]
  simp only [readEdge_edgeLine, Function.comp_def, readNode_nodeLine]
  exact Table.resolve_walk toString_injective g

end Tgf

end ArtifactTree
