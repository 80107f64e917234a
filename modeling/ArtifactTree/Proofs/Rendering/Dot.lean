import ArtifactTree.Proofs.Rendering.Labels
import ArtifactTree.Proofs.Rendering.Walk
import ArtifactTree.Render.Dot

/-!
# Reading Graphviz

The lines of edges are those with two quoted texts and an arrow between them. In a quoted text a
backslash stands before every quote and every backslash of the label, so the first quote without one
is the closing quote.
-/

namespace ArtifactTree

namespace Dot

/-- The text up to the closing quote, without its escapes, and what follows the quote. -/
def unquote : List Char → Option (List Char × List Char)
  | '"' :: rest => some ([], rest)
  | '\\' :: c :: rest => (unquote rest).map fun (text, after) => (c :: text, after)
  | c :: rest => (unquote rest).map fun (text, after) => (c :: text, after)
  | [] => none

/-- The edge of a line, if it has one. -/
def readLine : List Char → Option (String × String)
  | '\t' :: '"' :: text =>
    match unquote text with
    | some (parent, ' ' :: '-' :: '>' :: ' ' :: '"' :: text) =>
      match unquote text with
      | some (child, [' ', ';']) => some (.ofList parent, .ofList child)
      | _ => none
    | _ => none
  | _ => none

def read (text : String) : List (String × String) :=
  (Text.lines text).filterMap fun line => readLine line.toList

theorem unquote_escaped (text rest : List Char) :
    unquote (text.flatMap Render.dotChar ++ '"' :: rest) = some (text, rest) := by
  induction text with
  | nil => rfl
  | cons c text ih =>
    rw [List.flatMap_cons, List.append_assoc, Render.dotChar]
    split
    · simp [unquote, ih]
    · next hc =>
      simp only [Bool.or_eq_true, decide_eq_true_eq, not_or] at hc
      simp [unquote, hc.1, hc.2, ih]

theorem toList_dotQuoted (label : String) :
    (Render.dotQuoted label).toList = '"' :: label.toList.flatMap Render.dotChar ++ ['"'] := by
  simp [Render.dotQuoted, String.toList_append]

theorem singleLine_dotQuoted {label : String} (h : SingleLine label) :
    SingleLine (Render.dotQuoted label) := by
  have hescaped : '\n' ∉ label.toList.flatMap Render.dotChar := by
    refine Text.not_mem_flatMap (fun a ha => ?_) h
    unfold Render.dotChar at ha
    split at ha <;> simpa [eq_comm] using ha
  unfold SingleLine
  rw [toList_dotQuoted]
  simpa using hescaped

section Graph

variable (g : Graph)

def line : Event → Option String
  | .node ⟨id, none, _⟩ => some ("digraph " ++ Render.dotQuoted (g.node id).label ++ " \x7b")
  | .edge parent child => some ("\t" ++ Render.dotQuoted (g.node parent).label ++ " -> " ++
      Render.dotQuoted (g.node child).label ++ " ;")
  | _ => none

/-- An edge is read from the line that it writes, and no other line has one. -/
theorem readLine_line (event : Event) :
    ((line g event).bind fun l => readLine l.toList) = g.edge? event := by
  cases event with
  | node visit =>
    obtain ⟨id, parent, lineage⟩ := visit
    cases parent with
    | none => simp [line, Graph.edge?, readLine, String.toList_append]
    | some parent => rfl
  | edge parent child =>
    simp [line, Graph.edge?, readLine, toList_dotQuoted, String.toList_append, unquote_escaped]
  | leave id => rfl

end Graph

theorem singleLine_line {g : Graph} (hg : ∀ id, (g.node id).Presentable) {event : Event}
    {l : String} (hl : line g event = some l) : SingleLine l := by
  have hquoted := fun id => singleLine_dotQuoted (hg id).singleLine_label
  cases event with
  | node visit =>
    obtain ⟨id, parent, lineage⟩ := visit
    cases parent with
    | none =>
      obtain rfl := Option.some.inj hl
      exact ((by decide : SingleLine "digraph ").append (hquoted id)).append (by decide)
    | some parent => cases hl
  | edge parent child =>
    obtain rfl := Option.some.inj hl
    have hstart := ((by decide : SingleLine "\t").append (hquoted parent)).append
      (by decide : SingleLine " -> ")
    exact (hstart.append (hquoted child)).append (by decide)
  | leave id => cases hl

/-- **The Graphviz text shows the edges of the walk.** -/
theorem read_dot {g : Graph} (hg : ∀ id, (g.node id).Presentable) :
    read (Render.dot g) = g.shownEdges := by
  have htext : Render.dot g = Text.unlines (g.walk.filterMap (line g) ++ ["\x7d"]) := by
    rw [Text.unlines_append, ← Text.join_filterMap _ g.walk]
    · rfl
    · rintro (⟨id, _ | parent, lineage⟩ | ⟨parent, child⟩ | id) <;>
        simp [line, Render.dotEdge, String.append_assoc]
  have hlines : ∀ l ∈ g.walk.filterMap (line g) ++ ["\x7d"], SingleLine l := by
    intro l hl
    rcases List.mem_append.1 hl with hl | hl
    · obtain ⟨event, -, hevent⟩ := List.mem_filterMap.1 hl
      exact singleLine_line hg hevent
    · obtain rfl := List.mem_singleton.1 hl
      decide
  rw [read, htext, Text.lines_unlines hlines, List.filterMap_append, List.filterMap_filterMap]
  simp only [readLine_line]
  exact List.append_nil _

end Dot

end ArtifactTree
