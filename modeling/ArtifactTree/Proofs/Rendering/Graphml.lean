import ArtifactTree.Proofs.Rendering.Tables
import ArtifactTree.Render.Graphml

/-!
# Reading GraphML

Each element stands on a line of its own, which starts as no other line does. A label reaches to the
next angle bracket, since escaping leaves none in it, and its entities are decoded in one pass from
left to right.
-/

namespace ArtifactTree

/-! ## Entities -/

/-- A text with the five entities of XML decoded, from left to right. -/
def unescapeXml : List Char → List Char
  | '&' :: 'a' :: 'm' :: 'p' :: ';' :: rest => '&' :: unescapeXml rest
  | '&' :: 'l' :: 't' :: ';' :: rest => '<' :: unescapeXml rest
  | '&' :: 'g' :: 't' :: ';' :: rest => '>' :: unescapeXml rest
  | '&' :: 'q' :: 'u' :: 'o' :: 't' :: ';' :: rest => '"' :: unescapeXml rest
  | '&' :: 'a' :: 'p' :: 'o' :: 's' :: ';' :: rest => '\'' :: unescapeXml rest
  | c :: rest => c :: unescapeXml rest
  | [] => []

theorem unescapeXml_cons {c : Char} (hc : c ≠ '&') (rest : List Char) :
    unescapeXml (c :: rest) = c :: unescapeXml rest := by
  conv_lhs => unfold unescapeXml
  split <;> simp_all

theorem unescapeXml_flatMap (text : List Char) :
    unescapeXml (text.flatMap Render.xmlChar) = text := by
  induction text with
  | nil => rfl
  | cons c text ih =>
    rw [List.flatMap_cons, Render.xmlChar]
    split_ifs with hamp hlt hgt hquot hapos
    · simp [unescapeXml, ih, hamp]
    · simp [unescapeXml, ih, hlt]
    · simp [unescapeXml, ih, hgt]
    · simp [unescapeXml, ih, hquot]
    · simp [unescapeXml, ih, hapos]
    · rw [List.singleton_append, unescapeXml_cons hamp, ih]

/-- Markup is written for no character. -/
theorem not_mem_xmlChar {c : Char} (hc : c ∈ ['<', '>', '"', '\'']) (d : Char) :
    c ∉ Render.xmlChar d := by
  have hfree : ∀ c ∈ ['<', '>', '"', '\''], c ∉ "&amp;".toList ∧ c ∉ "&lt;".toList ∧
      c ∉ "&gt;".toList ∧ c ∉ "&quot;".toList ∧ c ∉ "&apos;".toList := by simp
  obtain ⟨hamp, hlt, hgt, hquot, hapos⟩ := hfree c hc
  unfold Render.xmlChar
  split_ifs
  · exact hamp
  · exact hlt
  · exact hgt
  · exact hquot
  · exact hapos
  · rw [List.mem_singleton]
    rintro rfl
    simp_all

theorem eq_of_break_mem_xmlChar {c : Char} (h : '\n' ∈ Render.xmlChar c) : c = '\n' := by
  unfold Render.xmlChar at h
  split_ifs at h
  all_goals simp at h
  exact h.symm

theorem toList_escapeXml (text : String) :
    (Render.escapeXml text).toList = text.toList.flatMap Render.xmlChar := String.toList_ofList

theorem not_mem_escapeXml {c : Char} (hc : c ∈ ['<', '>', '"', '\'']) (text : String) :
    c ∉ (Render.escapeXml text).toList := by
  rw [toList_escapeXml]
  intro h
  obtain ⟨d, -, hmem⟩ := List.mem_flatMap.1 h
  exact not_mem_xmlChar hc d hmem

theorem lt_not_mem_escapeXml (text : String) : '<' ∉ (Render.escapeXml text).toList :=
  not_mem_escapeXml List.mem_cons_self text

theorem singleLine_escapeXml {text : String} (h : SingleLine text) :
    SingleLine (Render.escapeXml text) := by
  unfold SingleLine
  rw [toList_escapeXml]
  exact Text.not_mem_flatMap (fun _ => eq_of_break_mem_xmlChar) h

/-! ## Elements -/

namespace Graphml

/-- The name and the label of the node in a line, if it has one. -/
def readNode (line : String) : Option (String × String) := do
  let text ← line.toList.dropPrefix? "    <node id=\"".toList
  let (name, text) := Text.cut '"' text
  let text ← text.dropPrefix? "><data key=\"d0\"><y:ShapeNode><y:NodeLabel>".toList
  return (.ofList name, .ofList (unescapeXml (Text.cut '<' text).1))

/-- The names of the two ends of the edge in a line, if it has one. -/
def readEdge (line : String) : Option (String × String) := do
  let text ← line.toList.dropPrefix? "    <edge source=\"".toList
  let (parent, text) := Text.cut '"' text
  let text ← text.dropPrefix? " target=\"".toList
  return (.ofList parent, .ofList (Text.cut '"' text).1)

def read (text : String) : Option (List (String × String)) :=
  Table.resolve ((Text.lines text).filterMap readNode) ((Text.lines text).filterMap readEdge)

/-! ## The lines around the elements -/

/-- The line that opens the document. Only its start tells it from the line of an element. -/
def rootLine : String :=
  "<graphml xmlns=\"http://graphml.graphdrawing.org/xmlns\" " ++
  ("xmlns:xsi=\"http://www.w3.org/2001/XMLSchema-instance\" " ++
  ("xmlns:y=\"http://www.yworks.com/xml/graphml\" " ++
  ("xsi:schemaLocation=\"http://graphml.graphdrawing.org/xmlns " ++
  "http://graphml.graphdrawing.org/xmlns/1.0/graphml.xsd\">")))

def headerLines : List String :=
  ["<?xml version=\"1.0\" encoding=\"UTF-8\"?>", rootLine,
    "  <key for=\"node\" id=\"d0\" yfiles.type=\"nodegraphics\"/>",
    "  <key for=\"edge\" id=\"d1\" yfiles.type=\"edgegraphics\"/>",
    "  <graph id=\"dependencies\" edgedefault=\"directed\">"]

def footerLines : List String := ["  </graph>", "</graphml>"]

theorem graphmlHeader_eq : Render.graphmlHeader = Text.unlines headerLines := by decide +kernel

theorem graphmlFooter_eq : Render.graphmlFooter = Text.unlines footerLines := by decide +kernel

theorem singleLine_rootLine : SingleLine rootLine :=
  .append (by decide) (.append (by decide) (.append (by decide) (.append (by decide) (by decide))))

theorem readNode_rootLine : readNode rootLine = none := by
  unfold readNode rootLine
  rw [String.toList_append, Text.dropPrefix?_eq_none (by decide)]
  rfl

theorem readEdge_rootLine : readEdge rootLine = none := by
  unfold readEdge rootLine
  rw [String.toList_append, Text.dropPrefix?_eq_none (by decide)]
  rfl

/-- The lines around the elements have no node and no edge. -/
theorem frame_lines : ∀ l ∈ headerLines ++ footerLines,
    SingleLine l ∧ readNode l = none ∧ readEdge l = none := by
  simp only [headerLines, footerLines, List.cons_append, List.nil_append, List.forall_mem_cons]
  refine ⟨by decide +kernel, ⟨singleLine_rootLine, readNode_rootLine, readEdge_rootLine⟩, ?_⟩
  exact ⟨by decide +kernel, by decide +kernel, by decide +kernel, by decide +kernel,
    by decide +kernel, by simp⟩

/-! ## The elements -/

theorem quote_not_mem_graphmlId (id : Nat) : '"' ∉ (Render.graphmlId id).toList := by
  have hid : '"' ∉ (toString id).toList := not_mem_toString (by decide)
  rw [Render.graphmlId, String.toList_append, List.mem_append, not_or]
  exact ⟨by decide, hid⟩

theorem graphmlId_injective : Function.Injective Render.graphmlId := by
  intro n n' h
  have htext := congrArg String.toList h
  rw [Render.graphmlId, Render.graphmlId, String.toList_append, String.toList_append] at htext
  exact toString_injective (String.toList_inj.1 (List.append_cancel_left htext))

section Graph

variable (g : Graph)

def nodeLine (id : Nat) : String :=
  "    <node id=\"" ++ Render.graphmlId id ++ "\"><data key=\"d0\"><y:ShapeNode><y:NodeLabel>" ++
    Render.escapeXml (g.node id).label ++ "</y:NodeLabel></y:ShapeNode></data></node>"

def edgeLine (parent child : Nat) : String :=
  "    <edge source=\"" ++ Render.graphmlId parent ++ "\" target=\"" ++ Render.graphmlId child ++
    "\"><data key=\"d1\"><y:PolyLineEdge><y:EdgeLabel>" ++
    Render.escapeXml (g.node child).edgeLabel ++ "</y:EdgeLabel></y:PolyLineEdge></data></edge>"

def line : Event → Option String
  | .node visit => some (nodeLine g visit.id)
  | .edge parent child => some (edgeLine g parent child)
  | .leave _ => none

theorem readNode_nodeLine (id : Nat) :
    readNode (nodeLine g id) = some (Render.graphmlId id, (g.node id).label) := by
  have hquote : "\"><data key=\"d0\"><y:ShapeNode><y:NodeLabel>".toList =
      '"' :: "><data key=\"d0\"><y:ShapeNode><y:NodeLabel>".toList := rfl
  have hclose : "</y:NodeLabel></y:ShapeNode></data></node>".toList =
      '<' :: "/y:NodeLabel></y:ShapeNode></data></node>".toList := rfl
  unfold readNode nodeLine
  simp only [String.toList_append, List.append_assoc]
  rw [List.dropPrefix?_append_of_beq _ (beq_self_eq_true _), hquote, List.cons_append,
    Option.bind_eq_bind, Option.bind_some, Text.cut_append (quote_not_mem_graphmlId id)]
  dsimp only
  rw [List.dropPrefix?_append_of_beq _ (beq_self_eq_true _), hclose, Option.bind_some,
    Text.cut_append (lt_not_mem_escapeXml _), toList_escapeXml, unescapeXml_flatMap,
    String.ofList_toList, String.ofList_toList]
  rfl

theorem readEdge_edgeLine (parent child : Nat) :
    readEdge (edgeLine g parent child) =
      some (Render.graphmlId parent, Render.graphmlId child) := by
  have hquote : "\" target=\"".toList = '"' :: " target=\"".toList := rfl
  have hclose : "\"><data key=\"d1\"><y:PolyLineEdge><y:EdgeLabel>".toList =
      '"' :: "><data key=\"d1\"><y:PolyLineEdge><y:EdgeLabel>".toList := rfl
  unfold readEdge edgeLine
  simp only [String.toList_append, List.append_assoc]
  rw [List.dropPrefix?_append_of_beq _ (beq_self_eq_true _), hquote, List.cons_append,
    Option.bind_eq_bind, Option.bind_some, Text.cut_append (quote_not_mem_graphmlId parent)]
  dsimp only
  rw [List.dropPrefix?_append_of_beq _ (beq_self_eq_true _), hclose, List.cons_append,
    Option.bind_some, Text.cut_append (quote_not_mem_graphmlId child), String.ofList_toList,
    String.ofList_toList]
  rfl

theorem readNode_edgeLine (parent child : Nat) : readNode (edgeLine g parent child) = none := by
  unfold readNode edgeLine
  simp only [String.toList_append, List.append_assoc]
  rw [Text.dropPrefix?_eq_none (by decide)]
  rfl

theorem readEdge_nodeLine (id : Nat) : readEdge (nodeLine g id) = none := by
  unfold readEdge nodeLine
  simp only [String.toList_append, List.append_assoc]
  rw [Text.dropPrefix?_eq_none (by decide)]
  rfl

theorem bind_readNode_line (event : Event) :
    (line g event).bind readNode =
      (Graph.shownId? event).map fun id => (Render.graphmlId id, (g.node id).label) := by
  cases event with
  | node visit =>
    rw [line, Option.bind_some, readNode_nodeLine]
    rfl
  | edge parent child =>
    rw [line, Option.bind_some, readNode_edgeLine]
    rfl
  | leave id => rfl

theorem bind_readEdge_line (event : Event) :
    (line g event).bind readEdge = Table.ends Render.graphmlId event := by
  cases event with
  | node visit =>
    rw [line, Option.bind_some, readEdge_nodeLine]
    rfl
  | edge parent child =>
    rw [line, Option.bind_some, readEdge_edgeLine]
    rfl
  | leave id => rfl

theorem graphml_eq_unlines :
    Render.graphml g = Text.unlines (headerLines ++ g.walk.filterMap (line g) ++ footerLines) := by
  rw [Text.unlines_append, Text.unlines_append, ← graphmlHeader_eq, ← graphmlFooter_eq,
    ← Text.join_filterMap _ g.walk]
  · rfl
  · rintro (visit | ⟨parent, child⟩ | id)
    · have hend : "</y:NodeLabel></y:ShapeNode></data></node>\n" =
          "</y:NodeLabel></y:ShapeNode></data></node>" ++ "\n" := by decide +kernel
      unfold line nodeLine
      rw [Option.map_some, String.append_assoc, ← hend]
      rfl
    · have hend : "</y:EdgeLabel></y:PolyLineEdge></data></edge>\n" =
          "</y:EdgeLabel></y:PolyLineEdge></data></edge>" ++ "\n" := by decide +kernel
      unfold line edgeLine
      rw [Option.map_some, String.append_assoc, ← hend]
      rfl
    · rfl

end Graph

theorem singleLine_line {g : Graph} (hg : ∀ id, (g.node id).Presentable) {event : Event}
    {l : String} (hl : line g event = some l) : SingleLine l := by
  have hid : ∀ id, SingleLine (Render.graphmlId id) := fun id =>
    (by decide : SingleLine "n").append (singleLine_toString id)
  have hstart : SingleLine "    <node id=\"" ∧ SingleLine "    <edge source=\"" := by decide
  cases event with
  | node visit =>
    obtain rfl := Option.some.inj hl
    have hlabel := singleLine_escapeXml (hg visit.id).singleLine_label
    exact (((hstart.1.append (hid visit.id)).append (by decide)).append hlabel).append (by decide)
  | edge parent child =>
    obtain rfl := Option.some.inj hl
    have hlabel := singleLine_escapeXml (hg child).singleLine_edgeLabel
    exact (((((hstart.2.append (hid parent)).append (by decide)).append (hid child)).append
      (by decide)).append hlabel).append (by decide)
  | leave id => cases hl

/-- **GraphML shows the edges of the walk.** -/
theorem read_graphml {g : Graph} (hg : ∀ id, (g.node id).Presentable) :
    read (Render.graphml g) = some g.shownEdges := by
  have hlines : ∀ l ∈ headerLines ++ g.walk.filterMap (line g) ++ footerLines, SingleLine l := by
    intro l hl
    simp only [List.mem_append] at hl
    rcases hl with (hl | hl) | hl
    · exact (frame_lines l (List.mem_append_left _ hl)).1
    · obtain ⟨event, -, hevent⟩ := List.mem_filterMap.1 hl
      exact singleLine_line hg hevent
    · exact (frame_lines l (List.mem_append_right _ hl)).1
  have hframe : ∀ {read : String → Option (String × String)},
      (∀ l ∈ headerLines ++ footerLines, read l = none) →
      headerLines.filterMap read = [] ∧ footerLines.filterMap read = [] := by
    intro read hread
    simp only [List.mem_append] at hread
    exact ⟨List.filterMap_eq_nil_iff.2 fun l hl => hread l (.inl hl),
      List.filterMap_eq_nil_iff.2 fun l hl => hread l (.inr hl)⟩
  obtain ⟨hnodesBefore, hnodesBehind⟩ := hframe fun l hl => (frame_lines l hl).2.1
  obtain ⟨hedgesBefore, hedgesBehind⟩ := hframe fun l hl => (frame_lines l hl).2.2
  rw [read, graphml_eq_unlines, Text.lines_unlines hlines]
  simp only [List.filterMap_append, hnodesBefore, hnodesBehind, hedgesBefore, hedgesBehind,
    List.nil_append, List.append_nil, List.filterMap_filterMap, bind_readNode_line,
    bind_readEdge_line]
  rw [← List.map_filterMap]
  exact Table.resolve_walk graphmlId_injective g

end Graphml

end ArtifactTree
