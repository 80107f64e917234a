import ArtifactTree.Render.Label
import ArtifactTree.Render.Walk

/-!
# GraphML

An XML document with an element per node and per edge. A node is identified by its position in the
arena; labels are element texts, with the five special characters of XML written as entities.
-/

namespace ArtifactTree.Render

/-- A character as text of an element. -/
def xmlChar (c : Char) : List Char :=
  if c = '&' then "&amp;".toList
  else if c = '<' then "&lt;".toList
  else if c = '>' then "&gt;".toList
  else if c = '"' then "&quot;".toList
  else if c = '\'' then "&apos;".toList
  else [c]

/-- A text with the special characters of XML as entities. -/
def escapeXml (s : String) : String := String.ofList (s.toList.flatMap xmlChar)

def graphmlHeader : String :=
  "<?xml version=\"1.0\" encoding=\"UTF-8\"?>\n" ++
  "<graphml xmlns=\"http://graphml.graphdrawing.org/xmlns\" " ++
  "xmlns:xsi=\"http://www.w3.org/2001/XMLSchema-instance\" " ++
  "xmlns:y=\"http://www.yworks.com/xml/graphml\" " ++
  "xsi:schemaLocation=\"http://graphml.graphdrawing.org/xmlns " ++
  "http://graphml.graphdrawing.org/xmlns/1.0/graphml.xsd\">\n" ++
  "  <key for=\"node\" id=\"d0\" yfiles.type=\"nodegraphics\"/>\n" ++
  "  <key for=\"edge\" id=\"d1\" yfiles.type=\"edgegraphics\"/>\n" ++
  "  <graph id=\"dependencies\" edgedefault=\"directed\">\n"

def graphmlFooter : String := "  </graph>\n</graphml>\n"

/-- The name of a node in the document. -/
def graphmlId (id : Nat) : String := "n" ++ toString id

def graphmlNode (g : Graph) (id : Nat) : String :=
  "    <node id=\"" ++ graphmlId id ++ "\"><data key=\"d0\"><y:ShapeNode><y:NodeLabel>" ++
    escapeXml (g.node id).label ++ "</y:NodeLabel></y:ShapeNode></data></node>\n"

def graphmlEdge (g : Graph) (parent child : Nat) : String :=
  "    <edge source=\"" ++ graphmlId parent ++ "\" target=\"" ++ graphmlId child ++
    "\"><data key=\"d1\"><y:PolyLineEdge><y:EdgeLabel>" ++ escapeXml (g.node child).edgeLabel ++
    "</y:EdgeLabel></y:PolyLineEdge></data></edge>\n"

def graphml (g : Graph) : String :=
  let elements := g.walk.filterMap fun
    | .node visit => some (graphmlNode g visit.id)
    | .edge parent child => some (graphmlEdge g parent child)
    | .leave _ => none
  graphmlHeader ++ String.join elements ++ graphmlFooter

end ArtifactTree.Render
