import ArtifactTree.Render.Dot
import ArtifactTree.Render.Graphml
import ArtifactTree.Render.Record
import ArtifactTree.Render.Text
import ArtifactTree.Render.Tgf
import ArtifactTree.Text.Blank

/-!
# Output formats

The five formats, their names, and the choice of a renderer by format.
-/

namespace ArtifactTree

/-- A form in which a graph is written. -/
inductive Format where
  | text
  | dot
  | tgf
  | graphml
  | json
deriving DecidableEq

namespace Format

/-- The formats in canonical order. -/
def all : List Format := [text, dot, tgf, graphml, json]

def name : Format → String
  | text => "text"
  | dot => "dot"
  | tgf => "tgf"
  | graphml => "graphml"
  | json => "json"

def ofName? (text : String) : Option Format := all.find? fun format => format.name == text

/-- Reads a name with blanks around it and with ASCII letters in either case. -/
def parse? (text : String) : Option Format :=
  ofName? (.ofList ((Text.trimmed text.toList).map (·.toLower)))

/-- What a caller is told about a name that is no format. -/
def unsupported (text : String) : String :=
  "unsupported output format '" ++ text ++ "' (expected one of text, dot, tgf, graphml, json)"

theorem ofName?_name (format : Format) : ofName? format.name = some format := by
  cases format <;> decide

end Format

def Graph.render (g : Graph) : Format → String
  | .text => Render.text g
  | .dot => Render.dot g
  | .tgf => Render.tgf g
  | .graphml => Render.graphml g
  | .json => Render.json g

end ArtifactTree
