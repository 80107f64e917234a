import ArtifactTree.Render.Label
import ArtifactTree.Render.Walk

/-!
# The text tree

One line per node, in front of its label three columns per level: a bar where an ancestor has
siblings still to come, and a branch or a corner at the node itself.
-/

namespace ArtifactTree.Render

/-- The column of an ancestor: a bar unless it is the last of its siblings. -/
def ancestorColumn (last : Bool) : String := if last then "   " else "|  "

/-- The column of the node itself. -/
def branchColumn (last : Bool) : String := if last then "\\- " else "+- "

/-- The columns in front of a label. -/
def indent : (lineage : List Bool) → String
  | [] => ""
  | [last] => branchColumn last
  | last :: lineage => ancestorColumn last ++ indent lineage

def textLine (g : Graph) (visit : Visit) : String :=
  indent visit.lineage ++ (g.node visit.id).label ++ "\n"

def text (g : Graph) : String :=
  String.join <| g.walk.filterMap fun
    | .node visit => some (textLine g visit)
    | _ => none

end ArtifactTree.Render
