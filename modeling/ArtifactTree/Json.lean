/-!
# JSON texts

The values that a record needs, and their indented text: two blanks a level, one member a line, and
an empty list on one line. A string escapes quotes, backslashes and control characters of ASCII.
-/

namespace ArtifactTree

/-- A JSON value whose members keep their order. -/
inductive Json where
  | string (text : String)
  | boolean (value : Bool)
  | list (items : List Json)
  | object (members : List (String × Json))

namespace Json

def stringChar (c : Char) : List Char :=
  if c = '"' then ['\\', '"']
  else if c = '\\' then ['\\', '\\']
  else if c = '\x08' then ['\\', 'b']
  else if c = '\x0c' then ['\\', 'f']
  else if c = '\n' then ['\\', 'n']
  else if c = '\r' then ['\\', 'r']
  else if c = '\t' then ['\\', 't']
  else if c < ' ' then
    ['\\', 'u', '0', '0', Nat.digitChar (c.toNat / 16), Nat.digitChar (c.toNat % 16)]
  else [c]

def stringText (text : String) : String :=
  "\"" ++ String.ofList (text.toList.flatMap stringChar) ++ "\""

/-- The start of a line at a level. -/
def lineStart (level : Nat) : String := "\n" ++ String.ofList (List.replicate (2 * level) ' ')

mutual

/-- The text of a value that stands at a level. -/
def render (level : Nat) : Json → String
  | string text => stringText text
  | boolean value => if value then "true" else "false"
  | list [] => "[]"
  | list (item :: items) =>
    "[" ++ lineStart (level + 1) ++ render (level + 1) item ++ renderItems (level + 1) items ++
      lineStart level ++ "]"
  | object [] => "\x7b\x7d"
  | object ((key, value) :: members) =>
    "\x7b" ++ lineStart (level + 1) ++ stringText key ++ ": " ++ render (level + 1) value ++
      renderMembers (level + 1) members ++ lineStart level ++ "\x7d"

def renderItems (level : Nat) : List Json → String
  | [] => ""
  | item :: items => "," ++ lineStart level ++ render level item ++ renderItems level items

def renderMembers (level : Nat) : List (String × Json) → String
  | [] => ""
  | (key, value) :: members =>
    "," ++ lineStart level ++ stringText key ++ ": " ++ render level value ++
      renderMembers level members

end

def text (value : Json) : String := value.render 0 ++ "\n"

end Json

end ArtifactTree
