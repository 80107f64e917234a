import ArtifactTree.Decimal.Shortest
import ArtifactTree.Lookup
import ArtifactTree.Text.Quoted

/-!
# TOML values

The value of a document as the reader of a shape sees it: scalars, arrays and tables whose entries
keep their order. Tables and arrays remember how they were written, because that decides whether a
later header or dotted key may add to them.
-/

namespace ArtifactTree.Toml

/-- How a table came to be. -/
inductive TableKind where
  /-- Written between braces: complete. -/
  | inline
  /-- The document itself, or opened by a header of its own. -/
  | header
  /-- Passed through by a longer header. -/
  | implied
  /-- Passed through by a dotted key. -/
  | dotted
deriving DecidableEq

/-- How an array came to be. -/
inductive ArrayKind where
  /-- Written between brackets: complete. -/
  | inline
  /-- A list of tables, each opened by a header in double brackets. -/
  | header
deriving DecidableEq

/-- A TOML value. Of a date or a time only its presence is kept. -/
inductive Value where
  | string (text : String)
  | integer (value : Int)
  | float (value : Decimal.Binary)
  | boolean (value : Bool)
  | moment
  | array (kind : ArrayKind) (items : List Value)
  | table (kind : TableKind) (entries : List (String × Value))
deriving Inhabited

/-- The entries of a table, in order. -/
abbrev Entries := List (String × Value)

def Entries.assign (entries : Entries) (key : String) (value : Value) : Entries :=
  Lookup.replaced key value entries

def Entries.without (entries : Entries) (key : String) : Entries :=
  entries.filter fun entry => entry.1 != key

/-- The value as a message about its type shows it. A date or a time counts as a map. -/
def Value.description : Value → String
  | string text => "string " ++ Text.quoted text
  | integer value => "integer `" ++ toString value ++ "`"
  | float value => "floating point `" ++ value.text ++ "`"
  | boolean value => "boolean `" ++ (if value then "true" else "false") ++ "`"
  | moment => "map"
  | array _ _ => "sequence"
  | table _ _ => "map"

end ArtifactTree.Toml
