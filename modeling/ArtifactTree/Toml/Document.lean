import ArtifactTree.Toml.Statement

/-!
# TOML documents

`read?` puts the statements of a text together to the table that they describe. A header may name
a table that a longer header passed through before, which then moves to the end of its parent; any
other name that is taken is refused.
-/

namespace ArtifactTree.Toml

/-- A document in the making: its entries, and the table that assignments go to. -/
structure Draft where
  entries : Entries := []
  current : List String := []

namespace Draft

def openTable (key : String) (entries : Entries) : Option Entries :=
  match entries.lookup key with
  | none => some (entries ++ [(key, .table .header [])])
  | some (.table .implied sub) => some (entries.without key ++ [(key, .table .header sub)])
  | some _ => none

/-- Opens one more element of the array of tables under `key`. -/
def openElement (key : String) (entries : Entries) : Option Entries :=
  match entries.lookup key with
  | none => some (entries ++ [(key, .array .header [.table .header []])])
  | some (.array .header elements) =>
    some (entries.assign key (.array .header (elements ++ [.table .header []])))
  | some _ => none

/-- Follows a header: `opened` makes what its last part names. -/
def follow (draft : Draft) (path : List String) (opened : String → Entries → Option Entries) :
    Option Draft := do
  let key ← path.getLast?
  let entries ← within .implied (fun _ => opened key) path.dropLast .header draft.entries
  return { entries, current := path }

/-- The draft after one more statement. -/
def add (draft : Draft) : Statement → Option Draft
  | .table path => draft.follow path openTable
  | .element path => draft.follow path openElement
  | .assign path key value => do
    let entries ← within .implied (fun _ => place path key value) draft.current .header
      draft.entries
    return { draft with entries }

end Draft

/-- Writes each line break as a line feed alone. -/
def unifyBreaks : List Char → List Char
  | '\r' :: '\n' :: rest => '\n' :: unifyBreaks rest
  | c :: rest => c :: unifyBreaks rest
  | [] => []

/-- Leaves out a byte order mark at the front. -/
def skipMark : List Char → List Char
  | '\ufeff' :: rest => rest
  | text => text

/-- The entries of the document that a text writes, or nothing if it is not valid TOML. -/
def read? (text : String) : Option Entries := do
  let text := unifyBreaks (skipMark text.toList)
  let statements ← statements (text.length + 1) text
  let draft ← statements.foldlM Draft.add {}
  return draft.entries

end ArtifactTree.Toml
