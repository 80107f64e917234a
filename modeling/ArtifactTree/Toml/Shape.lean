import ArtifactTree.Toml.Document

/-!
# Shapes of TOML tables

A `Shape` lists the fields of a section and the type of each. Reading a value by a shape gives its
`Fields` sorted by type, or the first fault in the order of the document; unknown keys do not
count. A section may also be written as an array of its fields in order.
-/

namespace ArtifactTree.Toml

/-- Why a valid document does not have the expected shape. -/
inductive ShapeFault where
  | invalidType (found : Value) (expected : String)
  | missingField (name : String)
  | duplicateField (name : String)
  /-- An array of fields ends before the field at position `found`. -/
  | invalidLength (found : Nat) (expected : String) (fields : Nat)

def ShapeFault.text : ShapeFault → String
  | invalidType found expected =>
    "invalid type: " ++ found.description ++ ", expected " ++ expected
  | missingField name => "missing field `" ++ name ++ "`"
  | duplicateField name => "duplicate field `" ++ name ++ "`"
  | invalidLength found expected fields =>
    "invalid length " ++ toString found ++ ", expected " ++ expected ++ " with " ++
      toString fields ++ " elements"

inductive FieldType where
  | text
  /-- A text that names a file or directory. -/
  | path
  | flag
  | texts
deriving DecidableEq

structure FieldSpec where
  name : String
  type : FieldType := .text
  /-- Another name of the field. -/
  alias? : Option String := none
  /-- Whether an array of fields may end before this one. -/
  mayLack : Bool := false

/-- The fields of a section, in order. -/
structure Shape where
  title : String
  fields : List FieldSpec

/-- The fields that a section has, sorted by type. -/
structure Fields where
  texts : List (String × String) := []
  flags : List (String × Bool) := []
  lists : List (String × List String) := []

def Value.asText (expected : String) : Value → Except ShapeFault String
  | string text => .ok text
  | found => .error (.invalidType found expected)

def Value.asFlag : Value → Except ShapeFault Bool
  | boolean flag => .ok flag
  | found => .error (.invalidType found "a boolean")

def Value.asItems : Value → Except ShapeFault (List Value)
  | array _ items => .ok items
  | found => .error (.invalidType found "a sequence")

namespace Fields

def has (fields : Fields) (name : String) : Bool :=
  (fields.texts.lookup name).isSome || (fields.flags.lookup name).isSome ||
    (fields.lists.lookup name).isSome

def add (fields : Fields) (field : FieldSpec) (value : Value) : Except ShapeFault Fields :=
  match field.type with
  | .text => do
    return { fields with texts := (field.name, ← value.asText "a string") :: fields.texts }
  | .path => do
    return { fields with texts := (field.name, ← value.asText "path string") :: fields.texts }
  | .flag => do return { fields with flags := (field.name, ← value.asFlag) :: fields.flags }
  | .texts => do
    let list ← (← value.asItems).mapM (·.asText "a string")
    return { fields with lists := (field.name, list) :: fields.lists }

def text? (fields : Fields) (name : String) : Option String := fields.texts.lookup name

def text (fields : Fields) (name : String) : Except ShapeFault String :=
  match fields.text? name with
  | some text => .ok text
  | none => .error (.missingField name)

def flag? (fields : Fields) (name : String) : Option Bool := fields.flags.lookup name

/-- A list of texts, empty if absent. -/
def list (fields : Fields) (name : String) : List String := (fields.lists.lookup name).getD []

end Fields

namespace Shape

/-- The field that a key names. -/
def field? (shape : Shape) (key : String) : Option FieldSpec :=
  shape.fields.find? fun field => field.name == key || field.alias? == some key

/-- Reads the entries of a table, which may name a field only once. -/
def readEntries (shape : Shape) (entries : Entries) : Except ShapeFault Fields :=
  entries.foldlM (fun fields (key, value) =>
    match shape.field? key with
    | none => .ok fields
    | some field =>
      if fields.has field.name then .error (.duplicateField field.name)
      else fields.add field value) {}

/-- Reads an array of fields in order; items behind the last field do not count. -/
def readItems (shape : Shape) (items : List Value) : Except ShapeFault Fields :=
  (shape.fields.zipIdx).foldlM (fun fields (field, position) =>
    match items[position]? with
    | some value => fields.add field value
    | none =>
      if field.mayLack then .ok fields
      else .error (.invalidLength position shape.title shape.fields.length)) {}

/-- Reads a value by the shape. A date or a time is a table without any known key. -/
def read (shape : Shape) : Value → Except ShapeFault Fields
  | .table _ entries => shape.readEntries entries
  | .moment => .ok {}
  | .array _ items => shape.readItems items
  | found => .error (.invalidType found shape.title)

end Shape

end ArtifactTree.Toml
