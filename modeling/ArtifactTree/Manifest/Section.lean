import ArtifactTree.Fault

/-!
# Sections of a manifest

A manifest describes a project, or an artifact in a descriptor repository: who it is, what it
depends on, what it manages, and settings of the tool. Here its sections are read from the entries
of a TOML document by their shapes; whether names and versions are well formed is checked
afterwards.
-/

namespace ArtifactTree

structure ProjectSection where
  group : String
  name : String
  type : String := Coordinate.defaultType
  version : String
  classifier : Option String := none
deriving DecidableEq

/-- An entry of `[[dependencies]]`. -/
structure DependencySection where
  group : String
  name : String
  type : String := Coordinate.defaultType
  version : String
  classifier : Option String := none
  scope : Option String := none
  optional : Bool := false
  exclusions : List String := []
deriving DecidableEq

/-- An entry of `[[management]]`. -/
structure ManagementSection where
  group : String
  name : String
  type : String := Coordinate.defaultType
  classifier : Option String := none
  version : Option String := none
  scope : Option String := none
deriving DecidableEq

/-- The `[settings]` section. -/
structure SettingsSection where
  /-- The descriptor repository, seen from the directory of the manifest. -/
  repository : Option String := none
  format : Option String := none
  /-- Whether artifacts without a descriptor declare nothing. -/
  allowMissing : Bool := false
  /-- Whether answers of the repository are remembered. -/
  cache : Option Bool := none
deriving DecidableEq

structure Manifest where
  project : Option ProjectSection := none
  dependencies : List DependencySection := []
  management : List ManagementSection := []
  settings : SettingsSection := {}
deriving DecidableEq

open Toml (ShapeFault Shape Fields Value Entries)

namespace ProjectSection

def shape : Shape where
  title := "struct ProjectConfig"
  fields := [{ name := "group" }, { name := "name" }, { name := "type", mayLack := true },
    { name := "version" }, { name := "classifier" }]

def ofFields (fields : Fields) : Except ShapeFault ProjectSection := do
  return {
    group := ← fields.text "group"
    name := ← fields.text "name"
    type := (fields.text? "type").getD Coordinate.defaultType
    version := ← fields.text "version"
    classifier := fields.text? "classifier" }

def read (value : Value) : Except ShapeFault ProjectSection := do ofFields (← shape.read value)

def coordinate (s : ProjectSection) : Coordinate :=
  { group := s.group, name := s.name, type := s.type, version := s.version,
    classifier := s.classifier }

end ProjectSection

namespace DependencySection

def shape : Shape where
  title := "struct DependencyConfig"
  fields := [{ name := "group" }, { name := "name" }, { name := "type", mayLack := true },
    { name := "version" }, { name := "classifier" }, { name := "scope" },
    { name := "optional", type := .flag, mayLack := true },
    { name := "exclusions", type := .texts, mayLack := true }]

def ofFields (fields : Fields) : Except ShapeFault DependencySection := do
  return {
    group := ← fields.text "group"
    name := ← fields.text "name"
    type := (fields.text? "type").getD Coordinate.defaultType
    version := ← fields.text "version"
    classifier := fields.text? "classifier"
    scope := fields.text? "scope"
    optional := (fields.flag? "optional").getD false
    exclusions := fields.list "exclusions" }

def read (value : Value) : Except ShapeFault DependencySection := do
  ofFields (← shape.read value)

/-- The coordinate that the section asks for. -/
def coordinate (s : DependencySection) : Coordinate :=
  { group := s.group, name := s.name, type := s.type, version := s.version,
    classifier := s.classifier }

end DependencySection

namespace ManagementSection

def shape : Shape where
  title := "struct ManagementConfig"
  fields := [{ name := "group" }, { name := "name" }, { name := "type", mayLack := true },
    { name := "classifier" }, { name := "version" }, { name := "scope" }]

def ofFields (fields : Fields) : Except ShapeFault ManagementSection := do
  return {
    group := ← fields.text "group"
    name := ← fields.text "name"
    type := (fields.text? "type").getD Coordinate.defaultType
    classifier := fields.text? "classifier"
    version := fields.text? "version"
    scope := fields.text? "scope" }

def read (value : Value) : Except ShapeFault ManagementSection := do
  ofFields (← shape.read value)

/-- `group:name:type[:classifier]`, the artifact that the section manages. -/
def key (s : ManagementSection) : String :=
  let key := s.group ++ ":" ++ s.name ++ ":" ++ s.type
  match s.classifier with
  | none => key
  | some classifier => key ++ ":" ++ classifier

end ManagementSection

namespace SettingsSection

def shape : Shape where
  title := "struct SettingsConfig"
  fields := [{ name := "repository", type := .path }, { name := "format" },
    { name := "allow-missing", type := .flag, alias? := some "allow_missing", mayLack := true },
    { name := "cache", type := .flag }]

def ofFields (fields : Fields) : SettingsSection where
  repository := fields.text? "repository"
  format := fields.text? "format"
  allowMissing := (fields.flag? "allow-missing").getD false
  cache := fields.flag? "cache"

def read (value : Value) : Except ShapeFault SettingsSection :=
  return ofFields (← shape.read value)

end SettingsSection

namespace Manifest

/-- Reads one entry of a document. Unknown entries do not count. -/
def readEntry (m : Manifest) (key : String) (value : Value) : Except ShapeFault Manifest :=
  match key with
  | "project" => do return { m with project := some (← ProjectSection.read value) }
  | "dependencies" => do
    return { m with dependencies := ← (← value.asItems).mapM DependencySection.read }
  | "management" => do
    return { m with management := ← (← value.asItems).mapM ManagementSection.read }
  | "settings" => do return { m with settings := ← SettingsSection.read value }
  | _ => .ok m

/-- Reads the entries of a document in order, up to the first fault. -/
def ofEntries (entries : Entries) : Except ShapeFault Manifest :=
  entries.foldlM (fun m (key, value) => m.readEntry key value) {}

end Manifest

end ArtifactTree
