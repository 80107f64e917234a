import ArtifactTree.Coordinate
import ArtifactTree.Path
import ArtifactTree.Toml.Shape

/-!
# Faults

A `Fault` tells what went wrong and, link by link, why. Each link is a `Cause`; all wording is in
`Cause.text` and `Advice`. A cause that the user can act on carries advice, and a message closes
with the advice of the first such cause.
-/

namespace ArtifactTree

/-- What a file operation of the system can answer instead of doing its work. -/
inductive StorageFault where
  | noSuchEntry
  | notDirectory
  | isDirectory
  | nameTooLong
  | nulInPath
  | notText
  /-- Any other answer, in the words of the system. -/
  | other (text : String)
deriving DecidableEq

def StorageFault.text : StorageFault → String
  | noSuchEntry => "No such file or directory (os error 2)"
  | notDirectory => "Not a directory (os error 20)"
  | isDirectory => "Is a directory (os error 21)"
  | nameTooLong => "File name too long (os error 36)"
  | nulInPath => "file name contained an unexpected NUL byte"
  | notText => "stream did not contain valid UTF-8"
  | other text => text

namespace Advice

/-! ## What to do about a fault -/

def coordinateForm : String :=
  "Coordinates use Maven-style identifiers:\n" ++
  "• group: dot separated, e.g. 'org.apache.commons'\n" ++
  "• name/type/classifier: letters, digits, '.', '_' or '-'\n" ++
  "• Example: group = \"com.google.guava\", name = \"guava\", type = \"jar\""

def versionForm : String :=
  "Versions are opaque strings without spaces or ':', e.g. '1.0.0' or '0.1-SNAPSHOT'"

def exclusionForm : String :=
  "Exclusions are written as 'group:name', e.g. 'commons-logging:commons-logging'"

def managementEffect : String := "Set at least one of 'version' or 'scope'"

def missingManifest : String :=
  "Could not find deptree.toml.\n\n" ++
  "Pass the manifest explicitly:\n" ++
  "• Run: deptree tree --manifest path/to/deptree.toml"

def failedResolution : String :=
  "Dependency resolution failed. Try:\n" ++
  "• Check the coordinates and versions in the manifest\n" ++
  "• Check that the descriptor repository contains\n" ++
  "<group path>/<name>/<version>/<name>-<version>.toml\n" ++
  "• Pass --allow-missing to treat artifacts without a descriptor as leaves"

def knownFormats : String := "Supported formats: text, dot, tgf, graphml, json"

def missingRepository : String :=
  "Pass --repository <DIR>, set DEPTREE_REPOSITORY, or add\n" ++
  "[settings]\n" ++
  "repository = \"path/to/repository\""

end Advice

/-- One link of a fault. -/
inductive Cause where
  /-- Something in a manifest or in the settings, with advice if there is any. -/
  | configuration (message : String) (advice : Option String)
  | resolution (dependency message : String)
  | unknownFormat (name : String)
  | unknownScope (name : String)
  | uncollected (coordinate : Coordinate)
  /-- No descriptor, with the place where it was looked for. -/
  | noDescriptor (coordinate : Coordinate) (searched : Option Path)
  | unreadableDescriptor (path : Path)
  | invalidDescriptor (path : Path)
  | unreadableManifest (path : Path)
  | invalidManifest (path : Path)
  | unparsedManifest
  /-- What is wrong with a text that is not TOML, without the place and the reason. -/
  | notToml
  | shape (fault : Toml.ShapeFault)
  | noProject
  /-- A manifest without a project section where one is needed. -/
  | projectNeeded
  | invalidDependency (group name : String)
  | invalidManagement (key : String)
  | invalidManagedScope (key : String)
  | halfExclusion (text : String)
  | unwrittenOutput (path : Path)
  | storage (fault : StorageFault)
  | other (text : String)

def Cause.text : Cause → String
  | configuration message _ => "Configuration error: " ++ message
  | resolution dependency message => "Resolution failed for '" ++ dependency ++ "': " ++ message
  | unknownFormat name => "Unsupported output format '" ++ name ++ "'"
  | unknownScope name =>
    "unknown scope '" ++ name ++ "' (expected one of compile, provided, runtime, test, system)"
  | uncollected coordinate => "failed to collect dependencies of '" ++ coordinate.text ++ "'"
  | noDescriptor coordinate _ => "no descriptor found for '" ++ coordinate.text ++ "'"
  | unreadableDescriptor path => "failed to read descriptor " ++ path.text
  | invalidDescriptor path => "invalid descriptor " ++ path.text
  | unreadableManifest path => "Failed to read manifest from " ++ path.text
  | invalidManifest path => "Invalid manifest " ++ path.text
  | unparsedManifest => "Failed to parse manifest TOML"
  | notToml => "TOML syntax error"
  | shape fault => fault.text
  | noProject => "Manifest must contain a [project] section"
  | projectNeeded => "This operation requires a [project] section in the manifest"
  | invalidDependency group name => "Invalid dependency: " ++ group ++ ":" ++ name
  | invalidManagement key => "Invalid management entry: " ++ key
  | invalidManagedScope key => "Invalid managed scope for " ++ key
  | halfExclusion text => "invalid exclusion '" ++ text ++ "', expected 'group:name'"
  | unwrittenOutput path => "Failed to write output to " ++ path.text
  | storage fault => fault.text
  | other text => text

/-- Whether the cause is one that the user is advised about, and the advice if there is any. -/
def Cause.advice? : Cause → Option (Option String)
  | configuration _ advice => some advice
  | resolution _ _ => some Advice.failedResolution
  | unknownFormat _ => some Advice.knownFormats
  | _ => none

/-- What went wrong, and the causes behind it, each the reason of the one before. -/
structure Fault where
  cause : Cause
  behind : List Cause := []

namespace Fault

/-- All links, the outermost first. -/
def causes (fault : Fault) : List Cause := fault.cause :: fault.behind

def under (fault : Fault) (cause : Cause) : Fault := ⟨cause, fault.causes⟩

/-- The advice of the first cause that may carry any. -/
def advice (fault : Fault) : Option String := (fault.causes.findSome? (·.advice?)).join

/-- The advice of the last cause that may carry any. -/
def innermostAdvice (fault : Fault) : Option String :=
  (fault.causes.reverse.findSome? (·.advice?)).join

def report (fault : Fault) : String :=
  let behind := fault.behind.map fun cause => "  caused by: " ++ cause.text ++ "\n"
  let advice := match fault.advice with
    | some advice => "\nHINT: " ++ advice ++ "\n"
    | none => ""
  "\nERROR: " ++ fault.cause.text ++ "\n" ++ String.join behind ++ advice ++ "\n"

def configuration (message advice : String) : Fault := ⟨.configuration message (some advice), []⟩

end Fault

/-- The scope with the given name, or the fault that there is none. -/
def Scope.parse (name : String) : Except Fault Scope :=
  match ofName? name with
  | some scope => .ok scope
  | none => .error ⟨.unknownScope name, []⟩

/-- The exclusion that a text writes, or the fault that a side is missing. -/
def Exclusion.parse (text : String) : Except Fault Exclusion :=
  match ofText? text with
  | some exclusion => .ok exclusion
  | none => .error ⟨.halfExclusion text, []⟩

end ArtifactTree
