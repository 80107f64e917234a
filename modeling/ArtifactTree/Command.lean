import ArtifactTree.CommandLine
import ArtifactTree.FileTree
import ArtifactTree.Repository

/-!
# Running the command

`run` analyzes the manifests that the command line names and writes the rendered graphs in order. It
is all or nothing: if a manifest is missing or its analysis fails, nothing is written but warnings
and the first fault.
-/

namespace ArtifactTree

/-- What a run leaves behind, apart from a file that it writes. -/
structure Outcome where
  code : Nat
  stdout : String := ""
  /-- Warnings, remarks and the chain of a fault. Log lines are left out, and of a text that is not TOML
  only that it is none is told (`Cause.notToml`), not where and why. -/
  stderr : String := ""
deriving DecidableEq

namespace Command

open CommandLine (Options Stop)

/-- What came of one manifest. -/
structure Result where
  project : String
  rendered : String
  report : Report
  stats : Graph.Stats
  warnings : List String

namespace Result

def warningText (r : Result) : String :=
  String.join (r.warnings.map fun warning => "warning: " ++ warning ++ "\n")

/-- The counts of the graph and of its mediation. -/
def summaryText (r : Result) : String := "\n" ++ r.project ++ "\n" ++ r.stats.text ++ r.report.text

/-- The conflicts, one a line. -/
def conflictText (r : Result) : String :=
  if r.report.conflicts.isEmpty then "\n✓ No conflicts detected in " ++ r.project ++ "\n"
  else
    "\n⚠ " ++ toString r.report.conflicts.length ++ " conflict(s) in " ++ r.project ++ "\n" ++
      String.join (r.report.conflicts.map fun conflict => "  📦 " ++ conflict.text ++ "\n")

def remarks (r : Result) (options : Options) : String :=
  (if options.summary then r.summaryText else "") ++
    (if options.conflicts then r.conflictText else "")

end Result

/-- The repository that the options or the manifest at `path` name. -/
def repositoryRoot (options : Options) (path : Path) (settings : SettingsSection) :
    Except Fault Path :=
  match options.repository, settings.repository with
  | some root, _ => .ok root
  | none, some root => .ok (path.directory.join root)
  | none, none =>
    .error <| .configuration ("No descriptor repository configured for " ++ path.text)
      Advice.missingRepository

/-- The format that the options or the settings name, `text` if none does. -/
def outputFormat (options : Options) (settings : SettingsSection) : Except Fault Format :=
  match options.format, settings.format with
  | some format, _ => .ok format
  | none, some name =>
    match Format.parse? name with
    | some format => .ok format
    | none => .error ⟨.unknownFormat name, []⟩
  | none, none => .ok .text

/-- What is known about a manifest before its dependencies are asked for. -/
structure Prepared where
  project : Project
  repository : Repository
  format : Format
  cache : Bool

/-- Makes ready to analyze the manifest at `path`, given its text. -/
def prepare (options : Options) (path : Path) (text : String) : Except Fault Prepared := do
  let manifest ← (Manifest.parse text).mapError (·.under (.invalidManifest path))
  let project ← manifest.toProject
  let root ← repositoryRoot options path manifest.settings
  let format ← outputFormat options manifest.settings
  return {
    project, format
    repository := { root, allowMissing := options.allowMissing || manifest.settings.allowMissing }
    cache := !options.noCache && manifest.settings.cache.getD true }

def resultOf (prepared : Prepared) (analysis : Analysis) : Result where
  project := prepared.project.coordinate.text
  rendered := analysis.graph.render prepared.format
  report := analysis.report
  stats := analysis.graph.stats
  warnings :=
    if prepared.project.dependencies.isEmpty then
      [prepared.project.coordinate.text ++ " declares no dependencies"]
    else []

def analysisFault (project : Coordinate) (fault : UnfoldingFault) : Fault :=
  fault.fault.under (.resolution fault.coordinate.text ("while analyzing " ++ project.text))

variable {m : Type → Type} [Monad m]

/-- Analyzes a project that is made ready. Answers are remembered for one project at a time. -/
def analyze (storage : Storage m) (limit : Nat) (prepared : Prepared) :
    m (Except Fault Result) := do
  let plain := prepared.repository.collector storage
  let analysis ←
    if prepared.cache then
      ((prepared.project.analyze plain.cached limit).run).run' []
    else (prepared.project.analyze plain limit).run
  return match analysis with
    | .ok analysis => .ok (resultOf prepared analysis)
    | .error fault => .error (analysisFault prepared.project.coordinate fault)

def analyzeManifest (storage : Storage m) (limit : Nat) (options : Options) (path : Path) :
    m (Except Fault Result) := do
  match ← storage.read path with
  | .error fault => return .error ⟨.unreadableManifest path, [.storage fault]⟩
  | .ok text =>
    match prepare options path text with
    | .error fault => return .error fault
    | .ok prepared => analyze storage limit prepared

/-- The results before the first fault, if there is none the whole list. -/
def allResults : List (Except Fault Result) → Except Fault (List Result)
  | [] => .ok []
  | .error fault :: _ => .error fault
  | .ok result :: results => (allResults results).map (result :: ·)

def warnings (results : List (Except Fault Result)) : String :=
  String.join <| results.map fun
    | .ok result => result.warningText
    | .error _ => ""

/-- Writes the rendered graphs and the remarks that the options ask for. -/
def deliver (storage : Storage m) (options : Options) (warned : String) (results : List Result) :
    m Outcome := do
  let rendered := String.join (results.map (·.rendered))
  let remarks := String.join (results.map (·.remarks options))
  match options.output with
  | none => return { code := 0, stdout := rendered, stderr := warned ++ remarks }
  | some path =>
    match ← storage.write path rendered with
    | .ok () =>
      let success := "success: Dependency tree written to " ++ path.text ++ "\n"
      return { code := 0, stderr := warned ++ success ++ remarks }
    | .error fault =>
      let fault : Fault := ⟨.unwrittenOutput path, [.storage fault]⟩
      return { code := 1, stderr := warned ++ fault.report }

/-- The first of the paths at which there is no file. -/
def firstMissing (storage : Storage m) : List Path → m (Option Path)
  | [] => return none
  | path :: paths => do
    if ← storage.isFile path then firstMissing storage paths else return some path

def runTree (storage : Storage m) (limit : Nat) (options : Options) : m Outcome := do
  match ← firstMissing storage options.manifests with
  | some path =>
    let fault : Fault :=
      .configuration ("Manifest not found: " ++ path.text) Advice.missingManifest
    return { code := 1, stderr := fault.report }
  | none =>
    let results ← options.manifests.mapM (analyzeManifest storage limit options)
    let warned := warnings results
    match allResults results with
    | .error fault => return { code := 1, stderr := warned ++ fault.report }
    | .ok results => deliver storage options warned results

/-- Runs the command with the given arguments. The environment may name a repository. Chains of
dependencies are followed down to `limit` levels. -/
def run (storage : Storage m) (limit : Nat) (arguments : List String)
    (environment : Option String) : m Outcome :=
  match CommandLine.read arguments environment with
  | .ok options => runTree storage limit options
  | .error .information => return { code := 0 }
  | .error .usage => return { code := 2 }

/-- Runs the command in a file tree, and gives the tree that it leaves behind. The limit is never
reached: any other above the volume of the files gives the same run (`Command.run_eq_runIn`). -/
def runIn (t : FileTree) (arguments : List String) (environment : Option String) :
    Outcome × FileTree :=
  (run FileTree.storage (t.volume + 2) arguments environment).run t

end Command

end ArtifactTree
