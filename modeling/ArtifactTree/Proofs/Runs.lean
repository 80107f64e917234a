import ArtifactTree.Command
import ArtifactTree.Proofs.Consistency
import ArtifactTree.Proofs.Files
import ArtifactTree.Proofs.Lockstep
import Mathlib.Data.List.Forall2

/-!
# Runs over several manifests

A run looks for its manifests, analyzes them and writes what came of it, in this order. Only the last
part changes a file. So each manifest is analyzed in the file tree from which the run started
(`run_mapM`), as it would be alone, and a run that does not come to the last part changes nothing.

Main statement: `run_allOrNothing`.
-/

namespace ArtifactTree

/-! ## Computations that change no file -/

namespace FileTree

/-- The computation leaves every file tree as it is. -/
def Unchanging {α : Type} (x : StateM FileTree α) : Prop := ∀ t, (x.run t).2 = t

namespace Unchanging

variable {α β : Type}

theorem run_eq {x : StateM FileTree α} (h : Unchanging x) (t : FileTree) :
    x.run t = ((x.run t).1, t) := Prod.ext rfl (h t)

theorem pure (a : α) : Unchanging (pure a : StateM FileTree α) := fun _ => rfl

theorem bind {x : StateM FileTree α} {f : α → StateM FileTree β} (hx : Unchanging x)
    (hf : ∀ a, Unchanging (f a)) : Unchanging (x >>= f) := by
  intro t
  have hrun : (x >>= f).run t = (f (x.run t).1).run (x.run t).2 := rfl
  rw [hrun, hx t]
  exact hf _ t

/-- All computations of a list start from the same tree. -/
theorem run_mapM {f : α → StateM FileTree β} (hf : ∀ a, Unchanging (f a)) (as : List α)
    (t : FileTree) : (as.mapM f).run t = (as.map fun a => ((f a).run t).1, t) := by
  induction as with
  | nil => rfl
  | cons a as ih =>
    have hrun : ((a :: as).mapM f).run t =
        let (b, u) := (f a).run t
        let (bs, u) := (as.mapM f).run u
        (b :: bs, u) := by
      rw [List.mapM_cons]
      rfl
    rw [hrun, (hf a).run_eq t, List.map_cons]
    dsimp only
    rw [ih]

end Unchanging

theorem unchanging_collect (r : Repository) (c : Coordinate) :
    Unchanging ((r.collector storage).collect c) := by
  refine .bind (fun _ => rfl) fun found => ?_
  split
  · refine .bind (fun _ => rfl) fun answer => ?_
    cases answer <;> exact .pure _
  · split <;> exact .pure _

end FileTree

namespace Command

open CommandLine (Options)
open FileTree (Unchanging)

variable {limit : Nat} {options : Options} {t : FileTree}

/-- An analysis reads files only, whether it remembers answers or not. -/
theorem unchanging_analyze (limit : Nat) (prepared : Prepared) :
    Unchanging (analyze FileTree.storage limit prepared) := by
  let plain := prepared.repository.collector FileTree.storage
  have hplain : ∀ t, ∀ {u : FileTree × Unit}, u.1 = t → ∀ c,
      (exec (plain.collect c) u).2.1 = t := by
    rintro _ ⟨t, _⟩ rfl c
    exact FileTree.unchanging_collect prepared.repository c t
  have hcached : ∀ t, ∀ {u : Collector.Cache × FileTree × Unit}, u.2.1 = t → ∀ c,
      (exec (plain.cached.collect c) u).2.2.1 = t :=
    fun t => Collector.keeps_cached (fun u : FileTree × Unit => u.1 = t) (hplain t)
  unfold analyze
  dsimp only
  split
  · refine .bind (fun t => ?_) fun analysis => .pure _
    have hstart : (([], t, ()) : Collector.Cache × FileTree × Unit).2.1 = t := rfl
    exact Collector.keeps_analyze (fun u : Collector.Cache × FileTree × Unit => u.2.1 = t)
      (hcached t) hstart prepared.project limit
  · refine .bind (fun t => ?_) fun analysis => .pure _
    have hstart : ((t, ()) : FileTree × Unit).1 = t := rfl
    exact Collector.keeps_analyze (fun u : FileTree × Unit => u.1 = t) (hplain t) hstart
      prepared.project limit

theorem unchanging_analyzeManifest (limit : Nat) (options : Options) (path : Path) :
    Unchanging (analyzeManifest FileTree.storage limit options path) := by
  refine .bind (fun _ => rfl) fun text => ?_
  cases text with
  | error fault => exact .pure _
  | ok text =>
    dsimp only
    cases prepare options path text with
    | error fault => exact .pure _
    | ok prepared => exact unchanging_analyze limit prepared

/-! ## The parts of a run -/

theorem run_firstMissing (t : FileTree) (paths : List Path) :
    (firstMissing FileTree.storage paths).run t = (paths.find? fun path => !t.isFile path, t) := by
  induction paths with
  | nil => rfl
  | cons path paths ih =>
    have hrun : (firstMissing FileTree.storage (path :: paths)).run t =
        (if t.isFile path then firstMissing FileTree.storage paths else pure (some path)).run t := rfl
    rw [hrun, List.find?_cons]
    cases t.isFile path with
    | true => exact ih
    | false => rfl

/-- What the analysis of the manifest at a path comes to. -/
def analysisIn (t : FileTree) (limit : Nat) (options : Options) (path : Path) :
    Except Fault Result :=
  ((analyzeManifest FileTree.storage limit options path).run t).1

def missingFault (path : Path) : Fault :=
  .configuration ("Manifest not found: " ++ path.text) Advice.missingManifest

/-- A run that misses a manifest tells the first one. -/
theorem run_of_missing {path : Path}
    (h : options.manifests.find? (fun path => !t.isFile path) = some path) :
    (runTree FileTree.storage limit options).run t =
      ({ code := 1, stderr := (missingFault path).report }, t) := by
  rw [runTree, StateT.run_bind, run_firstMissing, h]
  rfl

section Found

variable (h : options.manifests.find? (fun path => !t.isFile path) = none)
include h

/-- A run that finds its manifests analyzes all of them. -/
theorem run_of_found :
    (runTree FileTree.storage limit options).run t =
      (match allResults (options.manifests.map (analysisIn t limit options)) with
        | .error fault => pure {
            code := 1
            stderr := warnings (options.manifests.map (analysisIn t limit options)) ++ fault.report }
        | .ok results => deliver FileTree.storage options
            (warnings (options.manifests.map (analysisIn t limit options))) results
        : StateM FileTree Outcome).run t := by
  rw [runTree, StateT.run_bind, run_firstMissing, h]
  have hmapM := Unchanging.run_mapM (unchanging_analyzeManifest limit options) options.manifests t
  exact congrArg (fun r : List (Except Fault Result) × FileTree =>
    (match allResults r.1 with
      | .error fault => pure { code := 1, stderr := warnings r.1 ++ fault.report }
      | .ok results => deliver FileTree.storage options (warnings r.1) results
      : StateM FileTree Outcome).run r.2) hmapM

theorem run_of_fault {fault : Fault}
    (hfault : allResults (options.manifests.map (analysisIn t limit options)) = .error fault) :
    (runTree FileTree.storage limit options).run t =
      ({ code := 1
         stderr := warnings (options.manifests.map (analysisIn t limit options)) ++ fault.report },
        t) := by
  rw [run_of_found h, hfault]
  rfl

theorem run_of_results {results : List Result}
    (hresults : allResults (options.manifests.map (analysisIn t limit options)) = .ok results) :
    (runTree FileTree.storage limit options).run t =
      (deliver FileTree.storage options
        (warnings (options.manifests.map (analysisIn t limit options))) results).run t := by
  rw [run_of_found h, hresults]

end Found

/-! ## Results and faults -/

theorem eq_map_ok_of_allResults {outcomes : List (Except Fault Result)} {results : List Result}
    (h : allResults outcomes = .ok results) : outcomes = results.map .ok := by
  induction outcomes generalizing results with
  | nil =>
    obtain rfl := Except.ok.inj h
    rfl
  | cons outcome outcomes ih =>
    cases outcome with
    | error fault => cases h
    | ok result =>
      rw [allResults] at h
      cases hrest : allResults outcomes with
      | error fault => rw [hrest] at h; cases h
      | ok rest =>
        rw [hrest] at h
        obtain rfl := Except.ok.inj h
        rw [ih hrest]
        rfl

theorem exists_allResults {outcomes : List (Except Fault Result)}
    (h : ∀ outcome ∈ outcomes, outcome.isOk = true) :
    ∃ results, allResults outcomes = .ok results := by
  induction outcomes with
  | nil => exact ⟨[], rfl⟩
  | cons outcome outcomes ih =>
    cases outcome with
    | error fault => cases h _ List.mem_cons_self
    | ok result =>
      obtain ⟨results, hresults⟩ := ih fun other ho => h other (List.mem_cons_of_mem _ ho)
      exact ⟨result :: results, by rw [allResults, hresults]; rfl⟩

/-- The first fault decides. -/
theorem allResults_eq_error {outcomes : List (Except Fault Result)} {outcome : Except Fault Result}
    (h : outcomes.find? (!·.isOk) = some outcome) :
    ∃ fault, outcome = .error fault ∧ allResults outcomes = .error fault := by
  induction outcomes with
  | nil => cases h
  | cons first outcomes ih =>
    cases first with
    | error fault => exact ⟨fault, (Option.some.inj h).symm, rfl⟩
    | ok result =>
      obtain ⟨fault, hfault, hrest⟩ := ih h
      exact ⟨fault, hfault, by rw [allResults, hrest]; rfl⟩

/-! ## Writing what came of a run -/

/-- The text of all rendered graphs. -/
def renderedText (results : List Result) : String := String.join (results.map (·.rendered))

theorem renderedText_singleton (result : Result) : renderedText [result] = result.rendered := by
  simp [renderedText, String.join]

/-- The output can be written: it goes to standard output, or to a file that takes a text. -/
def Writable (t : FileTree) (options : Options) : Prop :=
  ∀ file, options.output = some file → ∃ t', t.write file "" = .ok t'

/-- The run showed the text: it printed it, or wrote it to the output file and printed nothing. -/
def Shows (options : Options) (run : Outcome × FileTree) (text : String) : Prop :=
  match options.output with
  | none => run.1.stdout = text
  | some file => run.1.stdout = "" ∧ run.2.read file = .ok text

theorem run_write (t : FileTree) (file : Path) (text : String) :
    (FileTree.storage.write file text).run t =
      match t.write file text with
      | .ok t' => (.ok (), t')
      | .error fault => (.error fault, t) := by
  have hrun : (FileTree.storage.write file text).run t =
      (match t.write file text with
        | .ok t' => do set t'; return .ok ()
        | .error fault => return .error fault : StateM FileTree (Except StorageFault Unit)).run t := rfl
  rw [hrun]
  cases t.write file text <;> rfl

section Deliver

variable {warned : String} {results : List Result}

theorem run_deliver_of_written {file : Path} {t' : FileTree} (hout : options.output = some file)
    (hwrite : t.write file (renderedText results) = .ok t') :
    ∃ stderr, (deliver FileTree.storage options warned results).run t =
      ({ code := 0, stderr }, t') := by
  rw [deliver, hout]
  dsimp only
  rw [StateT.run_bind, ← renderedText, run_write, hwrite]
  exact ⟨_, rfl⟩

theorem run_deliver_of_unwritten {file : Path} {fault : StorageFault}
    (hout : options.output = some file)
    (hwrite : t.write file (renderedText results) = .error fault) :
    ∃ stderr, (deliver FileTree.storage options warned results).run t =
      ({ code := 1, stderr }, t) := by
  rw [deliver, hout]
  dsimp only
  rw [StateT.run_bind, ← renderedText, run_write, hwrite]
  exact ⟨_, rfl⟩

/-- Whether the output can be written does not depend on what is written. -/
theorem code_deliver :
    ((deliver FileTree.storage options warned results).run t).1.code = 0 ↔ Writable t options := by
  rw [Writable]
  cases hout : options.output with
  | none =>
    rw [deliver, hout]
    exact iff_of_true rfl fun file hfile => nomatch hfile
  | some file =>
    cases hwrite : t.write file (renderedText results) with
    | ok t' =>
      obtain ⟨stderr, hrun⟩ := run_deliver_of_written hout hwrite
      rw [hrun]
      refine iff_of_true rfl fun file' hfile => ?_
      obtain rfl := Option.some.inj hfile
      exact FileTree.exists_write hwrite ""
    | error fault =>
      obtain ⟨stderr, hrun⟩ := run_deliver_of_unwritten hout hwrite
      rw [hrun]
      refine iff_of_false Nat.one_ne_zero fun hwritable => ?_
      obtain ⟨t', hempty⟩ := hwritable file rfl
      obtain ⟨t'', hother⟩ := FileTree.exists_write hempty (renderedText results)
      rw [hwrite] at hother
      cases hother

theorem shows_deliver (h : Writable t options) :
    Shows options ((deliver FileTree.storage options warned results).run t)
      (renderedText results) := by
  rw [Shows]
  cases hout : options.output with
  | none =>
    rw [deliver, hout]
    rfl
  | some file =>
    obtain ⟨t', hempty⟩ := h file hout
    obtain ⟨t'', hwrite⟩ := FileTree.exists_write hempty (renderedText results)
    obtain ⟨stderr, hrun⟩ := run_deliver_of_written hout hwrite
    rw [hrun]
    exact ⟨rfl, FileTree.read_of_write hwrite⟩

end Deliver

/-! ## Runs that succeed -/

theorem find?_missing_eq_none :
    options.manifests.find? (fun path => !t.isFile path) = none ↔
      ∀ path ∈ options.manifests, t.isFile path = true := by
  simp [List.find?_eq_none]

/-- A run succeeds if all its manifests are there, all analyses succeed and the output can be
written. -/
theorem code_runTree :
    ((runTree FileTree.storage limit options).run t).1.code = 0 ↔
      (∀ path ∈ options.manifests, t.isFile path = true) ∧
        (∀ path ∈ options.manifests, (analysisIn t limit options path).isOk = true) ∧
        Writable t options := by
  cases hmissing : options.manifests.find? (fun path => !t.isFile path) with
  | some path =>
    rw [run_of_missing hmissing]
    refine iff_of_false Nat.one_ne_zero fun h => ?_
    rw [find?_missing_eq_none.2 h.1] at hmissing
    cases hmissing
  | none =>
    have hfound := find?_missing_eq_none.1 hmissing
    cases hall : allResults (options.manifests.map (analysisIn t limit options)) with
    | ok results =>
      have hresults := eq_map_ok_of_allResults hall
      rw [run_of_results hmissing hall, code_deliver]
      refine ⟨fun hwritable => ⟨hfound, fun path hpath => ?_, hwritable⟩, fun h => h.2.2⟩
      have hmem := List.mem_map_of_mem (f := analysisIn t limit options) hpath
      rw [hresults] at hmem
      obtain ⟨result, -, hresult⟩ := List.mem_map.1 hmem
      rw [← hresult]
      rfl
    | error fault =>
      rw [run_of_fault hmissing hall]
      refine iff_of_false Nat.one_ne_zero fun h => ?_
      obtain ⟨results, hresults⟩ := exists_allResults (List.forall_mem_map.2 h.2.1)
      rw [hresults] at hall
      cases hall

/-- A run that succeeds shows the rendered graphs of its manifests in order. -/
theorem exists_shows_runTree (h : ((runTree FileTree.storage limit options).run t).1.code = 0) :
    ∃ results, options.manifests.map (analysisIn t limit options) = results.map .ok ∧
      Shows options ((runTree FileTree.storage limit options).run t) (renderedText results) := by
  obtain ⟨hfound, hok, hwritable⟩ := code_runTree.1 h
  obtain ⟨results, hresults⟩ := exists_allResults (List.forall_mem_map.2 hok)
  refine ⟨results, eq_map_ok_of_allResults hresults, ?_⟩
  rw [run_of_results (find?_missing_eq_none.2 hfound) hresults]
  exact shows_deliver hwritable

/-! ## The manifests one by one -/

/-- The run over one manifest, with the other options as they are. -/
def alone (t : FileTree) (options : Options) (path : Path) : Outcome × FileTree :=
  (runTree FileTree.storage (t.volume + 2) { options with manifests := [path] }).run t

theorem code_alone {path : Path} :
    (alone t options path).1.code = 0 ↔
      t.isFile path = true ∧ (analysisIn t (t.volume + 2) options path).isOk = true ∧
        Writable t options := by
  rw [alone, code_runTree, List.forall_mem_singleton, List.forall_mem_singleton]
  rfl

/-- Alone, a manifest shows the rendered graph that it contributes to a run over several. -/
theorem shows_alone {path : Path} {result : Result} (h : (alone t options path).1.code = 0)
    (hresult : analysisIn t (t.volume + 2) options path = .ok result) :
    Shows options (alone t options path) result.rendered := by
  obtain ⟨results, hresults, hshows⟩ := exists_shows_runTree h
  change [analysisIn t (t.volume + 2) options path] = results.map .ok at hresults
  rw [hresult] at hresults
  obtain ⟨first, rfl, hfirst⟩ := List.map_eq_singleton_iff.1 hresults.symm
  obtain rfl := Except.ok.inj hfirst
  rw [renderedText_singleton] at hshows
  exact hshows

theorem alone_of_missing {path : Path} (h : t.isFile path = false) :
    alone t options path = ({ code := 1, stderr := (missingFault path).report }, t) :=
  run_of_missing (by simp [h])

theorem alone_of_fault {path : Path} {fault : Fault} (h : t.isFile path = true)
    (hfault : analysisIn t (t.volume + 2) options path = .error fault) :
    alone t options path = ({ code := 1, stderr := fault.report }, t) := by
  let single : Options := { options with manifests := [path] }
  have houtcomes : single.manifests.map (analysisIn t (t.volume + 2) single) = [.error fault] := by
    rw [← hfault]
    rfl
  have hall : allResults (single.manifests.map (analysisIn t (t.volume + 2) single)) =
      .error fault := by
    rw [houtcomes]
    rfl
  have hfound : single.manifests.find? (fun path => !t.isFile path) = none := by simp [single, h]
  rw [alone, run_of_fault hfound hall, houtcomes]
  simp [warnings, String.join]

/-- How a run over several manifests relates to the runs over one of them. -/
structure AllOrNothing (t : FileTree) (options : Options) (run : Outcome × FileTree) : Prop where
  /-- It succeeds exactly if each of them does. -/
  succeeds : run.1.code = 0 ↔ ∀ path ∈ options.manifests, (alone t options path).1.code = 0
  /-- Then all analyses have results, each of them shows the rendered graph of its own, and it shows
  these in order. -/
  shows : run.1.code = 0 → ∃ results,
    options.manifests.map (analysisIn t (t.volume + 2) options) = results.map .ok ∧
      List.Forall₂ (fun path result => Shows options (alone t options path) result.rendered)
        options.manifests results ∧
      Shows options run (String.join (results.map (·.rendered)))
  /-- If a manifest is missing, it is the run over the first missing one. -/
  missing : ∀ path, options.manifests.find? (fun path => !t.isFile path) = some path →
    run = ({ code := 1, stderr := (missingFault path).report }, t) ∧ run = alone t options path
  /-- If no manifest is missing but an analysis fails, it tells the warnings of the others and what the
  run over the first failing one tells, and changes nothing. -/
  failed : (∀ path ∈ options.manifests, t.isFile path = true) → ∀ path,
    options.manifests.find? (fun path => !(analysisIn t (t.volume + 2) options path).isOk) =
      some path →
    ∃ fault, analysisIn t (t.volume + 2) options path = .error fault ∧
      alone t options path = ({ code := 1, stderr := fault.report }, t) ∧
      run = ({
        code := 1
        stderr := warnings (options.manifests.map (analysisIn t (t.volume + 2) options)) ++
          fault.report }, t)

theorem manifests_ne_nil_of_options {taken : CommandLine.Taken} {environment : Option String}
    (h : CommandLine.options taken environment = .ok options) : options.manifests ≠ [] := by
  rw [CommandLine.options] at h
  cases hsettled : taken.settled with
  | error stop => rw [hsettled] at h; cases h
  | ok _ =>
    rw [hsettled] at h
    simp only [bind, Except.bind] at h
    split at h
    · cases h
    · obtain rfl := Except.ok.inj h
      dsimp only
      split
      next => exact List.cons_ne_nil _ _
      next hnamed => simpa using hnamed

/-- Options that were read name a manifest. -/
theorem manifests_ne_nil {arguments : List String} {environment : Option String}
    (h : CommandLine.read arguments environment = .ok options) : options.manifests ≠ [] := by
  rw [CommandLine.read] at h
  generalize ({} : CommandLine.Taken) = taken at h
  induction arguments generalizing taken with
  | nil => cases h
  | cons argument arguments ih =>
    rw [CommandLine.readTop] at h
    split at h
    · cases htaken : arguments.foldlM (CommandLine.Taken.take .tree) {} with
      | error stop => rw [htaken] at h; cases h
      | ok taken => rw [htaken] at h; exact manifests_ne_nil_of_options h
    · split at h
      · cases h
      · cases htaken : taken.take .top argument with
        | error stop => rw [htaken] at h; cases h
        | ok next => rw [htaken] at h; exact ih next h

/-- **Several manifests are analyzed independently, and all or nothing.** -/
theorem run_allOrNothing {arguments : List String} {environment : Option String}
    (h : CommandLine.read arguments environment = .ok options) (t : FileTree) :
    AllOrNothing t options (runIn t arguments environment) := by
  have hrun : runIn t arguments environment =
      (runTree FileTree.storage (t.volume + 2) options).run t := by
    rw [runIn, run, h]
  have hsucceeds : (runIn t arguments environment).1.code = 0 ↔
      ∀ path ∈ options.manifests, (alone t options path).1.code = 0 := by
    rw [hrun, code_runTree]
    constructor
    · rintro ⟨hfound, hok, hwritable⟩ path hpath
      exact code_alone.2 ⟨hfound path hpath, hok path hpath, hwritable⟩
    · intro hall
      obtain ⟨first, rest, hfirst⟩ := List.exists_cons_of_ne_nil (manifests_ne_nil h)
      have hmem : first ∈ options.manifests := hfirst ▸ List.mem_cons_self
      exact ⟨fun path hpath => (code_alone.1 (hall path hpath)).1,
        fun path hpath => (code_alone.1 (hall path hpath)).2.1, (code_alone.1 (hall first hmem)).2.2⟩
  refine ⟨hsucceeds, fun hcode => ?_, fun path hmissing => ?_, fun hfound path hfailed => ?_⟩
  · have halone := hsucceeds.1 hcode
    rw [hrun] at hcode ⊢
    obtain ⟨results, hresults, hshows⟩ := exists_shows_runTree hcode
    refine ⟨results, hresults, ?_, hshows⟩
    rw [← List.forall₂_eq_eq_eq, List.forall₂_map_left_iff, List.forall₂_map_right_iff] at hresults
    exact ((List.forall₂_and_left _ _).2 ⟨halone, hresults⟩).imp fun path result ⟨hcode, hresult⟩ =>
      shows_alone hcode hresult
  · rw [hrun, run_of_missing hmissing, alone_of_missing (by simpa using List.find?_some hmissing)]
    exact ⟨rfl, rfl⟩
  · have houtcome : (options.manifests.map (analysisIn t (t.volume + 2) options)).find? (!·.isOk) =
        some (analysisIn t (t.volume + 2) options path) := by
      rw [List.find?_map]
      exact congrArg (Option.map _) hfailed
    obtain ⟨fault, hfault, hall⟩ := allResults_eq_error houtcome
    have hpath := hfound path (List.mem_of_find?_eq_some hfailed)
    refine ⟨fault, hfault, alone_of_fault hpath hfault, ?_⟩
    rw [hrun, run_of_fault (find?_missing_eq_none.2 hfound) hall]

/-- A manifest that asks for one artifact, of which the repository knows nothing. -/
def smallManifest (name : String) : String :=
  "[project]
group='o'
name='" ++ name ++ "'
version='1'
[[dependencies]]
group='o'
name='w'
version='1'
"

/-- Two manifests in the working directory. -/
def twoManifests : FileTree where
  entries := [(["a.toml"], .file (smallManifest "a").toUTF8),
    (["b.toml"], .file (smallManifest "b").toUTF8)]

/-- Asks for both of them and takes the working directory for the repository. -/
def bothManifests : List String := ["tree", "-m", "b.toml", "-m", "a.toml", "-r.", "--allow-missing"]

/-- Each succeeds alone, and together they print one graph after the other, in the order of the
arguments. -/
theorem run_allOrNothing_twoManifests :
    ∃ options, CommandLine.read bothManifests none = .ok options ∧
      options.manifests.map (fun path => (alone twoManifests options path).1) =
        [{ code := 0, stdout := "o:b:jar:1\n\\- o:w:jar:1:compile\n" },
          { code := 0, stdout := "o:a:jar:1\n\\- o:w:jar:1:compile\n" }] ∧
      (runIn twoManifests bothManifests none).1.stdout =
        "o:b:jar:1\n\\- o:w:jar:1:compile\n" ++ "o:a:jar:1\n\\- o:w:jar:1:compile\n" ∧
      AllOrNothing twoManifests options (runIn twoManifests bothManifests none) := by
  have h : CommandLine.read bothManifests none = .ok _ := rfl
  refine ⟨_, h, ?_, ?_, run_allOrNothing h twoManifests⟩
  · decide +kernel
  · decide +kernel

end Command

end ArtifactTree
