import ArtifactTree.Proofs.Caching
import ArtifactTree.Proofs.Leniency
import ArtifactTree.Proofs.Toml.Arrays

/-!
# Runs do not depend on their limit

A file declares no more artifacts than it has bytes, so the files of a tree declare no more than its
volume. A run that may go down further than that is never cut short, and any two such runs are the same.

Main statement: `Command.run_eq_runIn`.
-/

namespace ArtifactTree

open Accepted

/-! ## What files declare -/

theorem Text.length_le_utf8ByteSize (text : String) : text.length ≤ text.utf8ByteSize := by
  induction text using String.push_induction with
  | empty => exact Nat.le_refl _
  | push text c ih =>
    have := c.utf8Size_pos
    rw [String.length_push, String.utf8ByteSize_push]
    omega

theorem Text.utf8ByteSize_of_fromUTF8? {content : ByteArray} {text : String}
    (h : String.fromUTF8? content = some text) : text.utf8ByteSize = content.size := by
  unfold String.fromUTF8? at h
  split at h
  · obtain rfl := Option.some.inj h
    rfl
  · cases h

theorem Manifest.length_declarations {m : Manifest} {ds : List Declaration}
    (h : m.declarations = .ok ds) : ds.length = m.dependencies.length :=
  (mapM_eq_ok.1 h).length_eq.symm

theorem FileEntry.length_declared_le (content : ByteArray) :
    (FileEntry.file content).declared.length ≤ content.size := by
  rw [declared]
  cases hcontent : String.fromUTF8? content with
  | none => exact Nat.zero_le _
  | some text =>
    rw [Option.toList_some, List.flatMap_singleton]
    split
    next ds hds =>
      obtain ⟨m, hparse, hdeclared⟩ := bind_eq_ok.1 hds
      rw [List.length_map, Manifest.length_declarations hdeclared,
        ← Text.utf8ByteSize_of_fromUTF8? hcontent]
      exact Nat.le_trans (Manifest.length_dependencies_le hparse) (Text.length_le_utf8ByteSize text)
    next => exact Nat.zero_le _

namespace FileTree

theorem length_declared_le_volume (t : FileTree) : t.declared.length ≤ t.volume := by
  obtain ⟨entries⟩ := t
  induction entries with
  | nil => exact Nat.le_refl _
  | cons entry entries ih =>
    obtain ⟨place, content⟩ := entry
    cases content with
    | directory => exact ih
    | file content =>
      calc (declared ⟨(place, .file content) :: entries⟩).length
          = (FileEntry.file content).declared.length + (declared ⟨entries⟩).length := by
            rw [declared, List.flatMap_cons, List.length_append, declared]
        _ ≤ content.size + volume ⟨entries⟩ :=
            Nat.add_le_add (FileEntry.length_declared_le content) ih

variable {t : FileTree} {limit limit' : Nat}

/-- No chain of descriptors goes down further than the volume. -/
theorem unfold_ne_tooDeep_of_volume_lt (hlimit : t.volume < limit) (r : Repository)
    (project : Project) (c : Coordinate) :
    (exec (project.unfold (r.collector storage) limit).run (t, ())).1 ≠ .error (.tooDeep c) :=
  unfold_ne_tooDeep (Nat.lt_of_le_of_lt t.length_declared_le_volume hlimit) r project c

theorem exec_analyze_of_volume_lt (hlimit : t.volume < limit) (hlimit' : t.volume < limit')
    (r : Repository) (project : Project) :
    exec (project.analyze (r.collector storage) limit).run (t, ()) =
      exec (project.analyze (r.collector storage) limit').run (t, ()) := by
  -- both unfoldings are the one under the higher limit
  have hleft := exec_unfold_of_le (Nat.le_max_left limit limit')
    (unfold_ne_tooDeep_of_volume_lt hlimit r project)
  have hright := exec_unfold_of_le (Nat.le_max_right limit limit')
    (unfold_ne_tooDeep_of_volume_lt hlimit' r project)
  rw [Project.analyze, Project.analyze, exec_run_bind, exec_run_bind, ← hleft, hright]

/-- Every question about an artifact has one answer, which depends on the tree alone. -/
theorem consistentFrom_repository (t : FileTree) (r : Repository) :
    (r.collector storage).ConsistentFrom (t, ()) fun c =>
      (exec ((r.collector storage).collect c) (t, ())).1 := by
  refine .of_invariant (fun u => u = (t, ())) ?_ ?_ rfl
  · rintro _ rfl c
    rfl
  · rintro _ rfl c
    exact Prod.ext (unchanging_collect r c t) rfl

end FileTree

namespace Command

open CommandLine (Options)

variable {t : FileTree} {limit limit' : Nat} {options : Options}

/-- What a manifest that is made ready comes to does not depend on whether answers are remembered. -/
theorem run_analyze_fst (t : FileTree) (limit : Nat) (prepared : Prepared) :
    ((analyze FileTree.storage limit prepared).run t).1 =
      match (exec (prepared.project.analyze (prepared.repository.collector FileTree.storage)
          limit).run (t, ())).1 with
      | .ok analysis => .ok (resultOf prepared analysis)
      | .error fault => .error (analysisFault prepared.project.coordinate fault) := by
  have hconsistent := t.consistentFrom_repository prepared.repository
  have hcached := analyze_eq_of_consistent hconsistent
    (hconsistent.cached (Collector.Cache.sound_nil _)) prepared.project limit
  unfold analyze
  dsimp only
  split
  next =>
    rw [← hcached]
    rfl
  next => rfl

theorem analysisIn_of_volume_lt (hlimit : t.volume < limit) (hlimit' : t.volume < limit')
    (options : Options) (path : Path) :
    analysisIn t limit options path = analysisIn t limit' options path := by
  have hread : (FileTree.storage.read path).run t = (t.read path, t) := rfl
  rw [analysisIn, analysisIn, analyzeManifest, analyzeManifest, StateT.run_bind, StateT.run_bind, hread]
  simp only [bind, StateT.run]
  cases t.read path with
  | error fault => rfl
  | ok text =>
    dsimp only
    cases prepare options path text with
    | error fault => rfl
    | ok prepared =>
      have hfst : ((analyze FileTree.storage limit prepared).run t).1 =
          ((analyze FileTree.storage limit' prepared).run t).1 := by
        rw [run_analyze_fst, run_analyze_fst, FileTree.exec_analyze_of_volume_lt hlimit hlimit']
      exact hfst

theorem runTree_of_volume_lt (hlimit : t.volume < limit) (hlimit' : t.volume < limit')
    (options : Options) :
    (runTree FileTree.storage limit options).run t =
      (runTree FileTree.storage limit' options).run t := by
  have hanalyses : analysisIn t limit options = analysisIn t limit' options :=
    funext (analysisIn_of_volume_lt hlimit hlimit' options)
  cases hmissing : options.manifests.find? (fun path => !t.isFile path) with
  | some path => rw [run_of_missing hmissing, run_of_missing hmissing]
  | none => rw [run_of_found hmissing, run_of_found hmissing, hanalyses]

/-- **Every limit above the volume of the files gives the same run.** -/
theorem run_eq_runIn (hlimit : t.volume < limit) (arguments : List String)
    (environment : Option String) :
    (run FileTree.storage limit arguments environment).run t = runIn t arguments environment := by
  rw [runIn, run, run]
  split
  next options _ => exact runTree_of_volume_lt hlimit (by omega) options
  next => rfl
  next => rfl

end Command

end ArtifactTree
