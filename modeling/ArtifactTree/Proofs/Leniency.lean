import ArtifactTree.Proofs.Correspondence
import ArtifactTree.Proofs.Conversion
import ArtifactTree.Proofs.Runs
import ArtifactTree.Proofs.Termination

/-!
# Artifacts without a descriptor as leaves

A repository, or a table, is strict or takes an artifact of which it knows nothing for one that declares
nothing. Side by side, the strict unfolding and the lenient one ask the same questions and get the same
answers, until the strict one comes to the first artifact that is unknown and ends. So the lenient one
forgives that fault and no other: it is tied to the strict one (`Tie.forgiving`), and what it fails with
is a descriptor that is there and cannot be read.

Whether a chain of descriptors ends is not a matter of leniency. In a file tree it does, since only
finitely many coordinates are declared there (`FileTree.declared`).

Main statement: `Project.tolerates_missing`.
-/

namespace ArtifactTree

/-! ## Faults -/

/-- The fault is that there is no descriptor. -/
def Fault.IsMissing (fault : Fault) : Prop := ∃ c searched, fault.cause = .noDescriptor c searched

/-- The fault is that the descriptor at the path cannot be read, or says nothing that is valid. -/
def Fault.IsUnread (fault : Fault) (path : Path) : Prop :=
  fault.cause = .unreadableDescriptor path ∨ fault.cause = .invalidDescriptor path

/-- The unfolding came to an artifact without a descriptor. -/
def UnfoldingFault.IsMissing (e : UnfoldingFault) : Prop :=
  ∃ c reason, e = .uncollected c reason ∧ reason.IsMissing

/-- How an unfolding that forgives missing descriptors relates to the strict one. `Unread` tells what else
may be wrong with a descriptor. -/
structure Tolerates (Unread : Coordinate → Fault → Prop)
    (strict lenient : Except UnfoldingFault Graph) : Prop where
  of_ok : ∀ g, strict = .ok g → lenient = .ok g
  of_lenient_error : ∀ e, lenient = .error e →
    (∃ c reason, e = .uncollected c reason ∧ Unread c reason) ∧ ¬ e.IsMissing ∧ ∃ e', strict = .error e'
  of_error : ∀ e, strict = .error e → ¬ e.IsMissing → lenient = .error e

/-! ## Tied to the strict run -/

section Tied

variable {m m' : Type → Type} {σ σ' : Type} [Monad m] [Execution m σ] [Monad m'] [Execution m' σ']

/-- The tie between a strict run and one that goes on where a descriptor is missing. -/
def Tie.forgiving (R : σ → σ' → Prop) : Tie σ σ' where
  running := R
  ended _ _ := True
  alone := UnfoldingFault.IsMissing

/-- The tie of a run with itself that allows only some faults. -/
def Tie.blaming (inv : σ → Prop) (Blames : UnfoldingFault → Prop) : Tie σ σ where
  running s s' := s = s' ∧ inv s
  ended _ _ := False
  alone := Blames

/-- What an unfolding fails with is an answer of the collector, unless it is cut short. -/
theorem blames_of_unfold {collector : Collector m} (inv : σ → Prop)
    (Tells : Coordinate → Fault → Prop)
    (hkeeps : ∀ {s}, inv s → ∀ c, inv (exec (collector.collect c) s).2)
    (htells : ∀ {s}, inv s → ∀ {c reason}, (exec (collector.collect c) s).1 = .error reason →
      Tells c reason)
    {project : Project} {limit : Nat} {s : σ} (hs : inv s) {e : UnfoldingFault}
    (h : (exec (project.unfold collector limit).run s).1 = .error e) :
    (∃ c, e = .tooDeep c) ∨ ∃ c reason, e = .uncollected c reason ∧ Tells c reason := by
  let Blames : UnfoldingFault → Prop := fun e =>
    (∃ c, e = .tooDeep c) ∨ ∃ c reason, e = .uncollected c reason ∧ Tells c reason
  have htied : collector.Tied collector (Tie.blaming inv Blames) .whole := by
    rintro c s _ ⟨rfl, hs⟩
    rw [Forest.exec_declared]
    cases hc : (exec (collector.collect c) s).1 with
    | ok ds => exact .answered rfl ⟨rfl, hkeeps hs c⟩
    | error reason => exact .alone (.inr ⟨c, reason, rfl, htells hs hc⟩)
  have hlimits : (Tie.blaming inv Blames).Limits limit limit :=
    ⟨Nat.le_refl limit, .inl fun c => .inl ⟨c, rfl⟩⟩
  have hends := htied.runs_unfold hlimits project s s ⟨rfl, hs⟩
  generalize exec (project.unfold collector limit).run s = run at h hends
  cases hends with
  | answered _ _ => cases h
  | faulted ended => exact ended.elim
  | alone alone => exact Except.error.inj h ▸ alone

/-- An unfolding tied to the strict one tolerates missing descriptors if it ends. -/
theorem Collector.Tied.tolerates {strict : Collector m} {lenient : Collector m'} {R : σ → σ' → Prop}
    (h : strict.Tied lenient (Tie.forgiving R) .whole) {project : Project} {limit : Nat}
    {s : σ} {s' : σ'} (hs : R s s') {Unread : Coordinate → Fault → Prop}
    (hunread : ∀ e, (exec (project.unfold lenient limit).run s').1 = .error e →
      ∃ c reason, e = .uncollected c reason ∧ Unread c reason ∧ ¬ reason.IsMissing) :
    Tolerates Unread (exec (project.unfold strict limit).run s).1
      (exec (project.unfold lenient limit).run s').1 := by
  have hlimits : (Tie.forgiving R).Limits limit limit :=
    ⟨Nat.le_refl limit, .inr ⟨rfl, fun _ _ _ => trivial⟩⟩
  have hends := h.runs_unfold hlimits project s s' hs
  generalize exec (project.unfold strict limit).run s = run,
    exec (project.unfold lenient limit).run s' = run' at hends hunread
  refine ⟨fun g hg => ?_, fun e he => ?_, fun e he hmissing => ?_⟩
  · cases hends with
    | answered value _ => exact value ▸ hg
    | faulted _ => cases hg
    | alone _ => cases hg
  · obtain ⟨c, reason, rfl, hreason, hpresent⟩ := hunread e he
    refine ⟨⟨c, reason, rfl, hreason⟩, ?_, ?_⟩
    · rintro ⟨_, _, ⟨⟩, hmissing⟩
      exact hpresent hmissing
    · cases hends with
      | answered _ _ => cases he
      | faulted _ => exact ⟨_, rfl⟩
      | alone _ => exact ⟨_, rfl⟩
  · cases hends with
    | answered _ _ => cases he
    | faulted _ => exact he
    | alone alone => exact absurd (Except.error.inj he ▸ alone) hmissing

end Tied

/-! ## Repositories -/

namespace Repository

/-- The repository that takes artifacts without a descriptor for leaves, and the one that does not. -/
def lenient (r : Repository) : Repository := { r with allowMissing := true }

def strict (r : Repository) : Repository := { r with allowMissing := false }

/-- What is answered if there is something at the path and reading it came to this. -/
def answerOf (path : Path) : Except StorageFault String → Answer
  | .ok text => declarationsOf path text
  | .error fault => .error ⟨.unreadableDescriptor path, [.storage fault]⟩

theorem isUnread_of_answerOf {path : Path} {content : Except StorageFault String} {reason : Fault}
    (h : answerOf path content = .error reason) : reason.IsUnread path := by
  cases content with
  | error fault => exact .inl (congrArg Fault.cause (Except.error.inj h).symm)
  | ok text =>
    obtain ⟨fault, -, rfl⟩ := Rejected.mapError_eq_error.1 h
    exact .inr rfl

theorem not_isMissing_of_isUnread {path : Path} {reason : Fault} (h : reason.IsUnread path) :
    ¬ reason.IsMissing := by
  rintro ⟨c, searched, hcause⟩
  rcases h with h | h <;> rw [hcause] at h <;> cases h

variable {m : Type → Type} {σ : Type} [Monad m] [Execution m σ] (storage : Storage m) (r : Repository)

/-- Where nothing is at the path of the descriptor, nothing is read. -/
theorem exec_collect_of_absent {c : Coordinate} {s : σ}
    (h : (exec (storage.has (r.descriptorPath c)) s).1 = false) :
    exec ((r.collector storage).collect c) s =
      (if r.allowMissing then .ok [] else .error ⟨.noDescriptor c (some (r.descriptorPath c)), []⟩,
        (exec (storage.has (r.descriptorPath c)) s).2) := by
  rw [collector, exec_bind, h]
  cases r.allowMissing <;> exact exec_pure _ _

/-- What is at the path of the descriptor is read. -/
theorem exec_collect_of_present {c : Coordinate} {s : σ}
    (h : (exec (storage.has (r.descriptorPath c)) s).1 = true) :
    ∃ content t,
      exec ((r.collector storage).collect c) s = (answerOf (r.descriptorPath c) content, t) ∧
      exec (storage.read (r.descriptorPath c)) (exec (storage.has (r.descriptorPath c)) s).2 =
        (content, t) := by
  rcases hread : exec (storage.read (r.descriptorPath c)) (exec (storage.has (r.descriptorPath c)) s).2
    with ⟨content, t⟩
  refine ⟨content, t, ?_, rfl⟩
  rw [collector, exec_bind, h, if_pos rfl, exec_bind, hread]
  cases content <;> exact exec_pure _ t

/-- What is answered is nothing, or what the text at the path of the descriptor declares. -/
theorem exists_text_of_collect {c : Coordinate} {s : σ} {ds : List Declaration}
    (h : (exec ((r.collector storage).collect c) s).1 = .ok ds) :
    ds = [] ∨ ∃ text t,
      exec (storage.read (r.descriptorPath c)) (exec (storage.has (r.descriptorPath c)) s).2 =
        (.ok text, t) ∧
      declarationsOf (r.descriptorPath c) text = .ok ds := by
  cases hfound : (exec (storage.has (r.descriptorPath c)) s).1 with
  | false =>
    rw [exec_collect_of_absent storage r hfound] at h
    dsimp only at h
    split at h
    · exact .inl (Except.ok.inj h).symm
    · cases h
  | true =>
    obtain ⟨content, t, hcollect, hread⟩ := exec_collect_of_present storage r hfound
    rw [hcollect] at h
    cases content with
    | error fault => cases h
    | ok text => exact .inr ⟨text, t, hread, h⟩

theorem tied_strict_lenient : (r.strict.collector storage).Tied (r.lenient.collector storage)
    (Tie.forgiving fun s s' : σ => s = s') .whole := by
  rintro c s _ rfl
  rw [Forest.exec_declared, Forest.exec_declared]
  cases hfound : (exec (storage.has (r.descriptorPath c)) s).1 with
  | false =>
    rw [exec_collect_of_absent storage r.strict hfound]
    exact .alone ⟨c, _, rfl, c, _, rfl⟩
  | true =>
    obtain ⟨content, t, hstrict, hread⟩ := exec_collect_of_present storage r.strict hfound
    obtain ⟨content', t', hlenient, hread'⟩ := exec_collect_of_present storage r.lenient hfound
    obtain ⟨rfl, rfl⟩ := Prod.mk.inj (hread.symm.trans hread')
    have hpath : r.strict.descriptorPath c = r.lenient.descriptorPath c := rfl
    rw [hstrict, hlenient, hpath]
    cases answerOf (r.lenient.descriptorPath c) content with
    | ok ds => exact .answered (Declaration.View.alike_refl _ ds) rfl
    | error reason => exact .faulted trivial

/-- The lenient repository answers unless a descriptor that is there cannot be used. -/
theorem isUnread_of_lenient {c : Coordinate} {s : σ} {reason : Fault}
    (h : (exec ((r.lenient.collector storage).collect c) s).1 = .error reason) :
    reason.IsUnread (r.descriptorPath c) := by
  cases hfound : (exec (storage.has (r.descriptorPath c)) s).1 with
  | false =>
    rw [exec_collect_of_absent storage r.lenient hfound] at h
    cases h
  | true =>
    obtain ⟨content, t, hlenient, -⟩ := exec_collect_of_present storage r.lenient hfound
    rw [hlenient] at h
    exact isUnread_of_answerOf h

/-- The strict and the lenient repository over any storage, even one that changes on its own, and from
any state on, as long as no chain of descriptors is too long for the limit. -/
theorem tolerates_of_ends {project : Project} {limit : Nat} {s : σ}
    (hends : ∀ c, (exec (project.unfold (r.lenient.collector storage) limit).run s).1 ≠
      .error (.tooDeep c)) :
    Tolerates (fun c reason => reason.IsUnread (r.descriptorPath c))
      (exec (project.unfold (r.strict.collector storage) limit).run s).1
      (exec (project.unfold (r.lenient.collector storage) limit).run s).1 := by
  refine (tied_strict_lenient storage r).tolerates rfl fun e he => ?_
  have hblames := blames_of_unfold (fun _ => True)
    (fun c reason => reason.IsUnread (r.descriptorPath c)) (fun _ _ => trivial) (fun _ => isUnread_of_lenient storage r) trivial he
  rcases hblames with ⟨c, rfl⟩ | ⟨c, reason, rfl, hreason⟩
  · exact absurd he (hends c)
  · exact ⟨c, reason, rfl, hreason, not_isMissing_of_isUnread hreason⟩

end Repository

/-! ## File trees -/

/-- What a file declares if it is taken for a descriptor. -/
def FileEntry.declared : FileEntry → List Coordinate
  | .directory => []
  | .file content => (String.fromUTF8? content).toList.flatMap fun text =>
    match (do (← Manifest.parse text).declarations : Answer) with
    | .ok ds => ds.map (·.coordinate)
    | .error _ => []

namespace FileTree

/-- All coordinates that the files of a tree may declare, with repetitions. -/
def declared (t : FileTree) : List Coordinate := t.entries.flatMap fun entry => entry.2.declared

variable {t : FileTree} {path : Path}

theorem mem_entries_of_entry {content : ByteArray} (h : t.entry path = .ok (.file content)) :
    ∃ place, (place, .file content) ∈ t.entries := by
  rw [entry, Accepted.bind_eq_ok] at h
  obtain ⟨place, -, h⟩ := h
  refine ⟨place, ?_⟩
  cases hfound : t.find? place with
  | none => simp [hfound] at h
  | some found =>
    cases found with
    | directory => simp [hfound] at h
    | file content' =>
      simp only [hfound] at h
      split at h
      · cases h
      · obtain rfl : content' = content := by simpa using h
        rw [find?] at hfound
        split at hfound
        · cases hfound
        · obtain ⟨before, after, hentries, -⟩ := List.lookup_eq_some_iff.1 hfound
          rw [hentries]
          exact List.mem_append_right _ List.mem_cons_self

/-- What is read is the content of an entry. -/
theorem exists_file_of_read {text : String} (h : t.read path = .ok text) :
    ∃ place content, (place, .file content) ∈ t.entries ∧ String.fromUTF8? content = some text := by
  rw [read, Accepted.bind_eq_ok] at h
  obtain ⟨entry, hentry, h⟩ := h
  cases entry with
  | directory => cases h
  | file content =>
    obtain ⟨place, hmem⟩ := mem_entries_of_entry hentry
    cases hcontent : String.fromUTF8? content with
    | none => simp [hcontent] at h
    | some decoded =>
      obtain rfl : decoded = text := by simpa [hcontent] using h
      exact ⟨place, content, hmem, hcontent⟩

theorem mem_declared_of_read {text : String} (h : t.read path = .ok text) {ds : List Declaration}
    (hds : Repository.declarationsOf path text = .ok ds) :
    ∀ d ∈ ds, d.coordinate ∈ t.declared := by
  intro d hd
  obtain ⟨place, content, hentry, hcontent⟩ := exists_file_of_read h
  rw [Repository.declarationsOf, Accepted.mapError_eq_ok] at hds
  refine List.mem_flatMap.2 ⟨_, hentry, ?_⟩
  simp only [FileEntry.declared, hcontent, Option.toList_some, List.flatMap_singleton, hds]
  exact List.mem_map_of_mem hd

/-- A repository does not change the tree that it is in, and declares what its files do. -/
theorem answers_repository (t : FileTree) (r : Repository) :
    (r.collector storage).Answers (fun u : FileTree × Unit => u.1 = t)
      fun _ ds => ∀ d ∈ ds, d.coordinate ∈ t.declared where
  keeps := by
    rintro ⟨t, _⟩ rfl c
    exact unchanging_collect r c t
  tells := by
    rintro ⟨t, _⟩ rfl c ds h
    rcases Repository.exists_text_of_collect storage r h with rfl | ⟨text, u, hread, hds⟩
    · exact List.forall_mem_nil _
    · have hcontent : t.read (r.descriptorPath c) = .ok text := congrArg Prod.fst hread
      exact mem_declared_of_read hcontent hds

/-- A limit above the number of declarations in the tree is not reached. -/
theorem unfold_ne_tooDeep {limit : Nat} (h : t.declared.length < limit) (r : Repository)
    (project : Project) (c : Coordinate) :
    (exec (project.unfold (r.collector storage) limit).run (t, ())).1 ≠ .error (.tooDeep c) := by
  have hlimit : ∀ seen, vacant t.declared.toFinset seen < limit := fun seen => by
    have := vacant_le_card t.declared.toFinset seen
    have := t.declared.toFinset_card_le
    omega
  have hends : EndsFrom _ (project.unfold (r.collector storage) limit) fun _ => True :=
    Forest.endsFrom_unfold (t.answers_repository r) (S := t.declared.toFinset)
      (fun hds d hd => List.mem_toFinset.2 (hds d hd)) fun d _ => hlimit _
  exact hends.ne_tooDeep rfl c

end FileTree

/-! ## Tables -/

namespace Catalogue

/-- Where every question has one answer, it suffices to compare the answers. -/
theorem tied_of_answers {m m' : Type → Type} {σ σ' : Type} [Monad m] [Execution m σ] [Monad m']
    [Execution m' σ'] {strict : Collector m} {lenient : Collector m'}
    {answer answer' : Coordinate → Answer}
    (h : ∀ c, answer c = answer' c ∨ ∃ reason, answer c = .error reason ∧ reason.IsMissing) :
    strict.Tied lenient (Tie.forgiving fun s s' =>
      strict.ConsistentFrom s answer ∧ lenient.ConsistentFrom s' answer') .whole := by
  rintro c s s' ⟨hs, hs'⟩
  rw [Forest.exec_declared, Forest.exec_declared, hs.answered c, hs'.answered c]
  rcases h c with heq | ⟨reason, hreason, hmissing⟩
  · rw [heq]
    cases answer' c with
    | ok ds => exact .answered (Declaration.View.alike_refl _ ds) ⟨hs.next c, hs'.next c⟩
    | error reason => exact .faulted trivial
  · rw [hreason]
    exact .alone ⟨c, reason, rfl, hmissing⟩

theorem tolerates_unknown (k : Catalogue) (remember : Bool) (project : Project) :
    Tolerates (fun _ _ => False) (project.unfoldIn { k with strict := true } remember).1
      (project.unfoldIn { k with strict := false } remember).1 := by
  let strict : Catalogue := { k with strict := true }
  let lenient : Catalogue := { k with strict := false }
  have hanswers : ∀ c, strict.answer c = lenient.answer c ∨
      ∃ reason, strict.answer c = .error reason ∧ reason.IsMissing := by
    intro c
    unfold answer
    cases k.entries.lookup c with
    | some ds => exact .inl rfl
    | none => exact .inr ⟨_, rfl, c, none, rfl⟩
  have hnever : ∀ c reason, lenient.answer c ≠ .error reason := by
    intro c reason
    have hanswer : lenient.answer c = .ok ((k.entries.lookup c).getD []) := by
      unfold answer
      cases k.entries.lookup c <;> rfl
    rw [hanswer]
    exact fun h => nomatch h
  have hlenient := lenient.consistentFrom remember #[]
  rw [unfoldIn_fst, unfoldIn_fst]
  refine Collector.Tied.tolerates (tied_of_answers hanswers)
    ⟨strict.consistentFrom remember #[], hlenient⟩ fun e he => ?_
  have hblames := blames_of_unfold
    (fun s => (lenient.collector remember).ConsistentFrom s lenient.answer) (fun c reason => lenient.answer c = .error reason) (fun hs => hs.next)
    (fun {_} hs {c _} h => (hs.answered c).symm.trans h) hlenient he
  rcases hblames with ⟨c, rfl⟩ | ⟨c, reason, rfl, hreason⟩
  · exact absurd he (unfold_ne_tooDeep project lenient remember c)
  · exact absurd hreason (hnever c reason)

end Catalogue

/-! ## Main statement -/

/-- **Leniency is conservative.** -/
theorem Project.tolerates_missing (project : Project) :
    (∀ {m : Type → Type} {σ : Type} [Monad m] [Execution m σ] (storage : Storage m) (r : Repository)
      (limit : Nat) (s : σ),
      (∀ c, (exec (project.unfold (r.lenient.collector storage) limit).run s).1 ≠
        .error (.tooDeep c)) →
      Tolerates (fun c reason => reason.IsUnread (r.descriptorPath c))
        (exec (project.unfold (r.strict.collector storage) limit).run s).1
        (exec (project.unfold (r.lenient.collector storage) limit).run s).1) ∧
    (∀ (t : FileTree) (r : Repository) (limit : Nat), t.declared.length < limit →
      Tolerates (fun c reason => reason.IsUnread (r.descriptorPath c))
        (exec (project.unfold (r.strict.collector FileTree.storage) limit).run (t, ())).1
        (exec (project.unfold (r.lenient.collector FileTree.storage) limit).run (t, ())).1) ∧
    ∀ (k : Catalogue) (remember : Bool),
      Tolerates (fun _ _ => False) (project.unfoldIn { k with strict := true } remember).1
        (project.unfoldIn { k with strict := false } remember).1 :=
  ⟨fun storage r _ _ hends => r.tolerates_of_ends storage hends,
    fun _ r _ hlimit => r.tolerates_of_ends FileTree.storage
      (FileTree.unfold_ne_tooDeep hlimit r.lenient project),
    fun k remember => k.tolerates_unknown remember project⟩

/-- A descriptor that declares nothing. -/
def goodDescriptor : String :=
  "[project]
group='o'
name='good'
version='1'
"

/-- A repository in the working directory, with this descriptor and one that is not valid. -/
def patchyStore : FileTree where
  entries := [(["o"], .directory), (["o", "bad"], .directory), (["o", "bad", "1"], .directory),
    (["o", "bad", "1", "bad-1.toml"], .file "x".toUTF8), (["o", "good"], .directory),
    (["o", "good", "1"], .directory), (["o", "good", "1", "good-1.toml"], .file goodDescriptor.toUTF8)]

def patchyRepository : Repository := { root := ⟨"."⟩ }

/-- Asks for the artifacts of these names, in order. -/
def patchyRequests (names : List String) : Project where
  coordinate := ⟨"o", "app", "jar", "1", none⟩
  dependencies := names.map fun name => { coordinate := ⟨"o", name, "jar", "1", none⟩ }

def patchyUnfolding (r : Repository) (names : List String) : Except UnfoldingFault Graph :=
  (exec ((patchyRequests names).unfold (r.collector FileTree.storage) 1).run (patchyStore, ())).1

/-- Where the artifact without a descriptor comes first, the strict unfolding ends at it, the lenient one
only at the descriptor that is not valid. Where that comes first, both end at it, with one fault. Where
neither is asked for, both succeed with one graph. -/
theorem tolerates_patchyRequests :
    patchyStore.declared.length < 1 ∧
      (Tolerates (fun c reason => reason.IsUnread (patchyRepository.descriptorPath c))
          (patchyUnfolding patchyRepository.strict ["gone", "bad"])
          (patchyUnfolding patchyRepository.lenient ["gone", "bad"]) ∧
        (∃ reason, patchyUnfolding patchyRepository.strict ["gone", "bad"] =
            .error (.uncollected ⟨"o", "gone", "jar", "1", none⟩ reason) ∧ reason.IsMissing) ∧
        ∃ reason, patchyUnfolding patchyRepository.lenient ["gone", "bad"] =
            .error (.uncollected ⟨"o", "bad", "jar", "1", none⟩ reason) ∧
          reason.cause = .invalidDescriptor ⟨"./o/bad/1/bad-1.toml"⟩) ∧
      (∃ reason, patchyUnfolding patchyRepository.strict ["bad", "gone"] =
          .error (.uncollected ⟨"o", "bad", "jar", "1", none⟩ reason) ∧
        reason.cause = .invalidDescriptor ⟨"./o/bad/1/bad-1.toml"⟩ ∧
        patchyUnfolding patchyRepository.lenient ["bad", "gone"] =
          .error (.uncollected ⟨"o", "bad", "jar", "1", none⟩ reason)) ∧
      ∃ g, patchyUnfolding patchyRepository.strict ["good"] = .ok g ∧ g.size = 2 ∧
        patchyUnfolding patchyRepository.lenient ["good"] = .ok g := by
  have hlimit : patchyStore.declared.length < 1 := by decide +kernel
  have htree := fun names => (patchyRequests names).tolerates_missing.2.1 patchyStore
    patchyRepository 1 hlimit
  have hbad : patchyUnfolding patchyRepository.strict ["bad", "gone"] = .error (.uncollected _ _) := rfl
  have hshown : (patchyUnfolding patchyRepository.strict ["good"]).toOption.map (·.size) = some 2 := by
    decide +kernel
  obtain ⟨g, hgood, hsize⟩ := Option.map_eq_some_iff.1 hshown
  have hgood := Accepted.eq_ok_of_toOption hgood
  refine ⟨hlimit, ⟨htree _, ⟨_, rfl, _, _, rfl⟩, _, rfl, rfl⟩, ?_, ?_⟩
  · refine ⟨_, hbad, rfl, (htree _).of_error _ hbad ?_⟩
    rintro ⟨_, _, hreason, _, _, hmissing⟩
    cases hreason
    cases hmissing
  · exact ⟨g, hgood, hsize, (htree _).of_ok g hgood⟩

end ArtifactTree
