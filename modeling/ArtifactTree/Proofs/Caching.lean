import ArtifactTree.Proofs.Consistency
import ArtifactTree.Proofs.Lockstep

/-!
# A memory in front of a collector

While the answers of a collector do not change, a memory in front of it cannot be told from the
collector itself. An analysis through the memory and a plain one run side by side, and the calls that
reach the collector are those of the plain run without repetitions (`Follows`).

When the answers change, an artifact keeps the first answer about it that was not a fault. This is
said of a `Session`, in which a table is changed between the questions. What the memory holds is what
the history of answers tells (`Collector.Cache.Recalls`).

Main statement: `cached_transparent`.
-/

namespace ArtifactTree

/-! ## Calls without repetitions -/

section EraseDups

variable {α : Type} [BEq α] [LawfulBEq α] {a : α} {l : List α}

theorem eraseDups_snoc_of_mem (h : a ∈ l) : (l ++ [a]).eraseDups = l.eraseDups := by
  simp [List.eraseDups_append, List.removeAll, h]

theorem eraseDups_snoc_of_notMem (h : a ∉ l) : (l ++ [a]).eraseDups = l.eraseDups ++ [a] := by
  simp [List.eraseDups_append, List.removeAll, h, List.eraseDups_cons]

end EraseDups

variable {m : Type → Type} {σ : Type} [Monad m] [Execution m σ] {collector : Collector m}
  {answer : Coordinate → Answer}

open Collector

/-! ## Answers that do not change -/

section Consistent

variable {m' : Type → Type} {σ' : Type} [Monad m'] [Execution m' σ'] {collector' : Collector m'}

/-- Where every question has one answer, it does not matter who is asked. -/
theorem alike_of_consistent (collector : Collector m) (collector' : Collector m')
    (answer : Coordinate → Answer) : collector.Alike collector'
      (fun s s' => collector.ConsistentFrom s answer ∧ collector'.ConsistentFrom s' answer)
      fun _ _ => True where
  answer hs c := (hs.1.answered c).trans (hs.2.answered c).symm
  declared hs c _ _ := ⟨hs.1.next c, hs.2.next c⟩
  faulted _ _ _ _ := trivial
  stops _ := trivial

theorem analyze_eq_of_consistent {s : σ} {s' : σ'} (h : collector.ConsistentFrom s answer)
    (h' : collector'.ConsistentFrom s' answer) (project : Project) (limit : Nat) :
    (exec (project.analyze collector' limit).run s').1 =
      (exec (project.analyze collector limit).run s).1 :=
  ((alike_of_consistent collector' collector answer).analyze (Nat.le_refl limit) (fun _ => rfl)
    project s' s ⟨h', h⟩).result_eq trivial

theorem ofProject_eq_of_consistent {s : σ} {s' : σ'} (h : collector.ConsistentFrom s answer)
    (h' : collector'.ConsistentFrom s' answer) (limit : Nat) (project : Coordinate)
    (ds : List Declaration) :
    (exec (Forest.ofProject collector' limit project ds).run s').1 =
      (exec (Forest.ofProject collector limit project ds).run s).1 :=
  ((alike_of_consistent collector' collector answer).runsAlike_ofProject (Nat.le_refl limit)
    (fun _ => rfl) project ds s' s ⟨h', h⟩).result_eq trivial

end Consistent

/-- Where a run through a memory stands next to the plain run, which has had no fault yet: what was
called for is remembered, and the calls behind the memory are those calls without repetitions. -/
structure Follows (collector : Collector m) (answer : Coordinate → Answer)
    (through : Cache × Calls × σ) (plain : Calls × σ) : Prop where
  inner : collector.ConsistentFrom through.2.2 answer
  direct : collector.ConsistentFrom plain.2 answer
  sound : through.1.Sound answer
  remembered : ∀ c, (through.1.lookup c).isSome ↔ c ∈ plain.1.toList
  calls : through.2.1.toList = plain.1.toList.eraseDups

theorem follows_start {s : σ} (h : collector.ConsistentFrom s answer) :
    Follows collector answer ([], #[], s) (#[], s) where
  inner := h
  direct := h
  sound := Cache.sound_nil answer
  remembered := by simp
  calls := rfl

namespace Follows

variable {memory : Cache} {calls calls' : Calls} {s s' : σ}
  (h : Follows collector answer (memory, calls', s') (calls, s))
include h

theorem notMem_of_lookup {c : Coordinate} (hlookup : memory.lookup c = none) : c ∉ calls.toList :=
  fun hmem => by simpa [hlookup] using (h.remembered c).2 hmem

theorem declared {c : Coordinate} {ds : List Declaration} (hc : answer c = .ok ds) :
    Follows collector answer (exec (collector.recorded.cached.collect c) (memory, calls', s')).2
      (exec (collector.recorded.collect c) (calls, s)).2 := by
  rw [exec_collect_recorded]
  cases hlookup : memory.lookup c with
  | some stated =>
    -- only the plain run calls, and it repeats a call
    rw [exec_collect_cached_of_remembered _ hlookup]
    have hmem : c ∈ calls.toList := (h.remembered c).1 (by simp [hlookup])
    exact
      { inner := h.inner
        direct := h.direct.next c
        sound := h.sound
        remembered := fun other => by
          rw [Array.toList_push, List.mem_append, List.mem_singleton, h.remembered other]
          exact ⟨.inl, fun hother => hother.elim id fun heq => heq ▸ hmem⟩
        calls := by rw [Array.toList_push, eraseDups_snoc_of_mem hmem, h.calls] }
  | none =>
    -- both runs call, for the first time
    rw [exec_collect_cached_of_new _ hlookup, exec_collect_recorded, h.inner.answered c]
    exact
      { inner := h.inner.next c
        direct := h.direct.next c
        sound := h.sound.remember c
        remembered := fun other => by
          rw [Array.toList_push, List.mem_append, List.mem_singleton, ← h.remembered other, hc,
            Cache.lookup_remember_ok]
          by_cases hother : other = c <;> simp [hother]
        calls := by
          rw [Array.toList_push, Array.toList_push,
            eraseDups_snoc_of_notMem (h.notMem_of_lookup hlookup), h.calls] }

theorem faulted {c : Coordinate} {reason : Fault} (hc : answer c = .error reason) :
    (exec (collector.recorded.cached.collect c) (memory, calls', s')).2.2.1.toList =
      (exec (collector.recorded.collect c) (calls, s)).2.1.toList.eraseDups := by
  have hlookup : memory.lookup c = none := by
    cases hlookup : memory.lookup c with
    | none => rfl
    | some ds =>
      rw [h.sound c ds hlookup] at hc
      cases hc
  rw [exec_collect_cached_of_new _ hlookup, exec_collect_recorded, exec_collect_recorded,
    Array.toList_push, Array.toList_push, eraseDups_snoc_of_notMem (h.notMem_of_lookup hlookup),
    h.calls]

end Follows

theorem alike_cached_recorded (collector : Collector m) (answer : Coordinate → Answer) :
    collector.recorded.cached.Alike collector.recorded (Follows collector answer)
      fun through plain => through.2.1.toList = plain.1.toList.eraseDups := by
  have hanswer : ∀ {through plain}, Follows collector answer through plain → ∀ c,
      (exec (collector.recorded.cached.collect c) through).1 = answer c ∧
        (exec (collector.recorded.collect c) plain).1 = answer c :=
    fun {through plain} h c => ⟨((h.inner.recorded through.2.1).cached h.sound).answered c,
      (h.direct.recorded plain.1).answered c⟩
  exact
    { answer := fun h c => (hanswer h c).1.trans (hanswer h c).2.symm
      declared := fun h c _ hc => h.declared ((hanswer h c).1.symm.trans hc)
      faulted := fun h c reason hc => h.faulted ((hanswer h c).1.symm.trans hc)
      stops := fun h => h.calls }

/-- An analysis through a memory has the result of the plain one, and behind the memory the calls of
the plain one without repetitions. -/
theorem analyze_cached_recorded {s : σ} (h : collector.ConsistentFrom s answer) (project : Project)
    (limit : Nat) :
    let through := exec (project.analyze collector.recorded.cached limit).run ([], #[], s)
    let plain := exec (project.analyze collector.recorded limit).run (#[], s)
    through.1 = plain.1 ∧ through.2.2.1.toList = plain.2.1.toList.eraseDups := by
  have hends := (alike_cached_recorded collector answer).analyze (Nat.le_refl limit)
    (fun _ : True => rfl) project _ _ (follows_start h)
  exact ⟨hends.result_eq trivial, hends.related trivial fun _ _ => Follows.calls⟩

/-! ## Answers that change -/

/-- What is done to a table and to the memory in front of it. -/
inductive Session.Act where
  | insert (c : Coordinate) (ds : List Declaration)
  | collect (c : Coordinate)

/-- A table, the memory in front of it, and all questions with their answers, in order. -/
structure Session where
  table : Catalogue
  memory : Cache := []
  calls : Calls := #[]
  given : List (Coordinate × Answer) := []

namespace Session

/-- The answer to a question, and what the memory and the calls are after it. -/
def ask (s : Session) (c : Coordinate) : Answer × Cache × Calls × Unit :=
  exec ((s.table.collector true).collect c) (s.memory, s.calls, ())

def next (s : Session) : Act → Session
  | .insert c ds => { s with table := s.table.insert c ds }
  | .collect c =>
    { s with
      memory := (s.ask c).2.1
      calls := (s.ask c).2.2.1
      given := s.given ++ [(c, (s.ask c).1)] }

/-- The session with a table, after some acts. -/
def after (k : Catalogue) (acts : List Act) : Session := acts.foldl next { table := k }

end Session

/-- The first answer about an artifact that is not a fault. -/
def firstDeclared (given : List (Coordinate × Answer)) (c : Coordinate) :
    Option (List Declaration) :=
  given.findSome? fun entry => if entry.1 = c then entry.2.toOption else none

/-- The artifacts of all answers that are not faults. -/
def collected (given : List (Coordinate × Answer)) : List Coordinate :=
  (given.filter (·.2.isOk)).map (·.1)

theorem firstDeclared_snoc (given : List (Coordinate × Answer)) (c : Coordinate) (answer : Answer)
    (other : Coordinate) :
    firstDeclared (given ++ [(c, answer)]) other =
      (firstDeclared given other).or (if c = other then answer.toOption else none) := by
  simp [firstDeclared, List.findSome?_append]

theorem collected_snoc (given : List (Coordinate × Answer)) (c : Coordinate) (answer : Answer) :
    collected (given ++ [(c, answer)]) = collected given ++ if answer.isOk then [c] else [] := by
  cases h : answer.isOk <;> simp [collected, h]

theorem mem_collected_iff {given : List (Coordinate × Answer)} {c : Coordinate} :
    c ∈ collected given ↔ (firstDeclared given c).isSome := by
  simp only [collected, firstDeclared, List.findSome?_isSome_iff, List.mem_map, List.mem_filter]
  constructor
  · rintro ⟨⟨_, answer⟩, ⟨hmem, hok⟩, rfl⟩
    refine ⟨_, hmem, ?_⟩
    cases answer with
    | ok ds => simp [Except.toOption]
    | error reason => cases hok
  · rintro ⟨⟨c', answer⟩, hmem, hsome⟩
    cases answer with
    | ok ds =>
      by_cases hc : c' = c
      · exact ⟨_, ⟨hmem, rfl⟩, hc⟩
      · simp [hc] at hsome
    | error reason => simp [Except.toOption] at hsome

/-- The memory is what the history of answers tells. -/
structure Collector.Cache.Recalls (memory : Cache) (given : List (Coordinate × Answer)) : Prop where
  lookup : ∀ c, memory.lookup c = firstDeclared given c
  length : memory.length = (collected given).eraseDups.length

namespace Collector.Cache.Recalls

variable {memory : Cache} {given : List (Coordinate × Answer)} {c : Coordinate}
  (h : memory.Recalls given)
include h

theorem isSome_lookup_iff : (memory.lookup c).isSome ↔ c ∈ collected given := by
  rw [h.lookup c, mem_collected_iff]

/-- An answer from memory adds nothing to what the history tells. -/
theorem again {ds : List Declaration} (hlookup : memory.lookup c = some ds) :
    memory.Recalls (given ++ [(c, .ok ds)]) where
  lookup other := by
    rw [firstDeclared_snoc, ← h.lookup other]
    by_cases hother : c = other
    · rw [← hother, hlookup, Option.some_or]
    · rw [if_neg hother, Option.or_none]
  length := by
    have hasked : c ∈ collected given := h.isSome_lookup_iff.1 (by rw [hlookup]; rfl)
    rw [collected_snoc, h.length]
    exact congrArg List.length (eraseDups_snoc_of_mem hasked).symm

/-- A new answer is remembered, unless it is a fault. -/
theorem remember (hlookup : memory.lookup c = none) (answer : Answer) :
    (memory.remember c answer).Recalls (given ++ [(c, answer)]) := by
  cases answer with
  | ok ds =>
    have hnew : c ∉ collected given := fun hasked => by
      simpa only [hlookup, Option.isSome_none, Bool.false_eq_true] using h.isSome_lookup_iff.2 hasked
    refine ⟨fun other => ?_, ?_⟩
    · rw [lookup_remember_ok, firstDeclared_snoc, ← h.lookup other]
      by_cases hother : other = c
      · rw [if_pos hother, if_pos hother.symm, hother, hlookup]
        rfl
      · rw [if_neg hother, if_neg (Ne.symm hother), Option.or_none]
    · have hcollected : collected (given ++ [(c, .ok ds)]) = collected given ++ [c] :=
        collected_snoc given c (.ok ds)
      rw [hcollected, eraseDups_snoc_of_notMem hnew, List.length_append, ← h.length]
      rfl
  | error reason =>
    refine ⟨fun other => ?_, ?_⟩
    · rw [Cache.remember, firstDeclared_snoc, ← h.lookup other]
      simp [Except.toOption]
    · have hcollected : collected (given ++ [(c, .error reason)]) = collected given ++ [] :=
        collected_snoc given c (.error reason)
      rw [hcollected, List.append_nil, Cache.remember, h.length]

end Collector.Cache.Recalls

namespace Session

variable {s : Session} {c : Coordinate}

theorem ask_of_remembered {ds : List Declaration} (h : s.memory.lookup c = some ds) :
    s.ask c = (.ok ds, s.memory, s.calls, ()) :=
  exec_collect_cached_of_remembered _ h _

theorem ask_of_new (h : s.memory.lookup c = none) :
    s.ask c = (s.table.answer c, s.memory.remember c (s.table.answer c), s.calls.push c, ()) :=
  exec_collect_cached_of_new _ h _

/-- A fault is not remembered. -/
theorem memory_of_fault {reason : Fault} (hc : (s.ask c).1 = .error reason) :
    (s.ask c).2.1 = s.memory := by
  cases hlookup : s.memory.lookup c with
  | some ds => rw [ask_of_remembered hlookup]
  | none =>
    rw [ask_of_new hlookup] at hc ⊢
    dsimp only at hc ⊢
    rw [hc, Cache.remember]

theorem answer_of_recalls (h : s.memory.Recalls s.given) (c : Coordinate) :
    (s.ask c).1 = (firstDeclared s.given c).elim (s.table.answer c) .ok := by
  rw [← h.lookup c]
  cases hlookup : s.memory.lookup c with
  | some ds => rw [ask_of_remembered hlookup, Option.elim]
  | none => rw [ask_of_new hlookup, Option.elim]

theorem recalls_next (h : s.memory.Recalls s.given) (act : Act) :
    (s.next act).memory.Recalls (s.next act).given := by
  cases act with
  | insert c ds => exact h
  | collect c =>
    rw [next]
    cases hlookup : s.memory.lookup c with
    | some ds =>
      rw [ask_of_remembered hlookup]
      exact h.again hlookup
    | none =>
      rw [ask_of_new hlookup]
      exact h.remember hlookup (s.table.answer c)

theorem recalls_after (k : Catalogue) (acts : List Act) :
    (after k acts).memory.Recalls (after k acts).given := by
  have hrun : ∀ s : Session, s.memory.Recalls s.given →
      (acts.foldl next s).memory.Recalls (acts.foldl next s).given := by
    induction acts with
    | nil => exact fun _ h => h
    | cons act acts ih => exact fun s h => ih _ (recalls_next h act)
  exact hrun _ ⟨fun _ => rfl, rfl⟩

end Session

/-- **A memory is transparent.** In front of a collector whose answers do not change, it leaves every
analysis as it is and keeps the repeated calls away from the collector. In front of a table that
changes, an artifact keeps the first answer about it that is not a fault, and faults are answered
from the table every time; as many answers are remembered as artifacts have got one. -/
theorem cached_transparent (collector : Collector m) (k : Catalogue) (acts : List Session.Act)
    (c : Coordinate) :
    (∀ {answer : Coordinate → Answer} {s : σ}, collector.ConsistentFrom s answer →
      ∀ (project : Project) (limit : Nat),
        let through := exec (project.analyze collector.recorded.cached limit).run ([], #[], s)
        let plain := exec (project.analyze collector.recorded limit).run (#[], s)
        through.1 = plain.1 ∧ through.2.2.1.toList = plain.2.1.toList.eraseDups ∧
          (exec (project.analyze collector.cached limit).run ([], s)).1 =
            (exec (project.analyze collector limit).run s).1) ∧
    let s := Session.after k acts
    (s.ask c).1 = (firstDeclared s.given c).elim (s.table.answer c) .ok ∧
      (∀ reason, (s.ask c).1 = .error reason → (s.ask c).2.1 = s.memory) ∧
      s.memory.length = (collected s.given).eraseDups.length := by
  refine ⟨fun hconsistent project limit => ?_, ?_⟩
  · obtain ⟨hresult, hcalls⟩ := analyze_cached_recorded hconsistent project limit
    have hbare := analyze_eq_of_consistent hconsistent
      (hconsistent.cached (Cache.sound_nil _)) project limit
    exact ⟨hresult, hcalls, hbare⟩
  · have hrecalls := Session.recalls_after k acts
    exact ⟨Session.answer_of_recalls hrecalls c, fun _ => Session.memory_of_fault, hrecalls.length⟩

/-- A project with two dependencies. -/
def sharingRequests : Project where
  coordinate := ⟨"org", "app", "jar", "1", none⟩
  dependencies := [
    { coordinate := ⟨"org", "web", "jar", "1", none⟩ },
    { coordinate := ⟨"org", "log", "jar", "1", none⟩ }]

/-- All artifacts but `core` ask for `core`. -/
def sharingAnswer (c : Coordinate) : Answer :=
  .ok (if c.name = "core" then [] else [{ coordinate := ⟨"org", "core", "jar", "1", none⟩ }])

/-- The artifact `core` becomes known after the first question about it, and declares something else
after the second one. -/
def coreRevisions : List Session.Act := [
  .collect ⟨"org", "core", "jar", "1", none⟩,
  .insert ⟨"org", "core", "jar", "1", none⟩ [],
  .collect ⟨"org", "core", "jar", "1", none⟩,
  .insert ⟨"org", "core", "jar", "1", none⟩ [{ coordinate := ⟨"org", "log", "jar", "1", none⟩ }]]

/-- The analysis succeeds with a graph of five nodes, and the second call for `core` does not reach the
collector; and of a revised `core` the memory still
gives the first answer that was no fault. -/
theorem cached_transparent_sharingRequests :
    let collector : Collector Id := .ofFunction sharingAnswer
    let through := exec (sharingRequests.analyze collector.recorded.cached 3).run ([], #[], ())
    let plain := exec (sharingRequests.analyze collector.recorded 3).run (#[], ())
    let core : Coordinate := ⟨"org", "core", "jar", "1", none⟩
    let s := Session.after { strict := true } coreRevisions
    (plain.2.1.toList.map (·.name) = ["web", "core", "log", "core"] ∧
        (∃ analysis, through.1 = .ok analysis ∧ plain.1 = .ok analysis ∧ analysis.graph.size = 5) ∧
        through.2.2.1.toList = plain.2.1.toList.eraseDups) ∧
      s.given.map (·.2.isOk) = [false, true] ∧ firstDeclared s.given core = some [] ∧
      (s.ask core).1 = (firstDeclared s.given core).elim (s.table.answer core) .ok ∧
      s.memory.length = (collected s.given).eraseDups.length := by
  obtain ⟨hruns, hanswer, -, hlength⟩ := cached_transparent
    (.ofFunction sharingAnswer : Collector Id) { strict := true } coreRevisions
    ⟨"org", "core", "jar", "1", none⟩
  obtain ⟨hresult, hcalls, -⟩ := hruns (fun _ _ => rfl) sharingRequests 3
  have hplain : (exec (sharingRequests.analyze
      (.ofFunction sharingAnswer : Collector Id).recorded 3).run (#[], ())).1 = .ok _ := rfl
  exact ⟨⟨by decide +kernel, ⟨_, hresult.trans hplain, hplain, by decide +kernel⟩, hcalls⟩,
    by decide +kernel, by decide +kernel, hanswer, hlength⟩

end ArtifactTree
