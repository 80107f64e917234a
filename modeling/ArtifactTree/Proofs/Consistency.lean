import ArtifactTree.Proofs.Execution

/-!
# Collectors that answer consistently

A collector is consistent from some state on if every question has one answer, whatever else is asked
before it. Keeping the questions and remembering answers do not change that
(`ConsistentFrom.recorded`, `ConsistentFrom.cached`), so a table is consistent in front of both
(`Catalogue.consistentFrom`).

How a layer goes on from a state is one equation for each case: a question that is kept, one that is
served from memory and one that is new.
-/

namespace ArtifactTree

namespace Collector

variable {m : Type → Type} {σ τ : Type} [Monad m] [Execution m σ] {collector : Collector m}
  {answer : Coordinate → Answer} {s : σ}

namespace ConsistentFrom

theorem answered (h : collector.ConsistentFrom s answer) (c : Coordinate) :
    (exec (collector.collect c) s).1 = answer c := h [] c

theorem next (h : collector.ConsistentFrom s answer) (c : Coordinate) :
    collector.ConsistentFrom (exec (collector.collect c) s).2 answer :=
  fun asked => h (c :: asked)

/-- It suffices that the answers are right in a set of states that the collector does not leave. -/
theorem of_invariant (inv : σ → Prop)
    (hanswer : ∀ {s}, inv s → ∀ c, (exec (collector.collect c) s).1 = answer c)
    (hkeeps : ∀ {s}, inv s → ∀ c, inv (exec (collector.collect c) s).2) (hs : inv s) :
    collector.ConsistentFrom s answer := by
  intro asked c
  induction asked generalizing s with
  | nil => exact hanswer hs c
  | cons first asked ih => exact ih (hkeeps hs first)

/-- A state that the collector does not see does not matter. -/
theorem lifted (h : collector.ConsistentFrom s answer) (t : τ) :
    (⟨fun c => monadLift (collector.collect c)⟩ : Collector (StateT τ m)).ConsistentFrom (t, s)
      answer := by
  refine of_invariant (fun u => collector.ConsistentFrom u.2 answer) ?_ ?_ h
  · rintro ⟨t, s⟩ hs c
    rw [exec_lift]
    exact hs.answered c
  · rintro ⟨t, s⟩ hs c
    rw [exec_lift]
    exact hs.next c

end ConsistentFrom

/-! ## Questions that are kept -/

theorem exec_collect_recorded (collector : Collector m) (c : Coordinate) (calls : Calls) (s : σ) :
    exec (collector.recorded.collect c) (calls, s) =
      ((exec (collector.collect c) s).1, calls.push c, (exec (collector.collect c) s).2) := by
  rw [recorded, exec_bind, exec_modify, exec_lift]

theorem ConsistentFrom.recorded (h : collector.ConsistentFrom s answer) (calls : Calls) :
    collector.recorded.ConsistentFrom (calls, s) answer := by
  refine of_invariant (fun u => collector.ConsistentFrom u.2 answer) ?_ ?_ h
  · rintro ⟨calls, s⟩ hs c
    rw [exec_collect_recorded]
    exact hs.answered c
  · rintro ⟨calls, s⟩ hs c
    rw [exec_collect_recorded]
    exact hs.next c

/-! ## Answers that are remembered -/

/-- The memory after an answer: a fault leaves it as it is. -/
def Cache.remember (memory : Cache) (c : Coordinate) : Answer → Cache
  | .ok ds => (c, ds) :: memory
  | .error _ => memory

theorem Cache.lookup_remember_ok (memory : Cache) (c : Coordinate) (ds : List Declaration)
    (other : Coordinate) :
    (memory.remember c (.ok ds)).lookup other =
      if other = c then some ds else memory.lookup other := by
  rw [remember, List.lookup_cons]
  by_cases h : other = c
  · simp [h]
  · rw [beq_eq_false_iff_ne.2 h, if_neg h]

theorem exec_collect_cached_of_remembered (collector : Collector m) {c : Coordinate}
    {memory : Cache} {ds : List Declaration} (h : memory.lookup c = some ds) (s : σ) :
    exec (collector.cached.collect c) (memory, s) = (.ok ds, memory, s) := by
  rw [cached, exec_bind, exec_get, h]
  exact exec_pure _ _

theorem exec_collect_cached_of_new (collector : Collector m) {c : Coordinate} {memory : Cache}
    (h : memory.lookup c = none) (s : σ) :
    exec (collector.cached.collect c) (memory, s) =
      ((exec (collector.collect c) s).1, memory.remember c (exec (collector.collect c) s).1,
        (exec (collector.collect c) s).2) := by
  rw [cached, exec_bind, exec_get, h]
  dsimp only
  rw [exec_bind, exec_lift]
  cases (exec (collector.collect c) s).1 with
  | ok ds =>
    dsimp only
    rw [exec_bind, exec_modify, exec_pure, Cache.remember]
  | error reason => exact exec_pure _ _

/-- A memory in front does not lead the collector out of a set of states. -/
theorem keeps_cached (inv : σ → Prop)
    (hkeeps : ∀ {s}, inv s → ∀ c, inv (exec (collector.collect c) s).2) {u : Cache × σ}
    (hu : inv u.2) (c : Coordinate) : inv (exec (collector.cached.collect c) u).2.2 := by
  obtain ⟨memory, s⟩ := u
  cases hlookup : memory.lookup c with
  | some ds =>
    rw [exec_collect_cached_of_remembered collector hlookup]
    exact hu
  | none =>
    rw [exec_collect_cached_of_new collector hlookup]
    exact hkeeps hu c

/-- What is remembered was declared. -/
def Cache.Declared (memory : Cache) (declares : Coordinate → List Declaration → Prop) : Prop :=
  ∀ c ds, memory.lookup c = some ds → declares c ds

section Declared

variable {declares : Coordinate → List Declaration → Prop}

theorem Cache.declared_nil (declares : Coordinate → List Declaration → Prop) :
    Cache.Declared [] declares :=
  fun _ _ h => by cases h

theorem Cache.Declared.remember {memory : Cache} (h : memory.Declared declares) {c : Coordinate}
    {answered : Answer} (hanswered : ∀ ds, answered = .ok ds → declares c ds) :
    (memory.remember c answered).Declared declares := by
  cases answered with
  | error reason => exact h
  | ok ds =>
    intro c' ds' hlookup
    rw [Cache.lookup_remember_ok] at hlookup
    split at hlookup
    · next hsame =>
      obtain rfl := Option.some.inj hlookup
      exact hsame ▸ hanswered ds rfl
    · exact h c' ds' hlookup

/-- A memory in front gives again what was answered before. -/
theorem Answers.cached {inv : σ → Prop} (h : collector.Answers inv declares) :
    collector.cached.Answers (fun u => u.1.Declared declares ∧ inv u.2) declares where
  keeps := by
    rintro ⟨memory, s⟩ ⟨hmemory, hs⟩ c
    refine ⟨?_, keeps_cached inv h.keeps hs c⟩
    cases hlookup : memory.lookup c with
    | some ds =>
      rw [exec_collect_cached_of_remembered collector hlookup]
      exact hmemory
    | none =>
      rw [exec_collect_cached_of_new collector hlookup]
      exact hmemory.remember fun _ hds => h.tells hs hds
  tells := by
    rintro ⟨memory, s⟩ ⟨hmemory, hs⟩ c ds hanswer
    cases hlookup : memory.lookup c with
    | some ds' =>
      rw [exec_collect_cached_of_remembered collector hlookup] at hanswer
      obtain rfl := Except.ok.inj hanswer
      exact hmemory c _ hlookup
    | none =>
      rw [exec_collect_cached_of_new collector hlookup] at hanswer
      exact h.tells hs hanswer

end Declared

/-- What is remembered of an artifact is what is answered about it. -/
def Cache.Sound (memory : Cache) (answer : Coordinate → Answer) : Prop :=
  ∀ c ds, memory.lookup c = some ds → answer c = .ok ds

theorem Cache.sound_nil (answer : Coordinate → Answer) : Cache.Sound [] answer :=
  Cache.declared_nil _

theorem Cache.Sound.remember {memory : Cache} (h : memory.Sound answer) (c : Coordinate) :
    (memory.remember c (answer c)).Sound answer :=
  Cache.Declared.remember h fun _ hds => hds

theorem ConsistentFrom.cached (h : collector.ConsistentFrom s answer) {memory : Cache}
    (hmemory : memory.Sound answer) : collector.cached.ConsistentFrom (memory, s) answer := by
  refine of_invariant
    (fun u => u.1.Sound answer ∧ collector.ConsistentFrom u.2 answer) ?_ ?_ ⟨hmemory, h⟩
  · rintro ⟨memory, s⟩ ⟨hmemory, hs⟩ c
    cases hlookup : memory.lookup c with
    | some ds =>
      rw [exec_collect_cached_of_remembered collector hlookup]
      exact (hmemory c ds hlookup).symm
    | none =>
      rw [exec_collect_cached_of_new collector hlookup]
      exact hs.answered c
  · rintro ⟨memory, s⟩ ⟨hmemory, hs⟩ c
    cases hlookup : memory.lookup c with
    | some ds =>
      rw [exec_collect_cached_of_remembered collector hlookup]
      exact ⟨hmemory, hs⟩
    | none =>
      rw [exec_collect_cached_of_new collector hlookup, hs.answered c]
      exact ⟨hmemory.remember c, hs.next c⟩

end Collector

/-- A table answers consistently, with or without memory in front of it. -/
theorem Catalogue.consistentFrom (k : Catalogue) (remember : Bool) (calls : Collector.Calls) :
    (k.collector remember).ConsistentFrom ([], calls, ()) k.answer := by
  have htable : (Collector.ofFunction k.answer : Collector Id).ConsistentFrom () k.answer :=
    fun _ _ => rfl
  cases remember with
  | true => exact (htable.recorded calls).cached (Collector.Cache.sound_nil _)
  | false => exact (htable.recorded calls).lifted []

end ArtifactTree
