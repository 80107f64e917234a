import ArtifactTree.Unfolding

/-!
# Running a collector from a state

A collector answers in a monad. `Execution` is what the statements about its runs need of that monad:
a computation started in a state gives one result and one next state. A table, a table behind a
cache and a repository in a file tree are all of this kind, and so is any state machine that answers
the same question differently at different times.

An unfolding that succeeds is peeled apart by `exec_run_bind_ok`. What a run may rely on is said of
single answers (`Collector.Answers`): a set of states that the collector does not leave, and what an
answer given in such a state says.
-/

namespace ArtifactTree

/-- A monad whose computations are run from a state. -/
class Execution (m : Type → Type) [Monad m] (σ : outParam Type) where
  /-- The result of a computation and the state it leaves behind. -/
  exec {α : Type} (x : m α) (s : σ) : α × σ
  exec_pure {α : Type} (a : α) (s : σ) : exec (pure a) s = (a, s)
  exec_bind {α β : Type} (x : m α) (f : α → m β) (s : σ) :
    exec (x >>= f) s = exec (f (exec x s).1) (exec x s).2

export Execution (exec exec_pure exec_bind)

instance : Execution Id Unit where
  exec x s := (x, s)
  exec_pure _ _ := rfl
  exec_bind _ _ _ := rfl

instance {m : Type → Type} {σ τ : Type} [Monad m] [Execution m σ] :
    Execution (StateT τ m) (τ × σ) where
  exec x s :=
    let (result, s') := exec (x.run s.1) s.2
    (result.1, result.2, s')
  exec_pure a s := by rw [StateT.run_pure, exec_pure]
  exec_bind x f s := by rw [StateT.run_bind, exec_bind]

variable {m : Type → Type} {σ : Type} [Monad m] [Execution m σ]

/-! ## States in layers -/

section Layers

variable {τ : Type}

theorem exec_stateT {α : Type} (x : StateT τ m α) (t : τ) (s : σ) :
    exec x (t, s) = ((exec (x.run t) s).1.1, (exec (x.run t) s).1.2, (exec (x.run t) s).2) := rfl

theorem exec_get (t : τ) (s : σ) : exec (get : StateT τ m τ) (t, s) = (t, t, s) := by
  rw [exec_stateT, StateT.run_get, exec_pure]

theorem exec_modify (f : τ → τ) (t : τ) (s : σ) :
    exec (modify f : StateT τ m PUnit) (t, s) = (⟨⟩, f t, s) := by
  rw [exec_stateT, StateT.run_modify, exec_pure]

/-- What is done in the layer below does not see the state above. -/
theorem exec_lift {α : Type} (x : m α) (t : τ) (s : σ) :
    exec (monadLift x : StateT τ m α) (t, s) = ((exec x s).1, t, (exec x s).2) := by
  have hrun : (monadLift x : StateT τ m α).run t = x >>= fun a => pure (a, t) := rfl
  rw [exec_stateT, hrun, exec_bind, exec_pure]

end Layers

/-! ## Computations that may fail -/

/-- A sequence ends with the fault of its first step or goes on from where that step ended. -/
theorem exec_run_bind {ε α β : Type} (x : ExceptT ε m α) (f : α → ExceptT ε m β) (s : σ) :
    exec (x >>= f).run s =
      match exec x.run s with
      | (.ok a, t) => exec (f a).run t
      | (.error e, t) => (.error e, t) := by
  rw [ExceptT.run_bind, exec_bind]
  rcases exec x.run s with ⟨⟨⟩ | a, t⟩
  · exact exec_pure _ t
  · rfl

/-- A sequence that succeeds is two steps that succeed. -/
theorem exec_run_bind_ok {ε α β : Type} {x : ExceptT ε m α} {f : α → ExceptT ε m β} {s t : σ}
    {b : β} (h : exec (x >>= f).run s = (.ok b, t)) :
    ∃ a u, exec x.run s = (.ok a, u) ∧ exec (f a).run u = (.ok b, t) := by
  rw [exec_run_bind] at h
  rcases hx : exec x.run s with ⟨⟨⟩ | a, u⟩
  · rw [hx] at h
    cases h
  · rw [hx] at h
    exact ⟨a, u, rfl, h⟩

theorem exec_run_pure_ok {ε α : Type} {a b : α} {s t : σ}
    (h : exec (pure a : ExceptT ε m α).run s = (.ok b, t)) : a = b ∧ s = t := by
  rw [ExceptT.run_pure, exec_pure] at h
  simpa using h

/-- A collector is asked once, and a fault is told with the coordinate. -/
theorem Forest.exec_declared (collector : Collector m) (c : Coordinate) (s : σ) :
    exec (Forest.declared collector c).run s =
      ((exec (collector.collect c) s).1.mapError (.uncollected c),
        (exec (collector.collect c) s).2) := by
  simp only [Forest.declared, ExceptT.run_mk, exec_bind]
  cases (exec (collector.collect c) s).1 with
  | ok ds => exact exec_pure _ _
  | error reason => exact exec_pure _ _

namespace Collector

/-- The state after some questions. -/
def after (collector : Collector m) (asked : List Coordinate) (s : σ) : σ :=
  asked.foldl (fun s c => (exec (collector.collect c) s).2) s

/-- From `s` on, whatever else is asked, every question is answered by `answer`. -/
def ConsistentFrom (collector : Collector m) (s : σ) (answer : Coordinate → Answer) : Prop :=
  ∀ asked c, (exec (collector.collect c) (collector.after asked s)).1 = answer c

/-- In a state of `inv` the collector stays in `inv`, and whatever it answers about an artifact is what
the artifact declares. -/
structure Answers (collector : Collector m) (inv : σ → Prop)
    (declares : Coordinate → List Declaration → Prop) : Prop where
  keeps : ∀ {s}, inv s → ∀ c, inv (exec (collector.collect c) s).2
  tells : ∀ {s}, inv s → ∀ {c ds}, (exec (collector.collect c) s).1 = .ok ds → declares c ds

/-- Nothing is asked of an arbitrary collector. -/
theorem answers_anything (collector : Collector m) :
    collector.Answers (fun _ => True) fun _ _ => True :=
  ⟨fun _ _ => trivial, fun _ _ _ _ => trivial⟩

/-- A consistent collector stays consistent and declares what its answers declare. -/
theorem answers_consistently (collector : Collector m) (answer : Coordinate → Answer) :
    collector.Answers (fun s => collector.ConsistentFrom s answer)
      fun c ds => answer c = .ok ds where
  keeps hs c asked := hs (c :: asked)
  tells hs c ds h := by rw [← hs [] c]; exact h

end Collector

/-- An answer that an unfolding uses is an answer of the collector. -/
theorem Collector.Answers.declared {collector : Collector m} {inv : σ → Prop}
    {declares : Coordinate → List Declaration → Prop} (h : collector.Answers inv declares) {c : Coordinate}
    {s t : σ} {ds : List Declaration} (hs : inv s)
    (hd : exec (Forest.declared collector c).run s = (.ok ds, t)) : inv t ∧ declares c ds := by
  rw [Forest.exec_declared, Prod.mk.injEq] at hd
  obtain ⟨hanswer, rfl⟩ := hd
  refine ⟨h.keeps hs c, h.tells hs ?_⟩
  cases hc : (exec (collector.collect c) s).1 with
  | ok answered =>
    rw [hc] at hanswer
    exact congrArg Except.ok (Except.ok.inj hanswer)
  | error reason =>
    rw [hc] at hanswer
    cases hanswer

end ArtifactTree
