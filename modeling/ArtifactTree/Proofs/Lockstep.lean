import ArtifactTree.Proofs.Correspondence

/-!
# Two runs side by side

Two collectors that answer alike, in states that stay related, lead to runs that end alike
(`Collector.Alike.analyze`). This is a tie between the runs that sees declarations as they are.

The two runs may have different limits. The one with the lower limit may then be cut short where the
other goes on, and says nothing in that case. A collector is alike itself, hence a run that is not cut
short does not depend on its limit (`exec_unfold_of_le`).
-/

namespace ArtifactTree

/-- How two runs end side by side: with one value in states related by `R`, or with one fault in
states related by `F`. Unless their limits are the same, the first one may also be cut short. -/
inductive EndsAlike {σ σ' α : Type} (R F : σ → σ' → Prop) (same : Prop) :
    Except UnfoldingFault α × σ → Except UnfoldingFault α × σ' → Prop
  | answered {a s s'} (related : R s s') : EndsAlike R F same (.ok a, s) (.ok a, s')
  | faulted {e s s'} (related : F s s') : EndsAlike R F same (.error e, s) (.error e, s')
  | cutShort {c s run'} (differ : ¬ same) : EndsAlike R F same (.error (.tooDeep c), s) run'

namespace EndsAlike

variable {σ σ' α : Type} {R F : σ → σ' → Prop} {same : Prop} {run : Except UnfoldingFault α × σ}
  {run' : Except UnfoldingFault α × σ'} (h : EndsAlike R F same run run') (hsame : same)
include h hsame

theorem result_eq : run.1 = run'.1 := by
  cases h with
  | answered _ => rfl
  | faulted _ => rfl
  | cutShort differ => exact absurd hsame differ

theorem related (hR : ∀ s s', R s s' → F s s') : F run.2 run'.2 := by
  cases h with
  | answered related => exact hR _ _ related
  | faulted related => exact related
  | cutShort differ => exact absurd hsame differ

end EndsAlike

variable {m m' : Type → Type} {σ σ' : Type} [Monad m] [Execution m σ] [Monad m'] [Execution m' σ']

/-- From related states on, the two computations end alike. -/
def RunsAlike {α : Type} (R F : σ → σ' → Prop) (same : Prop) (x : Unfolding m α)
    (x' : Unfolding m' α) : Prop :=
  ∀ s s', R s s' → EndsAlike R F same (exec x.run s) (exec x'.run s')

/-- The tie of two runs that end alike. -/
def Tie.alike (R F : σ → σ' → Prop) (same : Prop) : Tie σ σ' where
  running := R
  ended := F
  alone e := ¬ same ∧ ∃ c, e = .tooDeep c

theorem Tie.Ends.alike {R F : σ → σ' → Prop} {same : Prop} {α : Type}
    {run : Except UnfoldingFault α × σ} {run' : Except UnfoldingFault α × σ'}
    (h : (Tie.alike R F same).Ends Eq run run') : EndsAlike R F same run run' := by
  cases h with
  | answered value running => exact value ▸ .answered running
  | faulted ended => exact .faulted ended
  | alone alone =>
    obtain ⟨hsame, c, rfl⟩ := alone
    exact .cutShort hsame

namespace Collector

/-- In states related by `R` the two collectors answer alike. Their next states are related by `R`
again, or by `F` if the answer was a fault. -/
structure Alike (collector : Collector m) (collector' : Collector m') (R F : σ → σ' → Prop) : Prop
    where
  answer : ∀ {s s'}, R s s' → ∀ c,
    (exec (collector.collect c) s).1 = (exec (collector'.collect c) s').1
  declared : ∀ {s s'}, R s s' → ∀ {c ds}, (exec (collector.collect c) s).1 = .ok ds →
    R (exec (collector.collect c) s).2 (exec (collector'.collect c) s').2
  faulted : ∀ {s s'}, R s s' → ∀ {c reason}, (exec (collector.collect c) s).1 = .error reason →
    F (exec (collector.collect c) s).2 (exec (collector'.collect c) s').2
  stops : ∀ {s s'}, R s s' → F s s'

/-- Every collector is alike itself. -/
theorem alike_self (collector : Collector m) :
    collector.Alike collector (fun s s' => s = s') fun s s' => s = s' := by
  refine ⟨?_, ?_, ?_, id⟩
  · rintro s _ rfl c
    rfl
  · rintro s _ rfl c ds -
    rfl
  · rintro s _ rfl c reason -
    rfl

namespace Alike

variable {collector : Collector m} {collector' : Collector m'} {R F : σ → σ' → Prop} {same : Prop}
  (h : collector.Alike collector' R F)
include h

theorem tied : collector.Tied collector' (Tie.alike R F same) .whole := by
  intro c s s' hs
  rw [Forest.exec_declared, Forest.exec_declared, ← h.answer hs c]
  cases hc : (exec (collector.collect c) s).1 with
  | ok ds => exact .answered rfl (h.declared hs hc)
  | error reason => exact .faulted (h.faulted hs hc)

/-- Runs with different limits may not be said to be the same. -/
theorem limits {limit limit' : Nat} (hlimit : limit ≤ limit') (hsame : same → limit = limit') :
    (Tie.alike R F same).Limits limit limit' := by
  refine ⟨hlimit, ?_⟩
  by_cases hcut : same
  · exact .inr ⟨hsame hcut, fun _ _ => h.stops⟩
  · exact .inl fun c => ⟨hcut, c, rfl⟩

variable {limit limit' : Nat} (hlimit : limit ≤ limit') (hsame : same → limit = limit')
include hlimit hsame

theorem runsAlike_ofProject (project : Coordinate) (ds : List Declaration) :
    RunsAlike R F same (Forest.ofProject collector limit project ds)
      (Forest.ofProject collector' limit' project ds) := by
  intro s s' hs
  have hends := h.tied.runs_ofProject (h.limits hlimit hsame) project
    (Declaration.View.alike_refl _ ds) s s' hs
  exact (hends.mono fun _ _ => Forest.Alike.eq).alike

/-- Alike collectors lead to the same graph or to the same fault. -/
theorem unfold (project : Project) :
    RunsAlike R F same (project.unfold collector limit) (project.unfold collector' limit') :=
  fun s s' hs => (h.tied.runs_unfold (h.limits hlimit hsame) project s s' hs).alike

/-- Alike collectors lead to the same analysis or to the same fault. -/
theorem analyze (project : Project) :
    RunsAlike R F same (project.analyze collector limit) (project.analyze collector' limit') :=
  fun s s' hs => (h.tied.runs_analyze (h.limits hlimit hsame) project s s' hs).alike

end Alike

end Collector

/-! ## Invariants -/

/-- A set of states that the collector does not leave is not left by an analysis, successful or not. -/
theorem Collector.keeps_analyze {collector : Collector m} (inv : σ → Prop)
    (hkeeps : ∀ {s}, inv s → ∀ c, inv (exec (collector.collect c) s).2) {s : σ} (hs : inv s)
    (project : Project) (limit : Nat) : inv (exec (project.analyze collector limit).run s).2 := by
  let R : σ → σ → Prop := fun s s' => s = s' ∧ inv s
  have hself : collector.Alike collector R R := by
    refine ⟨?_, ?_, ?_, id⟩
    · rintro s _ ⟨rfl, -⟩ c
      rfl
    · rintro s _ ⟨rfl, hs⟩ c ds -
      exact ⟨rfl, hkeeps hs c⟩
    · rintro s _ ⟨rfl, hs⟩ c reason -
      exact ⟨rfl, hkeeps hs c⟩
  have hends : EndsAlike R R True _ _ :=
    hself.analyze (Nat.le_refl limit) (fun _ => rfl) project s s ⟨rfl, hs⟩
  exact (hends.related trivial fun _ _ h => h).2

/-! ## Limits -/

/-- A run that is not cut short is the run under every higher limit. -/
theorem exec_unfold_of_le {project : Project} {collector : Collector m} {limit limit' : Nat} {s : σ}
    (hlimit : limit ≤ limit')
    (hends : ∀ c, (exec (project.unfold collector limit).run s).1 ≠ .error (.tooDeep c)) :
    exec (project.unfold collector limit').run s = exec (project.unfold collector limit).run s := by
  have halike := collector.alike_self.unfold hlimit False.elim project s s rfl
  generalize exec (project.unfold collector limit).run s = run,
    exec (project.unfold collector limit').run s = run' at halike hends
  cases halike with
  | answered related => rw [related]
  | faulted related => rw [related]
  | cutShort _ => exact absurd rfl (hends _)

end ArtifactTree
