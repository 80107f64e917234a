import ArtifactTree.Analysis
import ArtifactTree.Proofs.Execution

/-!
# Two runs tied together

An unfolding learns about the world from its collector alone. So what relates the answers of two
collectors, and the states that they leave behind, relates whole runs (`Collector.Tied.runs_ofProject`). A
`Tie` says what is kept between the runs while both go on, and with which faults the first one may end on
its own.

The answers need not be the same. Of a declaration, unfolding looks at the scope and at the coordinate
only; all else it takes along. So declarations are compared as a view shows them that leaves these two as
they are (`Declaration.View`), and the forests of the two runs are the same in that view.
-/

namespace ArtifactTree

/-! ## Views -/

/-- A way to look at declarations in which all that unfolding goes by can be seen. -/
structure Declaration.View where
  see : Declaration → Declaration
  scope_see : ∀ d, (see d).scope = d.scope
  coordinate_see : ∀ d, (see d).coordinate = d.coordinate

namespace Declaration.View

/-- Sees declarations as they are. -/
def whole : View := ⟨id, fun _ => rfl, fun _ => rfl⟩

variable (view : View) {d d' : Declaration}

theorem scope_eq (h : view.see d = view.see d') : d.scope = d'.scope := by
  rw [← view.scope_see d, h, view.scope_see]

theorem coordinate_eq (h : view.see d = view.see d') : d.coordinate = d'.coordinate := by
  rw [← view.coordinate_see d, h, view.coordinate_see]

/-- Whether two lists of declarations look the same. -/
def Alike (ds ds' : List Declaration) : Prop := ds.map view.see = ds'.map view.see

theorem alike_refl (ds : List Declaration) : view.Alike ds ds := rfl

end Declaration.View

namespace Forest

/-- The forest of the declarations as the view shows them. -/
def seen (view : Declaration.View) : Forest → Forest
  | nil => nil
  | cons d cycle below rest => cons (view.see d) cycle (below.seen view) (rest.seen view)

theorem seen_whole (forest : Forest) : forest.seen .whole = forest := by
  induction forest with
  | nil => rfl
  | cons d cycle below rest ihBelow ihRest => rw [seen, ihBelow, ihRest]; rfl

/-- Whether two forests look the same. -/
def Alike (view : Declaration.View) (forest forest' : Forest) : Prop :=
  forest.seen view = forest'.seen view

/-- What looks the same when seen as it is is the same. -/
theorem Alike.eq {forest forest' : Forest} (h : Alike .whole forest forest') : forest = forest' := by
  rw [← forest.seen_whole, h, forest'.seen_whole]

theorem Alike.cons {view : Declaration.View} {d d' : Declaration} {below below' rest rest' : Forest}
    (hd : view.see d = view.see d') (hbelow : Alike view below below') (hrest : Alike view rest rest')
    (cycle : Option Nat) :
    Alike view (cons d cycle below rest) (cons d' cycle below' rest') := by
  rw [Alike, seen, seen, hd, hbelow, hrest]

end Forest

/-! ## Ties -/

/-- What is kept between two runs, the second of which may go on where the first one ends. -/
structure Tie (σ σ' : Type) where
  /-- What holds of the states while both runs go on. -/
  running : σ → σ' → Prop
  /-- What holds of the states once both runs have ended with the same fault. -/
  ended : σ → σ' → Prop
  /-- The faults with which the first run may end, whatever the second one does. -/
  alone : UnfoldingFault → Prop

namespace Tie

variable {m m' : Type → Type} {σ σ' : Type} [Monad m] [Execution m σ] [Monad m'] [Execution m' σ']
  (tie : Tie σ σ') {α α' β β' : Type} {V : α → α' → Prop} {W : β → β' → Prop}

/-- How two runs end that are tied together: with values that `V` relates, with one fault, or the first
one with a fault that is allowed to it alone. -/
inductive Ends (V : α → α' → Prop) :
    Except UnfoldingFault α × σ → Except UnfoldingFault α' × σ' → Prop
  | answered {a a' s s'} (value : V a a') (running : tie.running s s') : Ends V (.ok a, s) (.ok a', s')
  | faulted {e s s'} (ended : tie.ended s s') : Ends V (.error e, s) (.error e, s')
  | alone {e s run'} (alone : tie.alone e) : Ends V (.error e, s) run'

/-- From tied states on, the two computations end tied. -/
def Runs (V : α → α' → Prop) (x : Unfolding m α) (x' : Unfolding m' α') : Prop :=
  ∀ s s', tie.running s s' → tie.Ends V (exec x.run s) (exec x'.run s')

variable {tie}

theorem Ends.mono {V' : α → α' → Prop} {run : Except UnfoldingFault α × σ}
    {run' : Except UnfoldingFault α' × σ'} (h : tie.Ends V run run')
    (hV : ∀ a a', V a a' → V' a a') : tie.Ends V' run run' := by
  cases h with
  | answered value running => exact .answered (hV _ _ value) running
  | faulted ended => exact .faulted ended
  | alone alone => exact .alone alone

namespace Runs

theorem pure {a : α} {a' : α'} (h : V a a') :
    tie.Runs V (pure a : Unfolding m α) (pure a' : Unfolding m' α') := by
  intro s s' hs
  rw [ExceptT.run_pure, ExceptT.run_pure, exec_pure, exec_pure]
  exact .answered h hs

theorem bind {x : Unfolding m α} {x' : Unfolding m' α'} {f : α → Unfolding m β}
    {f' : α' → Unfolding m' β'} (hx : tie.Runs V x x')
    (hf : ∀ a a', V a a' → tie.Runs W (f a) (f' a')) : tie.Runs W (x >>= f) (x' >>= f') := by
  intro s s' hs
  have hends := hx s s' hs
  rw [exec_run_bind, exec_run_bind]
  generalize exec x.run s = run, exec x'.run s' = run' at hends
  cases hends with
  | answered value running => exact hf _ _ value _ _ running
  | faulted ended => exact .faulted ended
  | alone alone => exact .alone alone

end Runs

/-- The limits of two runs with this tie. A run that is cut short has to be met by one that is cut short
at the same place, or may end so alone. -/
structure Limits (tie : Tie σ σ') (limit limit' : Nat) : Prop where
  le : limit ≤ limit'
  cut : (∀ c, tie.alone (.tooDeep c)) ∨
    limit = limit' ∧ ∀ s s', tie.running s s' → tie.ended s s'

theorem Limits.runs_throw {limit' : Nat} (h : tie.Limits 0 limit') (c : Coordinate)
    {x' : Unfolding m' α'} (hx' : limit' = 0 → x' = throw (.tooDeep c)) :
    tie.Runs V (throw (.tooDeep c) : Unfolding m α) x' := by
  intro s s' hs
  rw [ExceptT.run_throw, exec_pure]
  rcases h.cut with halone | ⟨hlimit, hended⟩
  · exact .alone (halone c)
  · rw [hx' hlimit.symm, ExceptT.run_throw, exec_pure]
    exact .faulted (hended s s' hs)

theorem Limits.pred {limit limit' : Nat} (h : tie.Limits (limit + 1) (limit' + 1)) :
    tie.Limits limit limit' :=
  ⟨Nat.le_of_succ_le_succ h.le,
    h.cut.imp_right fun ⟨hlimit, hended⟩ => ⟨Nat.succ.inj hlimit, hended⟩⟩

end Tie

/-! ## Collectors -/

variable {m m' : Type → Type} {σ σ' : Type} [Monad m] [Execution m σ] [Monad m'] [Execution m' σ']

/-- What the two collectors answer about an artifact looks the same, or ends the runs as the tie
allows. -/
def Collector.Tied (collector : Collector m) (collector' : Collector m') (tie : Tie σ σ')
    (view : Declaration.View) : Prop :=
  ∀ c, tie.Runs view.Alike (Forest.declared collector c) (Forest.declared collector' c)

namespace Collector.Tied

variable {collector : Collector m} {collector' : Collector m'} {tie : Tie σ σ'}
  {view : Declaration.View}

open Forest

theorem runs_ofDeclarations {expand : List Coordinate → Coordinate → Unfolding m Forest}
    {expand' : List Coordinate → Coordinate → Unfolding m' Forest}
    (hexpand : ∀ path c, tie.Runs (Forest.Alike view) (expand path c) (expand' path c))
    (path : List Coordinate) {ds ds' : List Declaration} (hds : view.Alike ds ds') :
    tie.Runs (Forest.Alike view) (ofDeclarations expand path ds) (ofDeclarations expand' path ds') := by
  induction ds generalizing ds' with
  | nil =>
    obtain rfl := List.map_eq_nil_iff.1 hds.symm
    exact .pure rfl
  | cons d ds ih =>
    obtain ⟨d', ds', rfl, hd, hrest⟩ := List.map_eq_cons_iff.1 hds.symm
    have hafter := ih hrest.symm
    rw [ofDeclarations, ofDeclarations, view.scope_eq hd, view.coordinate_eq hd]
    by_cases htest : d.scope = .test
    · rw [if_pos htest, if_pos htest]
      exact hafter
    · rw [if_neg htest, if_neg htest]
      cases path.idxOf? d.coordinate with
      | some level =>
        exact hafter.bind fun rest rest' hrest => .pure (.cons hd.symm rfl hrest _)
      | none =>
        exact (hexpand path d.coordinate).bind fun below below' hbelow =>
          hafter.bind fun rest rest' hrest => .pure (.cons hd.symm hbelow hrest _)

variable (h : collector.Tied collector' tie view) {limit limit' : Nat}
  (hlimits : tie.Limits limit limit')
include h hlimits

theorem runs_expand (path : List Coordinate) (c : Coordinate) :
    tie.Runs (Forest.Alike view) (expand collector limit path c) (expand collector' limit' path c) := by
  induction limit generalizing limit' path c with
  | zero => exact hlimits.runs_throw c fun hlimit => by rw [hlimit, expand]
  | succ limit ih =>
    obtain ⟨limit', rfl⟩ : ∃ k, limit' = k + 1 := ⟨limit' - 1, by have := hlimits.le; omega⟩
    exact (h c).bind fun ds ds' hds => runs_ofDeclarations (ih hlimits.pred) (path ++ [c]) hds

/-- Tied collectors unfold what looks the same to what looks the same. -/
theorem runs_ofProject (project : Coordinate) {ds ds' : List Declaration} (hds : view.Alike ds ds') :
    tie.Runs (Forest.Alike view) (ofProject collector limit project ds)
      (ofProject collector' limit' project ds') := by
  induction ds generalizing ds' with
  | nil =>
    obtain rfl := List.map_eq_nil_iff.1 hds.symm
    exact .pure rfl
  | cons d ds ih =>
    obtain ⟨d', ds', rfl, hd, hrest⟩ := List.map_eq_cons_iff.1 hds.symm
    rw [ofProject, ofProject, view.coordinate_eq hd]
    exact (h.runs_expand hlimits [project] d.coordinate).bind fun below below' hbelow =>
      (ih hrest.symm).bind fun rest rest' hrest => .pure (.cons hd.symm hbelow hrest _)

end Collector.Tied

section Same

variable {collector : Collector m} {collector' : Collector m'} {tie : Tie σ σ'}
  (h : collector.Tied collector' tie .whole) {limit limit' : Nat}
  (hlimits : tie.Limits limit limit') (project : Project)
include h hlimits

/-- Collectors that answer the same, as far as the tie lets both runs go on, lead to the same graph. -/
theorem Collector.Tied.runs_unfold :
    tie.Runs Eq (project.unfold collector limit) (project.unfold collector' limit') :=
  (h.runs_ofProject hlimits project.coordinate (Declaration.View.alike_refl _ _)).bind
    fun _ _ hforest => .pure (by rw [hforest.eq])

theorem Collector.Tied.runs_analyze :
    tie.Runs Eq (project.analyze collector limit) (project.analyze collector' limit') :=
  (h.runs_unfold hlimits project).bind fun _ _ hgraph => .pure (by rw [hgraph])

end Same

end ArtifactTree
