import ArtifactTree.Proofs.Consistency
import ArtifactTree.Proofs.Lockstep
import ArtifactTree.Proofs.Unfolding
import Mathlib.Data.Finset.Card
import Mathlib.Data.Finset.Dedup

/-!
# Unfolding comes to an end

Let all that is ever declared come from a finite set of coordinates. A declaration is expanded only if
its coordinate is new to the path above it, so every level takes one more coordinate of the set away
(`vacant_snoc_lt`). A limit above the number of coordinates that are left is never reached
(`endsFrom_expand`), however the declarations point at each other.

The direct dependencies are the exception: one of them may repeat the project. It takes nothing away,
and so the deepest node may be one level deeper than there are coordinates (`Unfolds.openPath`).

A table is such a finite set. Main statement: `unfoldIn_ends`.
-/

namespace ArtifactTree

variable {m : Type → Type} {σ : Type} [Monad m] [Execution m σ]

/-! ## Computations that are not cut short -/

/-- The run has a value that `Q` allows, or a fault of the collector. -/
inductive Ended {α : Type} (Q : α → σ → Prop) : Except UnfoldingFault α × σ → Prop
  | value {a s} (h : Q a s) : Ended Q (.ok a, s)
  | fault {c reason s} : Ended Q (.error (.uncollected c reason), s)

/-- From a state of `inv` on, the computation is not cut short. If it has a value, `P` holds of it and
the next state is in `inv` again. -/
def EndsFrom {α : Type} (inv : σ → Prop) (x : Unfolding m α) (P : α → Prop) : Prop :=
  ∀ s, inv s → Ended (fun a t => P a ∧ inv t) (exec x.run s)

namespace EndsFrom

variable {inv : σ → Prop} {α β : Type} {P : α → Prop} {Q : β → Prop}

theorem pure {a : α} (ha : P a) : EndsFrom inv (pure a : Unfolding m α) P := by
  intro s hs
  rw [ExceptT.run_pure, exec_pure]
  exact .value ⟨ha, hs⟩

theorem bind {x : Unfolding m α} {f : α → Unfolding m β} (hx : EndsFrom inv x P)
    (hf : ∀ a, P a → EndsFrom inv (f a) Q) : EndsFrom inv (x >>= f) Q := by
  intro s hs
  have hended := hx s hs
  rw [exec_run_bind]
  generalize exec x.run s = run at hended
  cases hended with
  | value h => exact hf _ h.1 _ h.2
  | fault => exact .fault

theorem ne_tooDeep {x : Unfolding m α} (h : EndsFrom inv x P) {s : σ} (hs : inv s) (c : Coordinate) :
    (exec x.run s).1 ≠ .error (.tooDeep c) := by
  have hended := h s hs
  generalize exec x.run s = run at hended
  cases hended with
  | value _ => exact fun h => by cases h
  | fault => exact fun h => by cases h

end EndsFrom

/-! ## Coordinates that a path leaves -/

/-- The number of coordinates of a set that are not on a path. -/
def vacant (S : Finset Coordinate) (path : List Coordinate) : Nat := (S.filter (· ∉ path)).card

theorem vacant_snoc_lt {S : Finset Coordinate} {path : List Coordinate} {c : Coordinate}
    (hc : c ∈ S) (hnew : c ∉ path) : vacant S (path ++ [c]) < vacant S path := by
  apply Finset.card_lt_card
  refine Finset.ssubset_iff_subset_ne.2 ⟨?_, fun heq => ?_⟩
  · intro other hother
    simp only [Finset.mem_filter, List.mem_append, not_or] at hother ⊢
    exact ⟨hother.1, hother.2.1⟩
  · have hmem : c ∈ S.filter (· ∉ path) := Finset.mem_filter.2 ⟨hc, hnew⟩
    rw [← heq, Finset.mem_filter] at hmem
    exact hmem.2 (List.mem_append_right _ List.mem_cons_self)

theorem vacant_le_card (S : Finset Coordinate) (path : List Coordinate) : vacant S path ≤ S.card :=
  Finset.card_le_card (Finset.filter_subset _ _)

theorem vacant_lt_card {S : Finset Coordinate} {path : List Coordinate} {c : Coordinate}
    (hc : c ∈ S) (hpath : c ∈ path) : vacant S path < S.card := by
  apply Finset.card_lt_card
  refine Finset.ssubset_iff_subset_ne.2 ⟨Finset.filter_subset _ _, fun heq => ?_⟩
  rw [← heq, Finset.mem_filter] at hc
  exact hc.2 hpath

namespace Forest

variable {collector : Collector m} {inv : σ → Prop}
  {declares : Coordinate → List Declaration → Prop} {S : Finset Coordinate}

theorem endsFrom_declared (hcollector : collector.Answers inv declares) (c : Coordinate) :
    EndsFrom inv (declared collector c) (declares c) := by
  intro s hs
  rw [exec_declared]
  cases hc : (exec (collector.collect c) s).1 with
  | ok ds => exact .value ⟨hcollector.tells hs hc, hcollector.keeps hs c⟩
  | error reason => exact .fault

theorem endsFrom_ofDeclarations {expand : List Coordinate → Coordinate → Unfolding m Forest}
    {path : List Coordinate} {ds : List Declaration}
    (hexpand : ∀ d ∈ ds, d.coordinate ∉ path →
      EndsFrom inv (expand path d.coordinate) fun _ => True) :
    EndsFrom inv (ofDeclarations expand path ds) fun _ => True := by
  induction ds with
  | nil => exact .pure trivial
  | cons d ds ih =>
    have hrest := ih fun e he => hexpand e (List.mem_cons_of_mem d he)
    rw [ofDeclarations]
    by_cases htest : d.scope = .test
    · rw [if_pos htest]
      exact hrest
    · rw [if_neg htest]
      cases hlevel : path.idxOf? d.coordinate with
      | some level => exact hrest.bind fun _ _ => .pure trivial
      | none =>
        have hnew : d.coordinate ∉ path := List.idxOf?_eq_none_iff.1 hlevel
        exact (hexpand d List.mem_cons_self hnew).bind fun _ _ => hrest.bind fun _ _ => .pure trivial

/-- A limit above the number of coordinates that the path leaves is not reached. -/
theorem endsFrom_expand (hcollector : collector.Answers inv declares)
    (hS : ∀ {c ds}, declares c ds → ∀ d ∈ ds, d.coordinate ∈ S) {limit : Nat}
    {path : List Coordinate} {c : Coordinate} (hlimit : vacant S (path ++ [c]) < limit) :
    EndsFrom inv (expand collector limit path c) fun _ => True := by
  induction limit generalizing path c with
  | zero => exact absurd hlimit (Nat.not_lt_zero _)
  | succ limit ih =>
    refine (endsFrom_declared hcollector c).bind fun ds hdeclares => ?_
    refine endsFrom_ofDeclarations fun d hd hnew => ih ?_
    have := vacant_snoc_lt (hS hdeclares d hd) hnew
    omega

theorem endsFrom_ofProject (hcollector : collector.Answers inv declares)
    (hS : ∀ {c ds}, declares c ds → ∀ d ∈ ds, d.coordinate ∈ S) {limit : Nat}
    {project : Coordinate} {ds : List Declaration}
    (hlimit : ∀ d ∈ ds, vacant S [project, d.coordinate] < limit) :
    EndsFrom inv (ofProject collector limit project ds) fun _ => True := by
  induction ds with
  | nil => exact .pure trivial
  | cons d ds ih =>
    have hfirst : EndsFrom inv (expand collector limit [project] d.coordinate) fun _ => True :=
      endsFrom_expand hcollector hS (hlimit d List.mem_cons_self)
    have hrest := ih fun e he => hlimit e (List.mem_cons_of_mem d he)
    exact hfirst.bind fun _ _ => hrest.bind fun _ _ => .pure trivial

theorem endsFrom_unfold (hcollector : collector.Answers inv declares)
    (hS : ∀ {c ds}, declares c ds → ∀ d ∈ ds, d.coordinate ∈ S) {limit : Nat} {project : Project}
    (hlimit : ∀ d ∈ project.dependencies, vacant S [project.coordinate, d.coordinate] < limit) :
    EndsFrom inv (project.unfold collector limit) fun _ => True :=
  (endsFrom_ofProject hcollector hS hlimit).bind fun _ _ => .pure trivial

/-! ## Depth -/

/-- The coordinates of the path, but for the project at its top, are distinct and in the set. -/
structure OpenPath (S : Finset Coordinate) (path : List Coordinate) : Prop where
  ne_nil : path ≠ []
  nodup : path.tail.Nodup
  subset : path.tail ⊆ S.toList

theorem OpenPath.snoc {path : List Coordinate} {c : Coordinate} (h : OpenPath S path) (hc : c ∈ S)
    (hnew : c ∉ path) : OpenPath S (path ++ [c]) where
  ne_nil := by simp
  nodup := by
    rw [List.tail_append_of_ne_nil h.ne_nil, List.nodup_append]
    refine ⟨h.nodup, List.nodup_singleton c, ?_⟩
    rintro a ha b hb rfl
    exact hnew (List.mem_singleton.1 hb ▸ List.mem_of_mem_tail ha)
  subset := by
    rw [List.tail_append_of_ne_nil h.ne_nil]
    exact List.append_subset.2 ⟨h.subset, by simpa using hc⟩

theorem OpenPath.length_le {path : List Coordinate} (h : OpenPath S path) :
    path.length ≤ S.card + 1 := by
  have hlength : path.tail.length ≤ S.toList.length := (h.nodup.subperm h.subset).length_le
  rw [List.length_tail, Finset.length_toList] at hlength
  omega

/-- Every place has an open path above it, as only open paths are gone on with. -/
theorem Unfolds.openPath (hS : ∀ {c ds}, declares c ds → ∀ d ∈ ds, d.coordinate ∈ S)
    {path : List Coordinate} {ds : List Declaration} {forest : Forest}
    (h : Unfolds declares path ds forest) (hds : ∀ d ∈ ds, d.coordinate ∈ S)
    (hpath : OpenPath S path) {ancestors : List Nat} {base : Nat} :
    ∀ p ∈ forest.places path ancestors base, OpenPath S p.path := by
  induction h generalizing ancestors base with
  | nil => simp [places]
  | skip _ _ ih => exact ih (fun d hd => hds d (List.mem_cons_of_mem _ hd)) hpath
  | marker _ _ _ ih =>
    intro p hp
    rcases mem_places_cons.1 hp with rfl | hp | hp
    · exact hpath
    · simp [places] at hp
    · exact ih (fun d hd => hds d (List.mem_cons_of_mem _ hd)) hpath p hp
  | @expanded path d ds inner below rest _ opens stated _ _ ihInside ihAfter =>
    intro p hp
    rcases mem_places_cons.1 hp with rfl | hp | hp
    · exact hpath
    · have hnew : d.coordinate ∉ path := List.idxOf?_eq_none_iff.1 opens
      exact ihInside (hS stated) (hpath.snoc (hds d List.mem_cons_self) hnew) p hp
    · exact ihAfter (fun d hd => hds d (List.mem_cons_of_mem _ hd)) hpath p hp

theorem UnfoldsProject.openPath (hS : ∀ {c ds}, declares c ds → ∀ d ∈ ds, d.coordinate ∈ S)
    {project : Coordinate} {ds : List Declaration} {forest : Forest}
    (h : UnfoldsProject declares project ds forest) (hds : ∀ d ∈ ds, d.coordinate ∈ S) {base : Nat} :
    ∀ p ∈ forest.places [project] [Graph.root] base, OpenPath S p.path := by
  induction h generalizing base with
  | nil => simp [places]
  | @cons d ds inner below rest stated inside _ ih =>
    intro p hp
    rcases mem_places_cons.1 hp with rfl | hp | hp
    · exact ⟨by simp, by simp, by simp⟩
    · -- the direct dependency is on the path whatever it asks for
      have hd : d.coordinate ∈ S := hds d List.mem_cons_self
      exact inside.openPath hS (hS stated) ⟨by simp, by simp, by simpa using hd⟩ p hp
    · exact ih (fun d hd => hds d (List.mem_cons_of_mem _ hd)) p hp

/-- No node is deeper than one level more than there are coordinates. -/
theorem UnfoldsProject.depth_le (hS : ∀ {c ds}, declares c ds → ∀ d ∈ ds, d.coordinate ∈ S)
    {project : Coordinate} {ds : List Declaration} {forest : Forest}
    (h : UnfoldsProject declares project ds forest) (hds : ∀ d ∈ ds, d.coordinate ∈ S) {id : Nat}
    (hid : id < (forest.toGraph project).size) :
    (forest.toGraph project).depth id ≤ S.card + 1 := by
  by_cases hroot : id = Graph.root
  · rw [hroot, (isTree_toGraph forest project).depth_root]
    exact Nat.zero_le _
  · obtain ⟨p, hp, rfl⟩ := exists_mem_placesBelow hid hroot
    have hlength : p.ancestors.length = p.path.length := by
      simpa using congrArg List.length (coordinates_ancestors hp)
    rw [depth_toGraph_of_mem_places hp, hlength]
    exact (h.openPath hS hds p hp).length_le

end Forest

/-! ## Tables -/

/-- All coordinates that the entries of the table declare, with repetitions. -/
def Catalogue.declared (k : Catalogue) : List Coordinate :=
  k.entries.flatMap fun entry => entry.2.map (·.coordinate)

theorem Catalogue.mem_declared {k : Catalogue} {c : Coordinate} {ds : List Declaration}
    (h : k.answer c = .ok ds) {d : Declaration} (hd : d ∈ ds) : d.coordinate ∈ k.declared := by
  unfold answer at h
  cases hlookup : k.entries.lookup c with
  | some stated =>
    simp only [hlookup, Except.ok.injEq] at h
    obtain ⟨before, after, hentries, -⟩ := List.lookup_eq_some_iff.1 hlookup
    rw [declared, hentries, List.mem_flatMap]
    refine ⟨(c, stated), by simp, List.mem_map_of_mem ?_⟩
    rw [h]
    exact hd
  | none =>
    cases hstrict : k.strict <;> simp [hlookup, hstrict] at h
    rw [h] at hd
    cases hd

theorem Catalogue.depthLimit_eq (k : Catalogue) : k.depthLimit = k.declared.length + 2 := by
  obtain ⟨entries, strict⟩ := k
  induction entries with
  | nil => rfl
  | cons entry entries ih =>
    simp only [depthLimit, declared, List.foldr_cons, List.flatMap_cons, List.length_append,
      List.length_map] at ih ⊢
    omega

/-- The distinct coordinates among a project, its declarations and those of a table. -/
def Project.coordinatesIn (project : Project) (k : Catalogue) : Finset Coordinate :=
  (project.coordinate :: project.dependencies.map (·.coordinate) ++ k.declared).toFinset

section Table

variable {project : Project} {k : Catalogue}

theorem Project.mem_coordinatesIn_of_declared {c : Coordinate} {ds : List Declaration}
    (h : k.answer c = .ok ds) : ∀ d ∈ ds, d.coordinate ∈ project.coordinatesIn k := by
  intro d hd
  have := Catalogue.mem_declared h hd
  simp [coordinatesIn, this]

theorem Project.mem_coordinatesIn_of_dependency {d : Declaration} (hd : d ∈ project.dependencies) :
    d.coordinate ∈ project.coordinatesIn k := by
  have : d.coordinate ∈ project.dependencies.map (·.coordinate) := List.mem_map_of_mem hd
  simp [coordinatesIn, this]

/-- With at least as many levels as coordinates, no run is cut short. -/
theorem unfold_ne_tooDeep_of_card_le {limit : Nat} (hlimit : (project.coordinatesIn k).card ≤ limit)
    (remember : Bool) (c : Coordinate) :
    (exec (project.unfold (k.collector remember) limit).run ([], #[], ())).1 ≠
      .error (.tooDeep c) := by
  have hproject : project.coordinate ∈ project.coordinatesIn k := by simp [Project.coordinatesIn]
  have hends : EndsFrom _ (project.unfold (k.collector remember) limit) fun _ => True :=
    Forest.endsFrom_unfold ((k.collector remember).answers_consistently k.answer)
      Project.mem_coordinatesIn_of_declared fun d _ =>
        Nat.lt_of_lt_of_le (vacant_lt_card hproject List.mem_cons_self) hlimit
  exact hends.ne_tooDeep (k.consistentFrom remember #[]) c

/-- The limit of a table is one of those under which no run is cut short. -/
theorem unfold_ne_tooDeep (project : Project) (k : Catalogue) (remember : Bool) (c : Coordinate) :
    (exec (project.unfold (k.collector remember) k.depthLimit).run ([], #[], ())).1 ≠
      .error (.tooDeep c) := by
  have hdeclared : ∀ {c ds}, k.answer c = .ok ds → ∀ d ∈ ds, d.coordinate ∈ k.declared.toFinset :=
    fun h d hd => List.mem_toFinset.2 (Catalogue.mem_declared h hd)
  have hlimit : ∀ path, vacant k.declared.toFinset path < k.depthLimit := fun path => by
    have := vacant_le_card k.declared.toFinset path
    have := k.declared.toFinset_card_le
    rw [k.depthLimit_eq]
    omega
  have hends : EndsFrom _ (project.unfold (k.collector remember) k.depthLimit) fun _ => True :=
    Forest.endsFrom_unfold ((k.collector remember).answers_consistently k.answer) hdeclared
      fun d _ => hlimit _
  exact hends.ne_tooDeep (k.consistentFrom remember #[]) c

theorem unfoldIn_fst (project : Project) (k : Catalogue) (remember : Bool) :
    (project.unfoldIn k remember).1 =
      (exec (project.unfold (k.collector remember) k.depthLimit).run ([], #[], ())).1 := rfl

end Table

/-- **Unfolding by a table ends**, whatever points at what. From as many levels on as there are
distinct coordinates, the limit does not matter and the run is not cut short; and no node is deeper
than one level more than that. -/
theorem unfoldIn_ends (project : Project) (k : Catalogue) (remember : Bool) :
    (∀ limit, (project.coordinatesIn k).card ≤ limit →
      exec (project.unfold (k.collector remember) limit).run ([], #[], ()) =
        exec (project.unfold (k.collector remember) k.depthLimit).run ([], #[], ())) ∧
    (∀ c, (project.unfoldIn k remember).1 ≠ .error (.tooDeep c)) ∧
    ∀ g, (project.unfoldIn k remember).1 = .ok g → ∀ id < g.size,
      g.depth id ≤ (project.coordinatesIn k).card + 1 := by
  refine ⟨fun limit hlimit => ?_, unfold_ne_tooDeep project k remember, fun g hg id hid => ?_⟩
  · -- both runs are the run under the higher of the two limits
    have hgiven := exec_unfold_of_le (Nat.le_max_left limit k.depthLimit)
      (unfold_ne_tooDeep_of_card_le hlimit remember)
    have htable := exec_unfold_of_le (Nat.le_max_right limit k.depthLimit)
      (unfold_ne_tooDeep project k remember)
    rw [← hgiven, htable]
  · rw [unfoldIn_fst] at hg
    obtain ⟨forest, hforest, rfl⟩ := unfoldsProject_of_exec_unfold
      ((k.collector remember).answers_consistently k.answer) (k.consistentFrom remember #[]) hg
    exact hforest.depth_le Project.mem_coordinatesIn_of_declared
      (fun d hd => Project.mem_coordinatesIn_of_dependency hd) hid

/-- A project that asks for itself. -/
def loopRequest : Project where
  coordinate := ⟨"org", "app", "jar", "1", none⟩
  dependencies := [{ coordinate := ⟨"org", "app", "jar", "1", none⟩ }]

/-- Two artifacts that ask for each other. -/
def loopTable : Catalogue := .ofList [
  (⟨"org", "app", "jar", "1", none⟩, [{ coordinate := ⟨"org", "web", "jar", "1", none⟩ }]),
  (⟨"org", "web", "jar", "1", none⟩, [{ coordinate := ⟨"org", "app", "jar", "1", none⟩ }])] false

/-- Two coordinates give a chain of three levels, `app`, `web` and the marker of the project. -/
theorem unfoldIn_ends_loopTable :
    (loopRequest.coordinatesIn loopTable).card = 2 ∧
      exec (loopRequest.unfold (loopTable.collector true) 2).run ([], #[], ()) =
        exec (loopRequest.unfold (loopTable.collector true) loopTable.depthLimit).run
          ([], #[], ()) ∧
      ∃ g, (loopRequest.unfoldIn loopTable true).1 = .ok g ∧ 3 < g.size ∧ g.depth 3 = 3 ∧
        g.depth 3 ≤ (loopRequest.coordinatesIn loopTable).card + 1 := by
  have hcard : (loopRequest.coordinatesIn loopTable).card = 2 := by decide +kernel
  obtain ⟨hlimit, -, hdepth⟩ := unfoldIn_ends loopRequest loopTable true
  have hg : (loopRequest.unfoldIn loopTable true).1 = .ok _ := rfl
  refine ⟨hcard, hlimit 2 (Nat.le_of_eq hcard), _, hg, by decide +kernel, by decide +kernel, ?_⟩
  exact hdepth _ hg 3 (by decide +kernel)

end ArtifactTree
