import ArtifactTree.Analysis
import ArtifactTree.Proofs.Execution
import ArtifactTree.Proofs.Tree

/-!
# The graph of a project is its complete unfolding

`Forest.Unfolds` and `Forest.UnfoldsProject` say, declaration by declaration, which forest stands for
what artifacts declare. Unfolding by a collector gives such a forest (`unfoldsProject_of_exec`), and
no place of it is a nested test declaration, so the pruning that follows has nothing to detach
(`pruneNestedTests_toGraph`).

Main statement: `exec_unfold_complete`. The graph that a consistent collector leads to is complete:
below each node stands exactly what the collector declares for it.
-/

namespace ArtifactTree

/-- The declarations that count below the first level. -/
def nestedOnly (ds : List Declaration) : List Declaration := ds.filter (·.scope ≠ .test)

namespace Forest

variable {declares : Coordinate → List Declaration → Prop}

/-! ## Which forest unfolds what is declared -/

/-- The forest unfolds declarations below the artifacts of a path. `declares` tells what an
artifact declares. -/
inductive Unfolds (declares : Coordinate → List Declaration → Prop) :
    List Coordinate → List Declaration → Forest → Prop
  | nil {path} : Unfolds declares path [] nil
  | skip {path d ds forest} (test : d.scope = .test) (after : Unfolds declares path ds forest) :
    Unfolds declares path (d :: ds) forest
  | marker {path d ds level rest} (nested : d.scope ≠ .test)
    (closes : path.idxOf? d.coordinate = some level) (after : Unfolds declares path ds rest) :
    Unfolds declares path (d :: ds) (cons d (some level) nil rest)
  | expanded {path d ds inner below rest} (nested : d.scope ≠ .test)
    (opens : path.idxOf? d.coordinate = none) (stated : declares d.coordinate inner)
    (inside : Unfolds declares (path ++ [d.coordinate]) inner below)
    (after : Unfolds declares path ds rest) :
    Unfolds declares path (d :: ds) (cons d none below rest)

/-- The forest unfolds the declarations of a project, each of them, whatever its scope. -/
inductive UnfoldsProject (declares : Coordinate → List Declaration → Prop) (project : Coordinate) :
    List Declaration → Forest → Prop
  | nil : UnfoldsProject declares project [] nil
  | cons {d ds inner below rest} (stated : declares d.coordinate inner)
    (inside : Unfolds declares [project, d.coordinate] inner below)
    (after : UnfoldsProject declares project ds rest) :
    UnfoldsProject declares project (d :: ds) (cons d none below rest)

theorem Unfolds.declarations {path : List Coordinate} {ds : List Declaration} {forest : Forest}
    (h : Unfolds declares path ds forest) : forest.declarations = nestedOnly ds := by
  induction h with
  | nil => rfl
  | skip test _ ih => simp [ih, nestedOnly, test]
  | marker nested _ _ ih => simp [Forest.declarations, ih, nestedOnly, nested]
  | expanded nested _ _ _ _ _ ih => simp [Forest.declarations, ih, nestedOnly, nested]

theorem UnfoldsProject.declarations {project : Coordinate} {ds : List Declaration}
    {forest : Forest} (h : UnfoldsProject declares project ds forest) : forest.declarations = ds := by
  induction h with
  | nil => rfl
  | cons _ _ _ ih => rw [Forest.declarations, ih]

/-! ## The places of such a forest -/

/-- What unfolding declares about a place. -/
structure Place.Explained (declares : Coordinate → List Declaration → Prop) (p : Place) : Prop where
  direct : p.ancestors.length < 2 → p.cycle = none
  scope : 2 ≤ p.ancestors.length → p.declaration.scope ≠ .test
  cycle : 2 ≤ p.ancestors.length → p.cycle = p.path.idxOf? p.declaration.coordinate
  marker : p.cycle ≠ none → p.below = nil
  expanded : p.cycle = none →
    ∃ inner, declares p.declaration.coordinate inner ∧ p.below.declarations = nestedOnly inner

theorem Unfolds.explained {path : List Coordinate} {ds : List Declaration} {forest : Forest}
    (h : Unfolds declares path ds forest) {ancestors : List Nat} (hlevel : 2 ≤ ancestors.length)
    {base : Nat} : ∀ p ∈ forest.places path ancestors base, p.Explained declares := by
  induction h generalizing ancestors base with
  | nil => simp [places]
  | skip _ _ ih => exact ih hlevel
  | @marker path d ds level rest nested closes _ ih =>
    intro p hp
    rcases mem_places_cons.1 hp with rfl | hp | hp
    · exact
        { direct := fun h => absurd hlevel (Nat.not_le.2 h)
          scope := fun _ => nested
          cycle := fun _ => closes.symm
          marker := fun _ => rfl
          expanded := fun h => by cases h }
    · simp [places] at hp
    · exact ih hlevel p hp
  | @expanded path d ds inner below rest nested opens hdeclares inside _ ihInside ihAfter =>
    intro p hp
    rcases mem_places_cons.1 hp with rfl | hp | hp
    · exact
        { direct := fun _ => rfl
          scope := fun _ => nested
          cycle := fun _ => opens.symm
          marker := fun h => absurd rfl h
          expanded := fun _ => ⟨inner, hdeclares, inside.declarations⟩ }
    · exact ihInside (by rw [List.length_append]; omega) p hp
    · exact ihAfter hlevel p hp

theorem UnfoldsProject.explained {project : Coordinate} {ds : List Declaration} {forest : Forest}
    (h : UnfoldsProject declares project ds forest) {base : Nat} :
    ∀ p ∈ forest.places [project] [Graph.root] base, p.Explained declares := by
  induction h generalizing base with
  | nil => simp [places]
  | @cons d ds inner below rest hdeclares inside _ ih =>
    intro p hp
    rcases mem_places_cons.1 hp with rfl | hp | hp
    · exact
        { direct := fun _ => rfl
          scope := fun h => by simp at h
          cycle := fun h => by simp at h
          marker := fun h => absurd rfl h
          expanded := fun _ => ⟨inner, hdeclares, inside.declarations⟩ }
    · exact inside.explained (by simp) p hp
    · exact ih p hp

section Stated

variable {P : Declaration → Prop} (hdeclares : ∀ {c ds}, declares c ds → ∀ d ∈ ds, P d)
include hdeclares

/-- The declarations at the places are stated somewhere. -/
theorem Unfolds.forall_places {path : List Coordinate} {ds : List Declaration} {forest : Forest}
    (h : Unfolds declares path ds forest) (hds : ∀ d ∈ ds, P d) {ancestors : List Nat}
    {base : Nat} : ∀ p ∈ forest.places path ancestors base, P p.declaration := by
  induction h generalizing ancestors base with
  | nil => simp [places]
  | skip _ _ ih => exact ih fun d hd => hds d (List.mem_cons_of_mem _ hd)
  | marker _ _ _ ih =>
    intro p hp
    rcases mem_places_cons.1 hp with rfl | hp | hp
    · exact hds _ List.mem_cons_self
    · simp [places] at hp
    · exact ih (fun d hd => hds d (List.mem_cons_of_mem _ hd)) p hp
  | expanded _ _ stated _ _ ihInside ihAfter =>
    intro p hp
    rcases mem_places_cons.1 hp with rfl | hp | hp
    · exact hds _ List.mem_cons_self
    · exact ihInside (hdeclares stated) p hp
    · exact ihAfter (fun d hd => hds d (List.mem_cons_of_mem _ hd)) p hp

theorem UnfoldsProject.forall_places {project : Coordinate} {ds : List Declaration}
    {forest : Forest} (h : UnfoldsProject declares project ds forest) (hds : ∀ d ∈ ds, P d)
    {base : Nat} : ∀ p ∈ forest.places [project] [Graph.root] base, P p.declaration := by
  induction h generalizing base with
  | nil => simp [places]
  | cons stated inside _ ih =>
    intro p hp
    rcases mem_places_cons.1 hp with rfl | hp | hp
    · exact hds _ List.mem_cons_self
    · exact inside.forall_places hdeclares (hdeclares stated) p hp
    · exact ih (fun d hd => hds d (List.mem_cons_of_mem _ hd)) p hp

end Stated

/-! ## Unfolding gives such a forest -/

section Exec

variable {m : Type → Type} {σ : Type} [Monad m] [Execution m σ] {collector : Collector m}
  {inv : σ → Prop}

/-- The loop over the declarations of one artifact, given what the expansion of each of them does. -/
theorem unfolds_of_exec_ofDeclarations {expand : List Coordinate → Coordinate → Unfolding m Forest}
    (hexpand : ∀ {path c forest s t}, inv s → exec (expand path c).run s = (.ok forest, t) →
      inv t ∧ ∃ inner, declares c inner ∧ Unfolds declares (path ++ [c]) inner forest)
    {path : List Coordinate} {ds : List Declaration} {forest : Forest} {s t : σ} (hs : inv s)
    (h : exec (ofDeclarations expand path ds).run s = (.ok forest, t)) :
    inv t ∧ Unfolds declares path ds forest := by
  induction ds generalizing forest s t with
  | nil =>
    obtain ⟨rfl, rfl⟩ := exec_run_pure_ok h
    exact ⟨hs, .nil⟩
  | cons d ds ih =>
    rw [ofDeclarations] at h
    by_cases htest : d.scope = .test
    · rw [if_pos htest] at h
      obtain ⟨ht, hrest⟩ := ih hs h
      exact ⟨ht, .skip htest hrest⟩
    · rw [if_neg htest] at h
      cases hc : path.idxOf? d.coordinate with
      | some level =>
        simp only [hc] at h
        obtain ⟨rest, u, hrest, h⟩ := exec_run_bind_ok h
        obtain ⟨rfl, rfl⟩ := exec_run_pure_ok h
        obtain ⟨ht, hrest⟩ := ih hs hrest
        exact ⟨ht, .marker htest hc hrest⟩
      | none =>
        simp only [hc] at h
        obtain ⟨below, u, hbelow, h⟩ := exec_run_bind_ok h
        obtain ⟨rest, v, hrest, h⟩ := exec_run_bind_ok h
        obtain ⟨rfl, rfl⟩ := exec_run_pure_ok h
        obtain ⟨hu, inner, hdeclares, hbelow⟩ := hexpand hs hbelow
        obtain ⟨ht, hrest⟩ := ih hu hrest
        exact ⟨ht, .expanded htest hc hdeclares hbelow hrest⟩

theorem unfolds_of_exec_expand (hcollector : collector.Answers inv declares) {limit : Nat}
    {path : List Coordinate} {c : Coordinate} {forest : Forest} {s t : σ} (hs : inv s)
    (h : exec (expand collector limit path c).run s = (.ok forest, t)) :
    inv t ∧ ∃ inner, declares c inner ∧ Unfolds declares (path ++ [c]) inner forest := by
  induction limit generalizing path c forest s t with
  | zero =>
    simp only [expand, ExceptT.run_throw, exec_pure] at h
    cases h
  | succ limit ih =>
    obtain ⟨inner, u, hdeclared, h⟩ := exec_run_bind_ok h
    obtain ⟨hu, hdeclares⟩ := hcollector.declared hs hdeclared
    obtain ⟨ht, hforest⟩ := unfolds_of_exec_ofDeclarations ih hu h
    exact ⟨ht, inner, hdeclares, hforest⟩

/-- Unfolding a project gives a forest that unfolds it. -/
theorem unfoldsProject_of_exec (hcollector : collector.Answers inv declares) {limit : Nat}
    {project : Coordinate} {ds : List Declaration} {forest : Forest} {s t : σ} (hs : inv s)
    (h : exec (ofProject collector limit project ds).run s = (.ok forest, t)) :
    UnfoldsProject declares project ds forest := by
  induction ds generalizing forest s t with
  | nil =>
    obtain ⟨rfl, rfl⟩ := exec_run_pure_ok h
    exact .nil
  | cons d ds ih =>
    obtain ⟨below, u, hbelow, h⟩ := exec_run_bind_ok h
    obtain ⟨rest, v, hrest, h⟩ := exec_run_bind_ok h
    obtain ⟨rfl, rfl⟩ := exec_run_pure_ok h
    obtain ⟨hu, inner, hdeclares, hbelow⟩ := unfolds_of_exec_expand hcollector hs hbelow
    exact .cons hdeclares hbelow (ih hu hrest)

end Exec

end Forest

/-! ## Pruning detaches nothing -/

namespace Graph

theorem pruneAt_eq_self {g : Graph} {id : Nat} (h : ∀ c ∈ g.children id, mayNest (g.node c)) :
    g.pruneAt id = (g, 0) := by
  have hkept : g.retainChildren id mayNest = g := by
    have hfilter := List.filter_eq_self.2 h
    apply modify_eq_self
    rw [hfilter]
    rfl
  simp [pruneAt, hkept]

/-- Where no nested test node is reachable, pruning leaves the graph as it is. -/
theorem pruneNestedTests_eq_self {g : Graph}
    (h : ∀ id ∈ g.preorder, id ≠ root → ∀ c ∈ g.children id, mayNest (g.node c)) :
    g.pruneNestedTests = (g, 0) := by
  have hfold : ∀ ids : List Nat, (∀ id ∈ ids, id ∈ g.preorder ∧ id ≠ root) →
      ids.foldl (fun (state : Graph × Nat) id =>
        ((state.1.pruneAt id).1, state.2 + (state.1.pruneAt id).2)) (g, 0) = (g, 0) := by
    intro ids
    induction ids with
    | nil => intro _; rfl
    | cons id ids ih =>
      intro hids
      obtain ⟨hid, hroot⟩ := hids id List.mem_cons_self
      rw [List.foldl_cons, pruneAt_eq_self (h id hid hroot)]
      exact ih fun other ho => hids other (List.mem_cons_of_mem _ ho)
  apply hfold
  intro id hid
  simpa using List.mem_filter.1 hid

end Graph

namespace Forest

open ArtifactTree.Graph

variable {declares : Coordinate → List Declaration → Prop} {project : Coordinate}
  {dependencies : List Declaration} {forest : Forest}

/-- What is below a place is at least on the second level. -/
theorem two_le_length_of_mem_inner {p q : Place} (hp : p ∈ forest.placesBelow project)
    (hq : q ∈ p.inner) : 2 ≤ q.ancestors.length := by
  have hlength := length_le_of_mem_places hq
  have := one_le_length_ancestors hp
  rw [Place.innerAncestors, List.length_append, List.length_singleton] at hlength
  omega

theorem pruneNestedTests_toGraph (h : UnfoldsProject declares project dependencies forest) :
    (forest.toGraph project).pruneNestedTests = (forest.toGraph project, 0) := by
  apply pruneNestedTests_eq_self
  intro id _ hroot c hc
  by_cases hid : id < (forest.toGraph project).size
  · obtain ⟨p, hp, rfl⟩ := exists_mem_placesBelow hid hroot
    rw [children_toGraph_of_mem_places hp] at hc
    obtain ⟨q, hq, rfl, -⟩ :=
      exists_place_of_mem_ids p.innerPath p.innerAncestors hc
    have hq' := mem_places_of_mem_inner hp hq
    rw [node_toGraph_of_mem_places hq']
    simpa [mayNest, Place.node, Node.ofDeclaration] using
      (h.explained q hq').scope (two_le_length_of_mem_inner hp hq)
  · rw [children, node_of_size_le (Nat.le_of_not_lt hid)] at hc
    cases hc

end Forest

section Exec

variable {m : Type → Type} {σ : Type} [Monad m] [Execution m σ] {collector : Collector m}
  {inv : σ → Prop} {declares : Coordinate → List Declaration → Prop}

/-- The graph that unfolding a project leads to is a forest laid out. -/
theorem unfoldsProject_of_exec_unfold (hcollector : collector.Answers inv declares) {limit : Nat}
    {project : Project} {g : Graph} {s : σ} (hs : inv s)
    (h : (exec (project.unfold collector limit).run s).1 = .ok g) :
    ∃ forest, Forest.UnfoldsProject declares project.coordinate project.dependencies forest ∧
      g = forest.toGraph project.coordinate := by
  obtain ⟨t, h⟩ : ∃ t, exec (project.unfold collector limit).run s = (.ok g, t) :=
    ⟨_, Prod.ext h rfl⟩
  obtain ⟨forest, u, hforest, h⟩ := exec_run_bind_ok h
  obtain ⟨rfl, rfl⟩ := exec_run_pure_ok h
  have hunfolds := Forest.unfoldsProject_of_exec hcollector hs hforest
  exact ⟨forest, hunfolds, congrArg Prod.fst (Forest.pruneNestedTests_toGraph hunfolds)⟩

end Exec

/-! ## Completeness -/

/-- The node stands for the declaration. -/
structure Node.Requests (n : Node) (d : Declaration) : Prop where
  coordinate : n.coordinate = some d.coordinate
  scope : n.scope = some d.scope
  optional : n.optional = d.optional
  exclusions : n.exclusions = d.exclusions

/-- The graph unfolds the declarations of a project completely, where `answer` tells what artifacts
declare. -/
structure Graph.CompleteUnfolding (g : Graph) (project : Coordinate)
    (dependencies : List Declaration) (answer : Coordinate → Answer) : Prop where
  project : (g.node root).coordinate = some project
  /-- The children of the root are the declarations of the project. -/
  direct : List.Forall₂ (fun child d => (g.node child).Requests d) (g.children root) dependencies
  /-- The children of any other node but a cycle marker are what its artifact declares, without the
  test declarations. -/
  nested : ∀ id, id < g.size → id ≠ root → (g.node id).cycleOf = none →
    ∃ c declared, (g.node id).coordinate = some c ∧ answer c = .ok declared ∧
      List.Forall₂ (fun child d => (g.node child).Requests d) (g.children id)
        (declared.filter (·.scope ≠ .test))
  parent : ∀ id, ∀ child ∈ g.children id, (g.node child).parent = some id
  /-- The project and its direct dependencies are no cycle markers. -/
  cycleOf_direct : ∀ id, g.depth id < 2 → (g.node id).cycleOf = none
  /-- Any other node is one exactly if an ancestor has its coordinate, and then of the first such
  ancestor from the root. -/
  cycleOf_nested : ∀ id, id < g.size → 2 ≤ g.depth id →
    (g.node id).cycleOf =
      (g.ancestors id).reverse.find? fun a => (g.node a).coordinate = (g.node id).coordinate
  marker : ∀ id, (g.node id).cycleOf ≠ none → g.children id = []
  /-- Ids are depth-first numbers, so every node hangs in the tree. -/
  preorder : g.preorder = List.range g.size

namespace Forest

open ArtifactTree.Graph

variable {declares : Coordinate → List Declaration → Prop} {project : Coordinate}
  {dependencies : List Declaration} {forest : Forest}

theorem requests_of_mem_places {p : Place} (hp : p ∈ forest.placesBelow project) :
    ((forest.toGraph project).node p.id).Requests p.declaration := by
  rw [node_toGraph_of_mem_places hp]
  exact ⟨rfl, rfl, rfl, rfl⟩

/-- What holds of the project's coordinate and of all that is stated holds of all coordinates. -/
theorem UnfoldsProject.forall_coordinates {P : Coordinate → Prop}
    (h : UnfoldsProject declares project dependencies forest)
    (hdeclares : ∀ {c ds}, declares c ds → ∀ d ∈ ds, P d.coordinate) (hproject : P project)
    (hds : ∀ d ∈ dependencies, P d.coordinate) {id : Nat} {c : Coordinate}
    (hc : ((forest.toGraph project).node id).coordinate = some c) : P c := by
  by_cases hroot : id = root
  · rw [hroot, node_toGraph_root] at hc
    exact Option.some.inj hc ▸ hproject
  · by_cases hid : id < (forest.toGraph project).size
    · obtain ⟨p, hp, rfl⟩ := exists_mem_placesBelow hid hroot
      rw [(requests_of_mem_places hp).coordinate] at hc
      have hplace := h.forall_places (P := fun d => P d.coordinate) hdeclares hds p hp
      exact Option.some.inj hc ▸ hplace
    · rw [node_of_size_le (Nat.le_of_not_lt hid)] at hc
      cases hc

/-- The children of a place stand for what its forest starts with. -/
theorem requests_children {p : Place} (hp : p ∈ forest.placesBelow project) :
    List.Forall₂ (fun child d => ((forest.toGraph project).node child).Requests d)
      ((forest.toGraph project).children p.id) p.below.declarations := by
  rw [children_toGraph_of_mem_places hp]
  refine (forall₂_ids_declarations p.below p.innerPath p.innerAncestors _).imp ?_
  rintro child d ⟨q, hq, rfl, rfl, -⟩
  exact requests_of_mem_places (mem_places_of_mem_inner hp hq)

/-- The children of the root stand for the declarations of the project. -/
theorem UnfoldsProject.requests_direct
    (h : UnfoldsProject declares project dependencies forest) :
    List.Forall₂ (fun child d => ((forest.toGraph project).node child).Requests d)
      ((forest.toGraph project).children root) dependencies := by
  rw [children, node_toGraph_root, ← h.declarations]
  refine (forall₂_ids_declarations forest [project] [root] 1).imp ?_
  rintro child d ⟨p, hp, rfl, rfl, -⟩
  exact requests_of_mem_places hp

/-- The nodes above a place have the coordinates of its path. -/
theorem coordinates_ancestors {p : Place} (hp : p ∈ forest.placesBelow project) :
    p.ancestors.map (fun a => ((forest.toGraph project).node a).coordinate) =
      p.path.map some := by
  refine above_of_mem_places
    (motive := fun path ancestors =>
      ancestors.map (fun a => ((forest.toGraph project).node a).coordinate) = path.map some)
    ?_ ?_ p hp
  · simp [node_toGraph_root, Node.project]
  · intro q hq h
    rw [Place.innerAncestors, Place.innerPath, List.map_append, List.map_append, h]
    simp [node_toGraph_of_mem_places hq, Place.node, Node.ofDeclaration]

/-- Looking for a coordinate along a path is looking for a node with it along the ids. -/
theorem find?_coordinate {g : Graph} {path : List Coordinate} {ancestors : List Nat}
    (h : ancestors.map (fun a => (g.node a).coordinate) = path.map some) (c : Coordinate) :
    ancestors.find? (fun a => (g.node a).coordinate = some c) =
      (path.idxOf? c).bind (ancestors[·]?) := by
  induction ancestors generalizing path with
  | nil =>
    cases path with
    | nil => rfl
    | cons _ _ => simp at h
  | cons a ancestors ih =>
    cases path with
    | nil => simp at h
    | cons b path =>
      rw [List.map_cons, List.map_cons, List.cons.injEq] at h
      by_cases hb : b = c
      · simp [h.1, hb, List.idxOf?_cons]
      · rw [List.find?_cons_of_neg (by simpa [h.1] using hb), ih h.2, List.idxOf?_cons]
        cases hc : path.idxOf? c <;> simp [hb]

/-- A place is no cycle marker and neither is its node, or both are, of one of its ancestors. -/
theorem cycle_cases (h : UnfoldsProject declares project dependencies forest) {p : Place}
    (hp : p ∈ forest.placesBelow project) :
    (p.cycle = none ∧ ((forest.toGraph project).node p.id).cycleOf = none) ∨
      ∃ target ∈ p.ancestors, p.cycle ≠ none ∧
        ((forest.toGraph project).node p.id).cycleOf = some target := by
  rw [node_toGraph_of_mem_places hp, Place.node]
  cases hcycle : p.cycle with
  | none => exact .inl ⟨rfl, rfl⟩
  | some level =>
    right
    have hexplained := h.explained p hp
    have hlevel : 2 ≤ p.ancestors.length := by
      by_contra hlt
      rw [hexplained.direct (Nat.lt_of_not_le hlt)] at hcycle
      cases hcycle
    have hlength : p.path.length = p.ancestors.length := by
      simpa using (congrArg List.length (coordinates_ancestors hp)).symm
    rw [hexplained.cycle hlevel, List.idxOf?_eq_some_iff] at hcycle
    obtain ⟨hlt, -, -⟩ := hcycle
    rw [hlength] at hlt
    exact ⟨p.ancestors[level], List.getElem_mem hlt, by simp, by simp [hlt]⟩

/-- A node that is a cycle marker is the node of a place. -/
theorem exists_place_of_marker {id : Nat}
    (hcycle : ((forest.toGraph project).node id).cycleOf ≠ none) :
    ∃ p ∈ forest.placesBelow project, p.id = id := by
  by_cases hroot : id = root
  · rw [hroot, node_toGraph_root, Node.project] at hcycle
    exact absurd rfl hcycle
  · by_cases hid : id < (forest.toGraph project).size
    · exact exists_mem_placesBelow hid hroot
    · rw [node_of_size_le (Nat.le_of_not_lt hid)] at hcycle
      exact absurd rfl hcycle

theorem UnfoldsProject.cycleOf_mem_ancestors
    (h : UnfoldsProject declares project dependencies forest) {id target : Nat}
    (hcycle : ((forest.toGraph project).node id).cycleOf = some target) :
    target ∈ (forest.toGraph project).ancestors id := by
  obtain ⟨p, hp, rfl⟩ := exists_place_of_marker (by rw [hcycle]; exact Option.some_ne_none _)
  rcases cycle_cases h hp with ⟨-, hnone⟩ | ⟨target', hmem, -, hsome⟩
  · rw [hnone] at hcycle
    cases hcycle
  · rw [hsome, Option.some.injEq] at hcycle
    rw [ancestors_toGraph_of_mem_places hp, List.mem_reverse, ← hcycle]
    exact hmem

theorem UnfoldsProject.children_of_marker
    (h : UnfoldsProject declares project dependencies forest) {id : Nat}
    (hcycle : ((forest.toGraph project).node id).cycleOf ≠ none) :
    (forest.toGraph project).children id = [] := by
  obtain ⟨p, hp, rfl⟩ := exists_place_of_marker hcycle
  rcases cycle_cases h hp with ⟨-, hnone⟩ | ⟨target, -, hmarker, -⟩
  · exact absurd hnone hcycle
  · rw [children_toGraph_of_mem_places hp, (h.explained p hp).marker hmarker, ids]

theorem UnfoldsProject.cycleOf_of_depth_lt
    (h : UnfoldsProject declares project dependencies forest) {id : Nat}
    (hdepth : (forest.toGraph project).depth id < 2) :
    ((forest.toGraph project).node id).cycleOf = none := by
  by_contra hcycle
  obtain ⟨p, hp, rfl⟩ := exists_place_of_marker hcycle
  rw [depth_toGraph_of_mem_places hp] at hdepth
  rcases cycle_cases h hp with ⟨-, hnone⟩ | ⟨target, -, hmarker, -⟩
  · exact hcycle hnone
  · exact hmarker ((h.explained p hp).direct hdepth)

/-- From the second level on, a node is the marker of the first of its ancestors that has its
coordinate. -/
theorem UnfoldsProject.cycleOf_of_le_depth
    (h : UnfoldsProject declares project dependencies forest) {id : Nat}
    (hid : id < (forest.toGraph project).size) (hdepth : 2 ≤ (forest.toGraph project).depth id) :
    ((forest.toGraph project).node id).cycleOf =
      ((forest.toGraph project).ancestors id).reverse.find? fun a =>
        ((forest.toGraph project).node a).coordinate =
          ((forest.toGraph project).node id).coordinate := by
  -- the path above a place and the ids above it name the same nodes
  have hroot : id ≠ root := by
    rintro rfl
    rw [(isTree_toGraph forest project).depth_root] at hdepth
    omega
  obtain ⟨p, hp, rfl⟩ := exists_mem_placesBelow hid hroot
  rw [depth_toGraph_of_mem_places hp] at hdepth
  rw [ancestors_toGraph_of_mem_places hp, List.reverse_reverse,
    (requests_of_mem_places hp).coordinate, find?_coordinate (coordinates_ancestors hp),
    ← (h.explained p hp).cycle hdepth, node_toGraph_of_mem_places hp, Place.node]

/-- A forest that unfolds a project is its complete unfolding in the arena. -/
theorem UnfoldsProject.completeUnfolding {answer : Coordinate → Answer}
    (h : UnfoldsProject (fun c ds => answer c = .ok ds) project dependencies forest) :
    (forest.toGraph project).CompleteUnfolding project dependencies answer where
  project := by rw [node_toGraph_root, Node.project]
  direct := h.requests_direct
  nested id hid hroot hcycle := by
    obtain ⟨p, hp, rfl⟩ := exists_mem_placesBelow hid hroot
    rcases cycle_cases h hp with ⟨hnone, -⟩ | ⟨target, -, -, hsome⟩
    · obtain ⟨inner, hinner, hbelow⟩ := (h.explained p hp).expanded hnone
      refine ⟨_, inner, (requests_of_mem_places hp).coordinate, hinner, ?_⟩
      rw [← nestedOnly, ← hbelow]
      exact requests_children hp
    · rw [hsome] at hcycle
      cases hcycle
  parent id child hchild := (isTree_toGraph forest project).mem_children_iff.1 hchild
  cycleOf_direct _ hdepth := h.cycleOf_of_depth_lt hdepth
  cycleOf_nested _ hid hdepth := h.cycleOf_of_le_depth hid hdepth
  marker _ := h.children_of_marker
  preorder := preorder_toGraph forest project

end Forest

/-- **The graph of a project is its complete unfolding.** A collector that answers consistently from
some state on, and is unfolded without a fault, is unfolded completely: no declaration is lost,
repeated or shared between branches. -/
theorem exec_unfold_complete {m : Type → Type} {σ : Type} [Monad m] [Execution m σ]
    {collector : Collector m} {answer : Coordinate → Answer} {s : σ}
    (hconsistent : collector.ConsistentFrom s answer) {project : Project} {limit : Nat} {g : Graph}
    (h : (exec (project.unfold collector limit).run s).1 = .ok g) :
    g.CompleteUnfolding project.coordinate project.dependencies answer := by
  obtain ⟨forest, hforest, rfl⟩ :=
    unfoldsProject_of_exec_unfold (collector.answers_consistently answer) hconsistent h
  exact hforest.completeUnfolding

/-- A project whose two direct dependencies ask for each other. -/
def mutualRequests : Project where
  coordinate := ⟨"org", "app", "jar", "1", none⟩
  dependencies := [
    { coordinate := ⟨"org", "web", "jar", "1", none⟩ },
    { coordinate := ⟨"org", "log", "jar", "1", none⟩, scope := .test }]

/-- What the artifacts of `mutualRequests` declare. Only `log` has a test dependency. -/
def mutualAnswer (c : Coordinate) : Answer :=
  .ok (if c.name = "web" then [{ coordinate := ⟨"org", "log", "jar", "1", none⟩ }]
    else [
      { coordinate := ⟨"org", "mock", "jar", "1", none⟩, scope := .test },
      { coordinate := ⟨"org", "web", "jar", "1", none⟩, optional := true }])

/-- The node 3 asks for `web` below `log` below `web`, the node 6 for `log` below `web` below `log`. -/
theorem completeUnfolding_of_mutualRequests :
    ∃ g, (exec (mutualRequests.unfold (.ofFunction mutualAnswer : Collector Id) 3).run ()).1 =
        .ok g ∧
      (g.node 3).cycleOf = some 1 ∧ (g.node 6).cycleOf = some 4 ∧
      g.CompleteUnfolding mutualRequests.coordinate mutualRequests.dependencies mutualAnswer := by
  have h : (exec (mutualRequests.unfold (.ofFunction mutualAnswer : Collector Id) 3).run ()).1 =
      .ok _ := rfl
  refine ⟨_, h, by decide +kernel, by decide +kernel, ?_⟩
  exact exec_unfold_complete (fun _ _ => rfl) h

end ArtifactTree
