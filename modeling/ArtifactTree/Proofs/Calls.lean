import ArtifactTree.Proofs.Consistency
import ArtifactTree.Proofs.Unfolding

/-!
# What an unfolding asks its collector

If every artifact has one answer, the unfolding of a project is determined beforehand, and so is what
is asked: the requests of the unfolding in depth-first order. An unfolding may go on forever, so it
is taken down to some level (`Forest.projectWithin`).

A run asks these requests one by one and stops at the first fault, or at the first request that is
deeper than its limit (`Asked`). This is carried through the recursion by `AsksFor`, which says of a
computation which requests it makes and which value it has if all of them are answered.

Main statement: `calls_of_exec_unfold`.
-/

namespace ArtifactTree

/-! ## Requests -/

/-- An artifact whose declarations are asked for, and its level in the unfolding. The project has
level 0. -/
structure Request where
  coordinate : Coordinate
  level : Nat

/-- The requests up to the first one that is answered by a fault, and with it. -/
def untilFault (answer : Coordinate → Answer) : List Request → List Request
  | [] => []
  | r :: requests =>
    match answer r.coordinate with
    | .ok _ => r :: untilFault answer requests
    | .error _ => [r]

/-- The request is not deeper than the limit, and it is answered. -/
def Request.Served (answer : Coordinate → Answer) (limit : Nat) (r : Request) : Prop :=
  r.level ≤ limit ∧ ∃ ds, answer r.coordinate = .ok ds

section UntilFault

variable {answer : Coordinate → Answer} {limit : Nat}

theorem untilFault_append {before : List Request} (hserved : ∀ r ∈ before, r.Served answer limit)
    (after : List Request) :
    untilFault answer (before ++ after) = before ++ untilFault answer after := by
  induction before with
  | nil => rfl
  | cons r before ih =>
    obtain ⟨-, ds, hds⟩ := hserved r List.mem_cons_self
    rw [List.cons_append, untilFault, hds]
    exact congrArg (r :: ·) (ih fun q hq => hserved q (List.mem_cons_of_mem _ hq))

theorem untilFault_eq_self {requests : List Request}
    (hserved : ∀ r ∈ requests, r.Served answer limit) : untilFault answer requests = requests := by
  simpa [untilFault] using untilFault_append hserved []

theorem mem_untilFault_cons (answer : Coordinate → Answer) (r : Request) (requests : List Request) :
    r ∈ untilFault answer (r :: requests) := by
  rw [untilFault]
  cases answer r.coordinate <;> exact List.mem_cons_self

end UntilFault

/-! ## The unfolding, down to some level -/

namespace Forest

/-- What is asked for in a forest, in depth-first order, where the declarations that it starts with
are on `level`. Cycle markers ask for nothing. -/
def requests : Forest → (level : Nat) → List Request
  | nil, _ => []
  | cons d none below rest, level =>
    ⟨d.coordinate, level⟩ :: (below.requests (level + 1) ++ rest.requests level)
  | cons _ (some _) below rest, level => below.requests (level + 1) ++ rest.requests level

/-- The declarations that count below the artifacts of `path`, where `inside` tells what is below an
artifact. -/
def nested (inside : List Coordinate → Coordinate → Forest) (path : List Coordinate) :
    List Declaration → Forest
  | [] => nil
  | d :: ds =>
    if d.scope = .test then nested inside path ds
    else
      match path.idxOf? d.coordinate with
      | some level => cons d (some level) nil (nested inside path ds)
      | none => cons d none (inside path d.coordinate) (nested inside path ds)

/-- What an artifact is known to declare: nothing, if that cannot be told. -/
def known (answer : Coordinate → Answer) (c : Coordinate) : List Declaration :=
  match answer c with
  | .ok ds => ds
  | .error _ => []

/-- What is below an artifact at the end of `path`, down to `levels` levels. -/
def within (answer : Coordinate → Answer) : (levels : Nat) → List Coordinate → Coordinate → Forest
  | 0, _, _ => nil
  | levels + 1, path, c => nested (within answer levels) (path ++ [c]) (known answer c)

/-- What is below a project, down to `levels` levels below its direct dependencies. -/
def projectWithin (answer : Coordinate → Answer) (levels : Nat) (project : Coordinate) :
    List Declaration → Forest
  | [] => nil
  | d :: ds =>
    cons d none (within answer levels [project] d.coordinate)
      (projectWithin answer levels project ds)

end Forest

/-- What is asked for in the unfolding of a project, in depth-first order. -/
def Project.requests (project : Project) (answer : Coordinate → Answer) (levels : Nat) :
    List Request :=
  (Forest.projectWithin answer levels project.coordinate project.dependencies).requests 1

/-! ## Asking one by one -/

variable {m : Type → Type} {σ : Type} [Monad m] [Execution m σ] {collector : Collector m}
  {answer : Coordinate → Answer} {limit : Nat}

open Collector

/-- How a run ends that makes the given requests after `calls`, and whose value is `a` if all of them
are served. -/
inductive Asked (collector : Collector m) (answer : Coordinate → Answer) (limit : Nat)
    (calls : Calls) {α : Type} (a : α) (requests : List Request) :
    Except UnfoldingFault α × Calls × σ → Prop
  | served {calls' t} (all : ∀ r ∈ requests, r.Served answer limit)
      (asked : calls'.toList = calls.toList ++ requests.map (·.coordinate))
      (consistent : collector.ConsistentFrom t answer) :
    Asked collector answer limit calls a requests (.ok a, calls', t)
  | faulted {before r after reason calls' t} (here : requests = before ++ r :: after)
      (earlier : ∀ q ∈ before, q.Served answer limit) (reached : r.level ≤ limit)
      (fault : answer r.coordinate = .error reason)
      (asked : calls'.toList = calls.toList ++ (before ++ [r]).map (·.coordinate)) :
    Asked collector answer limit calls a requests
      (.error (.uncollected r.coordinate reason), calls', t)
  | cutShort {before r after calls' t} (here : requests = before ++ r :: after)
      (earlier : ∀ q ∈ before, q.Served answer limit) (deep : limit < r.level)
      (asked : calls'.toList = calls.toList ++ before.map (·.coordinate)) :
    Asked collector answer limit calls a requests (.error (.tooDeep r.coordinate), calls', t)

namespace Asked

variable {α : Type} {a : α} {requests : List Request} {result : Except UnfoldingFault α}
  {calls : Calls} {t : σ} (h : Asked collector answer limit #[] a requests (result, calls, t))
include h

theorem eq_of_ok {b : α} (hok : result = .ok b) :
    b = a ∧ calls.toList = requests.map (·.coordinate) := by
  cases h with
  | served _ asked => exact ⟨(Except.ok.inj hok).symm, asked⟩
  | faulted => cases hok
  | cutShort => cases hok

/-- A run is cut short exactly if a request before the first fault, or the one with the fault, is
too deep. -/
theorem tooDeep_iff :
    (∃ c, result = .error (.tooDeep c)) ↔ ∃ r ∈ untilFault answer requests, limit < r.level := by
  cases h with
  | served all =>
    rw [untilFault_eq_self all]
    constructor
    · rintro ⟨c, hc⟩
      cases hc
    · rintro ⟨r, hr, hdeep⟩
      exact absurd (all r hr).1 (Nat.not_le.2 hdeep)
  | @faulted before r after reason _ _ here earlier reached fault =>
    rw [here, untilFault_append earlier, untilFault, fault]
    constructor
    · rintro ⟨c, hc⟩
      cases hc
    · rintro ⟨q, hq, hdeep⟩
      rcases List.mem_append.1 hq with hq | hq
      · exact absurd (earlier q hq).1 (Nat.not_le.2 hdeep)
      · exact absurd (List.mem_singleton.1 hq ▸ reached) (Nat.not_le.2 hdeep)
  | @cutShort before r after _ _ here earlier deep =>
    rw [here, untilFault_append earlier]
    exact ⟨fun _ => ⟨r, List.mem_append_right _ (mem_untilFault_cons answer r after), deep⟩,
      fun _ => ⟨_, rfl⟩⟩

/-- Up to the limit, requests are made until one of them is a fault. -/
theorem calls_eq (hends : ∀ c, result ≠ .error (.tooDeep c)) :
    calls.toList = (untilFault answer requests).map (·.coordinate) := by
  cases h with
  | served all asked => simpa [untilFault_eq_self all] using asked
  | @faulted before r after reason _ _ here earlier _ fault asked =>
    rw [here, untilFault_append earlier, untilFault, fault]
    simpa using asked
  | cutShort => exact absurd rfl (hends _)

theorem error_iff (hends : ∀ c, result ≠ .error (.tooDeep c)) :
    (∃ e, result = .error e) ↔
      ∃ r ∈ requests, ∃ reason, answer r.coordinate = .error reason := by
  cases h with
  | served all =>
    constructor
    · rintro ⟨e, he⟩
      cases he
    · rintro ⟨r, hr, reason, hfault⟩
      obtain ⟨-, ds, hds⟩ := all r hr
      rw [hds] at hfault
      cases hfault
  | @faulted before r after reason _ _ here earlier _ fault =>
    exact ⟨fun _ => ⟨r, by rw [here]; simp, reason, fault⟩, fun _ => ⟨_, rfl⟩⟩
  | cutShort => exact absurd rfl (hends _)

/-- A fault is that of the last call. -/
theorem last_of_error (hends : ∀ c, result ≠ .error (.tooDeep c)) {e : UnfoldingFault}
    (herror : result = .error e) :
    ∃ c reason, e = .uncollected c reason ∧ calls.toList.getLast? = some c ∧
      answer c = .error reason := by
  cases h with
  | served => cases herror
  | faulted here earlier reached fault asked =>
    exact ⟨_, _, (Except.error.inj herror).symm, by simp [asked], fault⟩
  | cutShort => exact absurd rfl (hends _)

/-- A run that is cut short has no fault behind it. -/
theorem prefix_of_tooDeep {c : Coordinate} (hdeep : result = .error (.tooDeep c)) :
    calls.toList <+: requests.map (·.coordinate) ∧ ∀ c ∈ calls.toList, ∃ ds, answer c = .ok ds := by
  cases h with
  | served => cases hdeep
  | faulted => cases hdeep
  | @cutShort before r after _ _ here earlier _ asked =>
    rw [asked, here, List.map_append]
    refine ⟨List.prefix_append _ _, ?_⟩
    simp only [List.nil_append, List.mem_map]
    rintro _ ⟨q, hq, rfl⟩
    exact (earlier q hq).2

end Asked

/-- In front of a consistent collector, the computation makes the requests and has the value `a` if
all of them are served. -/
def AsksFor {α : Type} (collector : Collector m) (answer : Coordinate → Answer) (limit : Nat)
    (requests : List Request) (x : Unfolding (StateT Calls m) α) (a : α) : Prop :=
  ∀ calls s, collector.ConsistentFrom s answer →
    Asked collector answer limit calls a requests (exec x.run (calls, s))

namespace AsksFor

variable {α β : Type}

theorem pure (a : α) : AsksFor collector answer limit [] (pure a) a := by
  intro calls s hs
  rw [ExceptT.run_pure, exec_pure]
  exact .served (by simp) (by simp) hs

theorem bind {x : Unfolding (StateT Calls m) α} {f : α → Unfolding (StateT Calls m) β} {a : α}
    {b : β} {first second : List Request} (hx : AsksFor collector answer limit first x a)
    (hf : AsksFor collector answer limit second (f a) b) :
    AsksFor collector answer limit (first ++ second) (x >>= f) b := by
  intro calls s hs
  have hasked := hx calls s hs
  rw [exec_run_bind]
  generalize exec x.run (calls, s) = run at hasked
  cases hasked with
  | @served calls₁ t all asked consistent =>
    -- the second computation goes on from the calls of the first
    have hasked := hf calls₁ t consistent
    dsimp only
    generalize exec (f a).run (calls₁, t) = run at hasked
    have hearlier : ∀ {before : List Request}, (∀ q ∈ before, q.Served answer limit) →
        ∀ q ∈ first ++ before, q.Served answer limit := fun hbefore q hq =>
      (List.mem_append.1 hq).elim (all q) (hbefore q)
    cases hasked with
    | served all' asked' consistent' =>
      exact .served (hearlier all') (by simp [asked', asked]) consistent'
    | @faulted before r after _ _ _ here earlier reached fault asked' =>
      exact .faulted (by rw [here, List.append_assoc]) (hearlier earlier) reached fault
        (by simp [asked', asked])
    | @cutShort before r after _ _ here earlier deep asked' =>
      exact .cutShort (by rw [here, List.append_assoc]) (hearlier earlier) deep
        (by simp [asked', asked])
  | @faulted before r after _ _ _ here earlier reached fault asked =>
    exact .faulted (by rw [here, List.append_assoc, List.cons_append]) earlier reached fault asked
  | @cutShort before r after _ _ here earlier deep asked =>
    exact .cutShort (by rw [here, List.append_assoc, List.cons_append]) earlier deep asked

/-- What is made of the value asks for nothing more. -/
theorem map {x : Unfolding (StateT Calls m) α} {a : α} {requests : List Request}
    (hx : AsksFor collector answer limit requests x a) (f : α → β) :
    AsksFor collector answer limit requests (x >>= fun v => Pure.pure (f v)) (f a) := by
  have h := hx.bind (f := fun v => Pure.pure (f v)) (pure (f a))
  rwa [List.append_nil] at h

end AsksFor

namespace Forest

theorem asksFor_declared {c : Coordinate} {level : Nat} (hlevel : level ≤ limit) :
    AsksFor collector answer limit [⟨c, level⟩] (declared collector.recorded c)
      (known answer c) := by
  intro calls s hs
  rw [exec_declared, exec_collect_recorded, hs.answered c, known]
  cases hc : answer c with
  | ok ds => exact .served (by simpa [Request.Served, hc] using hlevel) (by simp) (hs.next c)
  | error reason =>
    exact .faulted (r := ⟨c, level⟩) (List.nil_append _).symm (by simp) hlevel hc (by simp)

theorem asksFor_ofDeclarations {expand : List Coordinate → Coordinate →
      Unfolding (StateT Calls m) Forest} {inside : List Coordinate → Coordinate → Forest}
    {path : List Coordinate}
    (hexpand : ∀ c, AsksFor collector answer limit
      (⟨c, path.length⟩ :: (inside path c).requests (path.length + 1)) (expand path c)
      (inside path c))
    (ds : List Declaration) :
    AsksFor collector answer limit ((nested inside path ds).requests path.length)
      (ofDeclarations expand path ds) (nested inside path ds) := by
  induction ds with
  | nil => exact .pure nil
  | cons d ds ih =>
    rw [ofDeclarations, nested]
    by_cases htest : d.scope = .test
    · rw [if_pos htest, if_pos htest]
      exact ih
    · rw [if_neg htest, if_neg htest]
      cases path.idxOf? d.coordinate with
      | some level => exact ih.map _
      | none => exact (hexpand d.coordinate).bind (ih.map _)

/-- The limit counts down while the path grows, so that together they tell how deep a request may
be. -/
theorem asksFor_expand {left levels : Nat} {path : List Coordinate}
    (hpath : path.length + left = limit + 1) (hlevels : left ≤ levels) (c : Coordinate) :
    AsksFor collector answer limit
      (⟨c, path.length⟩ :: (within answer levels path c).requests (path.length + 1))
      (expand collector.recorded left path c) (within answer levels path c) := by
  induction left generalizing levels path c with
  | zero =>
    intro calls s hs
    rw [expand, ExceptT.run_throw, exec_pure]
    have hdeep : limit < path.length := by omega
    exact .cutShort (r := ⟨c, path.length⟩) (List.nil_append _).symm (by simp) hdeep (by simp)
  | succ left ih =>
    obtain ⟨levels, rfl⟩ : ∃ k, levels = k + 1 := ⟨levels - 1, by omega⟩
    have hnext : (path ++ [c]).length = path.length + 1 := by simp
    have hexpand := @ih levels (path ++ [c]) (by omega) (Nat.le_of_succ_le_succ hlevels)
    have hinside := asksFor_ofDeclarations hexpand (known answer c)
    rw [hnext] at hinside
    exact (asksFor_declared (by omega)).bind hinside

theorem asksFor_ofProject {levels : Nat} (hlevels : limit ≤ levels) (project : Coordinate)
    (ds : List Declaration) :
    AsksFor collector answer limit ((projectWithin answer levels project ds).requests 1)
      (ofProject collector.recorded limit project ds) (projectWithin answer levels project ds) := by
  induction ds with
  | nil => exact .pure nil
  | cons d ds ih =>
    have hpath : [project].length + limit = limit + 1 := Nat.add_comm _ _
    exact (asksFor_expand hpath hlevels d.coordinate).bind (ih.map _)

end Forest

theorem asksFor_unfold {levels : Nat} (hlevels : limit ≤ levels) (project : Project) :
    AsksFor collector answer limit (project.requests answer levels)
      (project.unfold collector.recorded limit)
      ((Forest.projectWithin answer levels project.coordinate project.dependencies).toGraph
        project.coordinate).pruneNestedTests.1 :=
  (Forest.asksFor_ofProject hlevels project.coordinate project.dependencies).map _

/-! ## The nodes that stand for requests -/

/-- The nodes other than the root that are no cycle markers, in the order of their ids. -/
def Graph.requesting (g : Graph) : List Nat :=
  (List.range g.size).filter fun id => (g.node id).cycleOf = none ∧ id ≠ Graph.root

namespace Forest

open ArtifactTree.Graph

/-- The requests of a forest are those of its places, in the order of the ids. -/
theorem requests_eq (forest : Forest) (path : List Coordinate) (ancestors : List Nat) (base : Nat) :
    forest.requests path.length =
      ((forest.places path ancestors base).filter (·.cycle = none)).map fun p =>
        ⟨p.declaration.coordinate, p.path.length⟩ := by
  induction forest generalizing path ancestors base with
  | nil => rfl
  | cons d cycle below rest ihBelow ihRest =>
    have hbelow := ihBelow (path ++ [d.coordinate]) (ancestors ++ [base]) (base + 1)
    have hrest := ihRest path ancestors (base + 1 + below.size)
    rw [List.length_append, List.length_singleton] at hbelow
    cases cycle with
    | none => simp [requests, places, hbelow, hrest]
    | some level => simp [requests, places, hbelow, hrest]

section Requesting

variable {declares : Coordinate → List Declaration → Prop} {project : Coordinate}
  {ds : List Declaration} {forest : Forest} (h : UnfoldsProject declares project ds forest)
include h

theorem UnfoldsProject.requesting_eq :
    (forest.toGraph project).requesting =
      ((forest.placesBelow project).filter (·.cycle = none)).map (·.id) := by
  have hnotRoot : ∀ id ∈ List.range' 1 forest.size, decide (id ≠ root) = true := fun id hid =>
    decide_eq_true (Nat.ne_of_gt (List.mem_range'_1.1 hid).1)
  have hids : (List.range (forest.toGraph project).size).filter (· ≠ root) =
      (forest.placesBelow project).map (·.id) := by
    rw [size_toGraph, placesBelow, map_id_places, List.range_eq_range', List.range'_succ,
      List.filter_cons_of_neg (by simp [root]), List.filter_eq_self.2 hnotRoot]
  have hmarker : ∀ p ∈ forest.placesBelow project,
      decide (((forest.toGraph project).node p.id).cycleOf = none) = decide (p.cycle = none) := by
    intro p hp
    rcases cycle_cases h hp with ⟨hcycle, hnone⟩ | ⟨target, -, hcycle, hsome⟩
    · simp [hcycle, hnone]
    · simp [hcycle, hsome]
  simp only [requesting, Bool.decide_and]
  rw [← List.filter_filter, hids, List.filter_map]
  exact congrArg (List.map _) (List.filter_congr hmarker)

/-- What is asked for in a laid out forest is what its nodes ask for that are no markers. -/
theorem UnfoldsProject.coordinates_requests :
    (forest.requests 1).map (fun r => some r.coordinate) =
      (forest.toGraph project).requesting.map fun id =>
        ((forest.toGraph project).node id).coordinate := by
  have hrequests := forest.requests_eq [project] [root] 1
  rw [List.length_singleton] at hrequests
  rw [hrequests, h.requesting_eq, List.map_map, List.map_map]
  refine List.map_congr_left fun p hp => ?_
  exact (requests_of_mem_places (List.mem_of_mem_filter hp)).coordinate.symm

end Requesting

end Forest

/-- **What is asked.** In front of a consistent collector, the requests of the unfolding are made one
by one in depth-first order until one of them is a fault, which then is the result. Without a fault,
they are what the nodes of the graph ask for that are no markers. Only a request deeper than the
limit, no later than the first fault, cuts the run short, and then nothing before it is a fault. -/
theorem calls_of_exec_unfold {s : σ} (hconsistent : collector.ConsistentFrom s answer)
    (project : Project) {levels : Nat} (hlevels : limit ≤ levels)
    {result : Except UnfoldingFault Graph} {calls : Calls} {t : σ}
    (h : exec (project.unfold collector.recorded limit).run (#[], s) = (result, calls, t)) :
    ((∃ c, result = .error (.tooDeep c)) ↔
      ∃ r ∈ untilFault answer (project.requests answer levels), limit < r.level) ∧
    ((∀ c, result ≠ .error (.tooDeep c)) →
      calls.toList = (untilFault answer (project.requests answer levels)).map (·.coordinate) ∧
      ((∃ e, result = .error e) ↔
        ∃ r ∈ project.requests answer levels, ∃ reason, answer r.coordinate = .error reason) ∧
      (∀ e, result = .error e → ∃ c reason, e = .uncollected c reason ∧
        calls.toList.getLast? = some c ∧ answer c = .error reason) ∧
      ∀ g, result = .ok g →
        calls.toList.map some = g.requesting.map fun id => (g.node id).coordinate) ∧
    ((∃ c, result = .error (.tooDeep c)) →
      calls.toList <+: (project.requests answer levels).map (·.coordinate) ∧
        ∀ c ∈ calls.toList, ∃ ds, answer c = .ok ds) := by
  have hasked := asksFor_unfold hlevels project #[] s hconsistent
  rw [h] at hasked
  refine ⟨hasked.tooDeep_iff, fun hends => ⟨hasked.calls_eq hends, hasked.error_iff hends,
    fun e => hasked.last_of_error hends, fun g hg => ?_⟩, fun ⟨c, hc⟩ => hasked.prefix_of_tooDeep hc⟩
  subst hg
  obtain ⟨forest, u, hforest, hgraph⟩ := exec_run_bind_ok h
  obtain ⟨rfl, rfl⟩ := exec_run_pure_ok hgraph
  -- the forest is the one whose requests were made, and it unfolds the project
  have hwithin := Forest.asksFor_ofProject hlevels project.coordinate project.dependencies #[] s
    hconsistent
  rw [hforest] at hwithin
  obtain ⟨rfl, hcalls⟩ := hwithin.eq_of_ok rfl
  have hunfolds := Forest.unfoldsProject_of_exec (collector.recorded.answers_consistently answer)
    (hconsistent.recorded #[]) hforest
  rw [Forest.pruneNestedTests_toGraph hunfolds, ← hunfolds.coordinates_requests, hcalls,
    List.map_map]
  rfl

/-- A project with two dependencies. -/
def brokenRequests : Project where
  coordinate := ⟨"org", "app", "jar", "1", none⟩
  dependencies := [
    { coordinate := ⟨"org", "web", "jar", "1", none⟩ },
    { coordinate := ⟨"org", "log", "jar", "1", none⟩ }]

/-- The dependency `web` asks for a test, for the project itself and for `core`, of which nothing is
known. -/
def brokenAnswer (c : Coordinate) : Answer :=
  if c.name = "web" then
    .ok [
      { coordinate := ⟨"org", "mock", "jar", "1", none⟩, scope := .test },
      { coordinate := ⟨"org", "app", "jar", "1", none⟩ },
      { coordinate := ⟨"org", "core", "jar", "1", none⟩ }]
  else if c.name = "core" then .error ⟨.noDescriptor c none, []⟩
  else .ok []

/-- The request for `log` comes after the fault and is not made. -/
theorem calls_of_brokenRequests :
    (brokenRequests.requests brokenAnswer 2).map (·.coordinate.name) = ["web", "core", "log"] ∧
      ∃ e calls,
        exec (brokenRequests.unfold (.ofFunction brokenAnswer : Collector Id).recorded 2).run
          (#[], ()) = (.error e, calls, ()) ∧
        calls.toList.map (·.name) = ["web", "core"] ∧
        calls.toList = (untilFault brokenAnswer (brokenRequests.requests brokenAnswer 2)).map
          (·.coordinate) ∧
        ∃ c reason, e = .uncollected c reason ∧ calls.toList.getLast? = some c ∧
          brokenAnswer c = .error reason := by
  have h : exec (brokenRequests.unfold (.ofFunction brokenAnswer : Collector Id).recorded 2).run
      (#[], ()) = (.error (.uncollected _ _), _, ()) := rfl
  obtain ⟨-, hends, -⟩ := calls_of_exec_unfold (fun _ _ => rfl) brokenRequests (Nat.le_refl 2) h
  obtain ⟨hcalls, -, hfault, -⟩ := hends (by simp)
  exact ⟨by decide +kernel, _, _, h, by decide +kernel, hcalls, hfault _ rfl⟩

end ArtifactTree
