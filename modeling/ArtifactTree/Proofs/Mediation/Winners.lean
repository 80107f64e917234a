import ArtifactTree.Proofs.Keys
import ArtifactTree.Proofs.Mediation.Outcome
import Mathlib.Data.Set.Subsingleton

/-!
# Winners and losers

The tables that nodes are judged against are read off the included nodes: the keys are their full
keys (`Trace.mem_keys_winners`), the version of an artifact is that of the first of them
(`Trace.lookup_versions_winners`). `Winners.Rule` lists the rules with all that must have failed
before each applies.

Two results follow for every analysis. A loser has an included node that beats it, and that node
comes first in breadth-first order; and of each artifact at most one node below the root is included.
The second needs all the rules at once: another request at the same version and scope is a duplicate,
one in another scope a scope conflict, one at another version a version conflict. The root alone
escapes, as it has no scope.
-/

namespace ArtifactTree

namespace Node

variable {n : Node} {c : Coordinate}

theorem effectiveVersion_of_coordinate (hc : n.coordinate = some c) :
    n.effectiveVersion = some (n.managedVersion.getD c.version) := by
  rw [effectiveVersion, hc]
  cases n.managedVersion <;> rfl

/-- Management changes a scope, and takes none away. -/
theorem exists_effectiveScope_of_scope {scope : Scope} (h : n.scope = some scope) :
    ∃ effective, n.effectiveScope = some effective := by
  rw [effectiveScope, h]
  cases n.managedScope with
  | none => exact ⟨scope, rfl⟩
  | some managed => exact ⟨managed, rfl⟩

theorem artifactKey_of_coordinate (hc : n.coordinate = some c) :
    n.artifactKey = some c.artifactKey := by
  rw [artifactKey, hc, Option.map_some]

theorem fullKey_of_coordinate (hc : n.coordinate = some c) {version : String}
    (hversion : n.effectiveVersion = some version) :
    n.fullKey = some (c.fullKey version n.effectiveScope) := by
  rw [effectiveVersion_of_coordinate hc, Option.some.injEq] at hversion
  rw [fullKey, hc, Option.map_some, hversion]

theorem exists_coordinate_of_artifactKey {key : String} (h : n.artifactKey = some key) :
    ∃ c, n.coordinate = some c ∧ c.artifactKey = key := Option.map_eq_some_iff.1 h

/-- The node with another scope in force. -/
def inScope (n : Node) (scope : Scope) : Node := { n with managedScope := some scope }

theorem fullKey_inScope (hc : n.coordinate = some c) {version : String}
    (hversion : n.effectiveVersion = some version) (scope : Scope) :
    (n.inScope scope).fullKey = some (c.fullKey version (some scope)) :=
  fullKey_of_coordinate (n := n.inScope scope) hc hversion

end Node

namespace Mediation

open ArtifactTree.Graph

/-! ## The tables -/

theorem Winners.mem_keys_note {w : Winners} {n : Node} {key : String} :
    key ∈ (w.note n).keys ↔ key ∈ w.keys ∨ n.fullKey = some key := by
  unfold note Node.fullKey
  cases n.coordinate with
  | none => simp
  | some c => simp [add, or_comm, eq_comm]

theorem Winners.lookup_versions_note (w : Winners) (n : Node) (key : String) :
    (w.note n).versions.lookup key =
      (w.versions.lookup key).or (if n.artifactKey = some key then n.effectiveVersion else none) := by
  cases hc : n.coordinate with
  | none => simp [note, hc, Node.artifactKey]
  | some c =>
    rw [note, hc, Node.artifactKey_of_coordinate hc, Node.effectiveVersion_of_coordinate hc]
    dsimp only [add]
    by_cases hkey : c.artifactKey = key
    · subst hkey
      cases hlookup : w.versions.lookup c.artifactKey <;> simp [hlookup]
    · have hne : (key == c.artifactKey) = false := beq_eq_false_iff_ne.2 (Ne.symm hkey)
      cases w.versions.lookup c.artifactKey <;> simp [List.lookup_cons, hkey, hne]

namespace Trace

variable {g : Graph} {trace : Trace}

theorem mem_keys_winners {key : String} :
    key ∈ (trace.winners g).keys ↔ ∃ w ∈ trace.included, (g.node w).fullKey = some key := by
  have hfold : ∀ (ids : List Nat) (w : Winners),
      key ∈ (ids.foldl (fun w id => w.note (g.node id)) w).keys ↔
        key ∈ w.keys ∨ ∃ id ∈ ids, (g.node id).fullKey = some key := by
    intro ids
    induction ids with
    | nil => simp
    | cons id ids ih =>
      intro w
      rw [List.foldl_cons, ih, Winners.mem_keys_note, or_assoc]
      simp
  rw [winners, hfold]
  simp

/-- The version of an artifact is that of its first included node. -/
theorem lookup_versions_winners (key : String) :
    (trace.winners g).versions.lookup key =
      (trace.included.find? fun w => (g.node w).artifactKey = some key).bind
        fun w => (g.node w).effectiveVersion := by
  have hfold : ∀ (ids : List Nat) (w : Winners),
      (ids.foldl (fun w id => w.note (g.node id)) w).versions.lookup key =
        (w.versions.lookup key).or
          ((ids.find? fun id => (g.node id).artifactKey = some key).bind
            fun id => (g.node id).effectiveVersion) := by
    intro ids
    induction ids with
    | nil => simp
    | cons id ids ih =>
      intro w
      rw [List.foldl_cons, ih, Winners.lookup_versions_note, Option.or_assoc]
      congr 1
      by_cases hkey : (g.node id).artifactKey = some key
      · obtain ⟨c, hc, -⟩ := Node.exists_coordinate_of_artifactKey hkey
        simp [hkey, Node.effectiveVersion_of_coordinate hc]
      · simp [hkey]
  rw [winners, hfold]
  simp

end Trace

/-! ## The rules -/

namespace Winners

variable {w : Winners} {n : Node} {c : Coordinate} {version : String}

/-- The first other scope is one under which the artifact is included at this version. -/
theorem otherScope?_eq_some {scope : Option Scope} {winner : Scope}
    (h : w.otherScope? c version scope = some winner) :
    scope ≠ some winner ∧ c.fullKey version (some winner) ∈ w.keys := by
  obtain ⟨own, rfl, hfind⟩ := Option.bind_eq_some_iff.1 h
  have hfound := List.find?_some hfind
  rw [Bool.and_eq_true, bne_iff_ne, List.contains_iff_mem] at hfound
  exact ⟨fun heq => hfound.1 (Option.some.inj heq).symm, hfound.2⟩

theorem otherScope?_eq_none {own other : Scope} (h : w.otherScope? c version (some own) = none)
    (hne : other ≠ own) : c.fullKey version (some other) ∉ w.keys := by
  intro hmem
  have hfound := List.find?_eq_none.1 h other (Scope.mem_all other)
  rw [Bool.and_eq_true, bne_iff_ne, List.contains_iff_mem] at hfound
  exact hfound ⟨hne, hmem⟩

theorem otherVersion?_eq_some {winner : String} :
    w.otherVersion? c version = some winner ↔
      w.versions.lookup c.artifactKey = some winner ∧ winner ≠ version := by
  rw [otherVersion?, Option.filter_eq_some_iff, bne_iff_ne]

theorem otherVersion?_eq_none (h : w.otherVersion? c version = none) {winner : String}
    (hwinner : w.versions.lookup c.artifactKey = some winner) : winner = version := by
  by_contra hne
  rw [otherVersion?_eq_some.2 ⟨hwinner, hne⟩] at h
  cases h

/-- No rule about other nodes applies to the node. -/
structure Unopposed (w : Winners) (n : Node) (c : Coordinate) (version : String) : Prop where
  hc : n.coordinate = some c
  hversion : n.effectiveVersion = some version
  hkey : c.fullKey version n.effectiveScope ∉ w.keys
  hscope : w.otherScope? c version n.effectiveScope = none
  hother : w.otherVersion? c version = none

/-- The rule by which a node gets its verdict, with what must have failed before it. -/
inductive Rule (w : Winners) (n : Node) : Status → Prop
  | malformed (hc : n.coordinate = none) : Rule w n (.omitted .malformed)
  | duplicate {c : Coordinate} {version : String} (hc : n.coordinate = some c)
    (hversion : n.effectiveVersion = some version)
    (hkey : c.fullKey version n.effectiveScope ∈ w.keys) : Rule w n (.omitted (.duplicate c))
  | scopeConflict {c : Coordinate} {version : String} {winner : Scope} (hc : n.coordinate = some c)
    (hversion : n.effectiveVersion = some version)
    (hkey : c.fullKey version n.effectiveScope ∉ w.keys)
    (hscope : w.otherScope? c version n.effectiveScope = some winner) :
    Rule w n (.omitted (.scopeConflict winner))
  | versionConflict {c : Coordinate} {version winner : String} (hc : n.coordinate = some c)
    (hversion : n.effectiveVersion = some version)
    (hkey : c.fullKey version n.effectiveScope ∉ w.keys)
    (hscope : w.otherScope? c version n.effectiveScope = none)
    (hother : w.otherVersion? c version = some winner) :
    Rule w n (.omitted (.versionConflict winner))
  | optional {c : Coordinate} {version : String} (h : w.Unopposed n c version)
    (hoptional : n.optional = true) : Rule w n (.omitted .optional)
  | included {c : Coordinate} {version : String} (h : w.Unopposed n c version)
    (hoptional : n.optional = false) : Rule w n .included

theorem rule_verdict (w : Winners) (n : Node) : w.Rule n (w.verdict n) := by
  unfold verdict omission?
  cases hc : n.coordinate with
  | none => exact .malformed hc
  | some c =>
    have hversion := Node.effectiveVersion_of_coordinate hc
    dsimp only
    by_cases hkey : c.fullKey (n.managedVersion.getD c.version) n.effectiveScope ∈ w.keys
    · rw [if_pos (List.contains_iff_mem.2 hkey)]
      exact .duplicate hc hversion hkey
    · rw [if_neg fun hmem => hkey (List.contains_iff_mem.1 hmem)]
      cases hscope : w.otherScope? c (n.managedVersion.getD c.version) n.effectiveScope with
      | some winner => exact .scopeConflict hc hversion hkey hscope
      | none =>
        cases hother : w.otherVersion? c (n.managedVersion.getD c.version) with
        | some winner => exact .versionConflict hc hversion hkey hscope hother
        | none =>
          cases hoptional : n.optional with
          | true => exact .optional ⟨hc, hversion, hkey, hscope, hother⟩ hoptional
          | false => exact .included ⟨hc, hversion, hkey, hscope, hother⟩ hoptional

/-- A node wins only unopposed. -/
theorem exists_unopposed (h : w.verdict n = .included) : ∃ c version, w.Unopposed n c version := by
  have hrule := rule_verdict w n
  rw [h] at hrule
  cases hrule with
  | included hunopposed => exact ⟨_, _, hunopposed⟩

theorem verdict_cases (w : Winners) (n : Node) :
    w.verdict n = .included ∨ ∃ omission, w.verdict n = .omitted omission := by
  unfold verdict
  cases w.omission? n with
  | none => exact .inl rfl
  | some omission => exact .inr ⟨omission, rfl⟩

end Winners

theorem markerOmission_cases (n : Node) :
    markerOmission n = .malformed ∨ markerOmission n = .optional ∨
      ∃ c, markerOmission n = .cycle c := by
  unfold markerOmission
  cases n.coordinate with
  | none => exact .inl rfl
  | some c =>
    right
    cases n.optional with
    | true => exact .inl rfl
    | false => exact .inr ⟨c, rfl⟩

/-- What markers are omitted for is not what a node loses for. -/
theorem ne_markerOmission (omission : Omission) (hmalformed : omission ≠ .malformed)
    (hoptional : omission ≠ .optional) (hcycle : ∀ c, omission ≠ .cycle c) (n : Node) :
    omission ≠ markerOmission n := by
  rcases markerOmission_cases n with heq | heq | ⟨c, heq⟩
  · exact heq ▸ hmalformed
  · exact heq ▸ hoptional
  · exact heq ▸ hcycle c

/-! ## One included node of an artifact -/

section Unique

variable {g : Graph} {trace : Trace}

/-- All included nodes of an artifact have the version that is known for it. -/
theorem Judged.lookup_versions (h : Judged g trace) {a : Nat} (ha : a ∈ trace.included)
    {key : String} (hkey : (g.node a).artifactKey = some key) :
    (trace.winners g).versions.lookup key = (g.node a).effectiveVersion := by
  induction h with
  | nil => cases ha
  | @snoc trace id _ ih =>
    rcases (trace.winners g).verdict_cases (g.node id) with hverdict | ⟨omission, hverdict⟩
    · obtain ⟨c, version, hunopposed⟩ := Winners.exists_unopposed hverdict
      rw [hverdict, Trace.included_snoc_included] at ha
      rw [hverdict, Trace.winners_snoc_included, Winners.lookup_versions_note]
      rcases List.mem_append.1 ha with ha | ha
      · obtain ⟨d, hd, -⟩ := Node.exists_coordinate_of_artifactKey hkey
        rw [ih ha, Node.effectiveVersion_of_coordinate hd, Option.some_or]
      · -- a later node of an artifact is included only at the version that is known
        obtain rfl := List.mem_singleton.1 ha
        rw [if_pos hkey, hunopposed.hversion]
        rw [Node.artifactKey_of_coordinate hunopposed.hc, Option.some.injEq] at hkey
        cases hlookup : (trace.winners g).versions.lookup key with
        | none => rw [Option.none_or]
        | some winner =>
          rw [← hkey] at hlookup
          rw [Winners.otherVersion?_eq_none hunopposed.hother hlookup, Option.some_or]
    · rw [hverdict, Trace.included_snoc_omitted] at ha
      rw [hverdict, Trace.winners_snoc_omitted]
      exact ih ha

/-- Once a node with a scope is included, no other node of its artifact with a scope is. -/
theorem Judged.verdict_ne_included (h : Judged g trace) {a : Nat} (ha : a ∈ trace.included)
    {n : Node} {key : String} (hkey : (g.node a).artifactKey = some key)
    (hkey' : n.artifactKey = some key) {scope scope' : Scope}
    (hscope : (g.node a).effectiveScope = some scope) (hscope' : n.effectiveScope = some scope') :
    (trace.winners g).verdict n ≠ .included := by
  intro hverdict
  obtain ⟨c, version, hunopposed⟩ := Winners.exists_unopposed hverdict
  obtain ⟨d, hd, hdkey⟩ := Node.exists_coordinate_of_artifactKey hkey
  have hcd : c.artifactKey = d.artifactKey := by
    rw [Node.artifactKey_of_coordinate hunopposed.hc, Option.some.injEq] at hkey'
    rw [hkey', hdkey]
  obtain ⟨winner, hwinner⟩ : ∃ winner, (g.node a).effectiveVersion = some winner :=
    ⟨_, Node.effectiveVersion_of_coordinate hd⟩
  have hversion : winner = version := by
    apply Winners.otherVersion?_eq_none hunopposed.hother
    rw [hcd, hdkey, h.lookup_versions ha hkey, hwinner]
  have hmem : c.fullKey version (some scope) ∈ (trace.winners g).keys := by
    refine Trace.mem_keys_winners.2 ⟨a, ha, ?_⟩
    rw [Node.fullKey_of_coordinate hd hwinner, hscope, hversion,
      Coordinate.fullKey_congr hcd]
  -- so the full keys differ in the scope at most
  by_cases hsame : scope = scope'
  · have hnew := hunopposed.hkey
    rw [hscope', ← hsame] at hnew
    exact hnew hmem
  · have hfree := hunopposed.hscope
    rw [hscope'] at hfree
    exact Winners.otherScope?_eq_none hfree hsame hmem

/-- Two included nodes of one artifact that both have a scope are one. -/
theorem Judged.eq_of_included (h : Judged g trace) {a b : Nat} (ha : a ∈ trace.included)
    (hb : b ∈ trace.included) {key : String} (hkey : (g.node a).artifactKey = some key)
    (hkey' : (g.node b).artifactKey = some key) {scope scope' : Scope}
    (hscope : (g.node a).effectiveScope = some scope)
    (hscope' : (g.node b).effectiveScope = some scope') : a = b := by
  induction h with
  | nil => cases ha
  | @snoc trace id before ih =>
    rcases (trace.winners g).verdict_cases (g.node id) with hverdict | ⟨omission, hverdict⟩
    · rw [hverdict, Trace.included_snoc_included, List.mem_append, List.mem_singleton] at ha hb
      rcases ha with ha | rfl <;> rcases hb with hb | rfl
      · exact ih ha hb
      · exact absurd hverdict (before.verdict_ne_included ha hkey hkey' hscope hscope')
      · exact absurd hverdict (before.verdict_ne_included hb hkey' hkey hscope' hscope)
      · rfl
    · rw [hverdict, Trace.included_snoc_omitted] at ha hb
      exact ih ha hb

end Unique

namespace Outcome

variable {g : Graph} {project : Coordinate} {trace : Trace} (h : Outcome g project trace)
include h

theorem mem_included_of_status {id : Nat} (hstatus : (g.node id).status = .included) :
    id ∈ trace.included := by
  rcases h.mem_or_of_status hstatus with hmem | heq | heq
  · exact Trace.mem_included.2 hmem
  · cases heq
  · cases heq

/-- A node that lost against another one was judged. -/
theorem mem_of_loss {id : Nat} {omission : Omission}
    (hstatus : (g.node id).status = .omitted omission)
    (hloss : omission ≠ markerOmission (g.node id)) : (id, .omitted omission) ∈ trace := by
  rcases h.mem_or_of_status hstatus with hmem | heq | heq
  · exact hmem
  · exact absurd (Status.omitted.inj heq) hloss
  · cases heq

/-- What it was judged by is the rule of its status, and it was judged after the nodes it lost against. -/
theorem exists_rule {id : Nat} {omission : Omission}
    (hstatus : (g.node id).status = .omitted omission)
    (hloss : omission ≠ markerOmission (g.node id)) :
    ∃ before : Trace, (before.winners g).Rule (g.node id) (.omitted omission) ∧
      ∀ w ∈ before.included, g.WinsBefore w id := by
  obtain ⟨before, hverdict, hbefore⟩ := h.exists_before (h.mem_of_loss hstatus hloss)
  refine ⟨before, ?_, hbefore⟩
  rw [hverdict]
  exact Winners.rule_verdict _ _

theorem exists_winner_of_duplicate {id : Nat} {of : Coordinate}
    (hstatus : (g.node id).status = .omitted (.duplicate of)) :
    ∃ winner key, g.WinsBefore winner id ∧ (g.node id).fullKey = some key ∧
      (g.node winner).fullKey = some key := by
  obtain ⟨before, hrule, hbefore⟩ :=
    h.exists_rule hstatus (ne_markerOmission (.duplicate of) nofun nofun nofun _)
  cases hrule with
  | duplicate hc hversion hkey =>
    obtain ⟨winner, hwinner, hfull⟩ := Trace.mem_keys_winners.1 hkey
    exact ⟨winner, _, hbefore winner hwinner, Node.fullKey_of_coordinate hc hversion, hfull⟩

theorem exists_winner_of_scopeConflict {id : Nat} {scope : Scope}
    (hstatus : (g.node id).status = .omitted (.scopeConflict scope)) :
    (g.node id).effectiveScope ≠ some scope ∧
      ∃ winner key, g.WinsBefore winner id ∧ ((g.node id).inScope scope).fullKey = some key ∧
        (g.node winner).fullKey = some key := by
  obtain ⟨before, hrule, hbefore⟩ :=
    h.exists_rule hstatus (ne_markerOmission (.scopeConflict scope) nofun nofun nofun _)
  cases hrule with
  | scopeConflict hc hversion _ hscope =>
    obtain ⟨hne, hkey⟩ := Winners.otherScope?_eq_some hscope
    obtain ⟨winner, hwinner, hfull⟩ := Trace.mem_keys_winners.1 hkey
    exact ⟨hne, winner, _, hbefore winner hwinner, Node.fullKey_inScope hc hversion scope, hfull⟩

theorem exists_winner_of_versionConflict {id : Nat} {version : String}
    (hstatus : (g.node id).status = .omitted (.versionConflict version)) :
    (g.node id).effectiveVersion ≠ some version ∧
      ∃ winner key, g.WinsBefore winner id ∧ (g.node id).artifactKey = some key ∧
        (g.node winner).artifactKey = some key ∧
        (g.node winner).effectiveVersion = some version := by
  obtain ⟨before, hrule, hbefore⟩ :=
    h.exists_rule hstatus (ne_markerOmission (.versionConflict version) nofun nofun nofun _)
  cases hrule with
  | versionConflict hc hversion _ _ hother =>
    obtain ⟨hlookup, hne⟩ := Winners.otherVersion?_eq_some.1 hother
    rw [Trace.lookup_versions_winners] at hlookup
    obtain ⟨winner, hfind, hwinner⟩ := Option.bind_eq_some_iff.1 hlookup
    refine ⟨?_, winner, _, hbefore winner (List.mem_of_find?_eq_some hfind),
      Node.artifactKey_of_coordinate hc, ?_, hwinner⟩
    · rw [hversion]
      exact fun heq => hne (Option.some.inj heq).symm
    · simpa using List.find?_some hfind

theorem exists_effectiveScope {id : Nat} (hid : id ∈ trace.ids) (hroot : id ≠ root) :
    ∃ scope, (g.node id).effectiveScope = some scope := by
  obtain ⟨scope, hscope⟩ := h.unfolding.scope (h.lt_size hid) hroot
  exact Node.exists_effectiveScope_of_scope hscope

end Outcome

end Mediation

open ArtifactTree.Graph Mediation

/-! ## Main statements -/

section Analyze

variable {m : Type → Type} {σ : Type} [Monad m] [Execution m σ] {project : Project}
  {collector : Collector m} {limit : Nat} {s : σ} {analysis : Analysis}

/-- **Every loser has an earlier winner.** A duplicate shares its full key with an included node, a
scope conflict all of it but the scope, a version conflict the artifact key; the winning scope and
version are those of that node and not the loser's own. -/
theorem exists_winner_of_loser
    (h : (exec (project.analyze collector limit).run s).1 = .ok analysis) (id : Nat) :
    (∀ of, (analysis.graph.node id).status = .omitted (.duplicate of) →
      ∃ winner key, analysis.graph.WinsBefore winner id ∧
        (analysis.graph.node id).fullKey = some key ∧
        (analysis.graph.node winner).fullKey = some key) ∧
    (∀ scope, (analysis.graph.node id).status = .omitted (.scopeConflict scope) →
      (analysis.graph.node id).effectiveScope ≠ some scope ∧
      ∃ winner key, analysis.graph.WinsBefore winner id ∧
        ((analysis.graph.node id).inScope scope).fullKey = some key ∧
        (analysis.graph.node winner).fullKey = some key) ∧
    (∀ version, (analysis.graph.node id).status = .omitted (.versionConflict version) →
      (analysis.graph.node id).effectiveVersion ≠ some version ∧
      ∃ winner key, analysis.graph.WinsBefore winner id ∧
        (analysis.graph.node id).artifactKey = some key ∧
        (analysis.graph.node winner).artifactKey = some key ∧
        (analysis.graph.node winner).effectiveVersion = some version) := by
  obtain ⟨trace, houtcome⟩ := exists_outcome_of_analyze h
  refine ⟨fun of hstatus => ?_, fun scope hstatus => ?_, fun version hstatus => ?_⟩
  · exact houtcome.exists_winner_of_duplicate hstatus
  · exact houtcome.exists_winner_of_scopeConflict hstatus
  · exact houtcome.exists_winner_of_versionConflict hstatus

/-- A project that requests `log` three times itself and once more, at another version, by way of
`web`. -/
def rivalRequests : Project where
  coordinate := ⟨"org", "app", "jar", "1", none⟩
  dependencies := [
    { coordinate := ⟨"org", "web", "jar", "1", none⟩ },
    { coordinate := ⟨"org", "log", "jar", "1", none⟩ },
    { coordinate := ⟨"org", "log", "jar", "1", none⟩ },
    { coordinate := ⟨"org", "log", "jar", "1", none⟩, scope := .runtime }]

/-- Of the artifacts of `rivalRequests`, only `web` declares something. -/
def rivalAnswer (c : Coordinate) : Answer :=
  .ok (if c.name = "web" then [{ coordinate := ⟨"org", "log", "jar", "2", none⟩ }] else [])

/-- The analysis of `rivalRequests`. -/
def rivalAnalysis : Except UnfoldingFault Analysis :=
  (exec (rivalRequests.analyze (.ofFunction rivalAnswer : Collector Id) 3).run ()).1

/-- The node 2 is the deeper request for `log`, the nodes 4 and 5 are the later ones of the project. -/
theorem exists_winner_of_rivalRequests :
    ∃ analysis, rivalAnalysis = .ok analysis ∧
      (∃ winner key, analysis.graph.WinsBefore winner 2 ∧
        (analysis.graph.node 2).artifactKey = some key ∧
        (analysis.graph.node winner).artifactKey = some key ∧
        (analysis.graph.node winner).effectiveVersion = some "1") ∧
      (∃ winner key, analysis.graph.WinsBefore winner 4 ∧
        (analysis.graph.node 4).fullKey = some key ∧
        (analysis.graph.node winner).fullKey = some key) ∧
      ∃ winner key, analysis.graph.WinsBefore winner 5 ∧
        ((analysis.graph.node 5).inScope .compile).fullKey = some key ∧
        (analysis.graph.node winner).fullKey = some key := by
  have h : rivalAnalysis = .ok _ := rfl
  refine ⟨_, h, ?_, ?_, ?_⟩
  · exact ((exists_winner_of_loser h 2).2.2 "1" (by decide +kernel)).2
  · exact (exists_winner_of_loser h 4).1 ⟨"org", "log", "jar", "1", none⟩ (by decide +kernel)
  · exact ((exists_winner_of_loser h 5).2.1 .compile (by decide +kernel)).2

/-- The nodes other than the root that are included for an artifact. -/
def Graph.includedFor (g : Graph) (key : String) : Set Nat :=
  {id | id ≠ root ∧ (g.node id).artifactKey = some key ∧ (g.node id).status = .included}

/-- **The first request of an artifact wins, and no other one does.** -/
theorem includedFor_subsingleton
    (h : (exec (project.analyze collector limit).run s).1 = .ok analysis) (key : String) :
    (analysis.graph.includedFor key).Subsingleton := by
  obtain ⟨trace, houtcome⟩ := exists_outcome_of_analyze h
  rintro a ⟨hroot, hkey, hstatus⟩ b ⟨hroot', hkey', hstatus'⟩
  have ha := houtcome.mem_included_of_status hstatus
  have hb := houtcome.mem_included_of_status hstatus'
  have hsubset := (Trace.included_sublist trace).subset
  obtain ⟨scope, hscope⟩ := houtcome.exists_effectiveScope (hsubset ha) hroot
  obtain ⟨scope', hscope'⟩ := houtcome.exists_effectiveScope (hsubset hb) hroot'
  exact houtcome.judged.eq_of_included ha hb hkey hkey' hscope hscope'

theorem includedFor_rivalRequests :
    ∃ analysis, rivalAnalysis = .ok analysis ∧
      3 ∈ analysis.graph.includedFor "org:log:jar" ∧
      (analysis.graph.includedFor "org:log:jar").Subsingleton := by
  have h : rivalAnalysis = .ok _ := rfl
  refine ⟨_, h, ?_, includedFor_subsingleton h "org:log:jar"⟩
  refine ⟨by decide, ?_, ?_⟩ <;> decide +kernel

end Analyze

end ArtifactTree
