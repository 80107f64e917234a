import ArtifactTree.Proofs.Files
import ArtifactTree.Proofs.Manifest
import ArtifactTree.Repository

/-!
# Where descriptors lie

A path that goes on by ordinary steps leads below where it started: no step starts anew, stays or
leads up (`Path.extends_joinAll`, `FileTree.eq_append_of_follow`).

Validation leaves names and versions some room. A name may be one or two dots, and so may a version,
which may have slashes besides. For all other coordinates (`Coordinate.IsStorable`) the descriptor lies
below the root of the repository, where group, name and version alone say, and for these only
(`Repository.looksBelow_of_validate`).
-/

namespace ArtifactTree

/-! ## Paths that go on -/

namespace Text

variable {sep : Char}

/-- A separator cuts what is before it from what is behind it. -/
theorem segments_append_cons (before after : List Char) :
    segments sep (before ++ sep :: after) = segments sep before ++ segments sep after := by
  induction before with
  | nil => simp [segments]
  | cons c before ih =>
    rw [List.cons_append, segments, segments, ih]
    split
    · rfl
    · cases hs : segments sep before with
      | nil => exact absurd hs (segments_ne_nil sep before)
      | cons piece pieces => rfl

end Text

namespace Path

/-- The step names something, right where it stands. -/
structure IsPlain (step : String) : Prop where
  ne_empty : step ≠ ""
  ne_dot : step ≠ "."
  ne_dots : step ≠ ".."
  slashFree : '/' ∉ step.toList

variable {p : Path} {step : String}

theorem join_eq (h : (Path.mk step).isAbsolute = false) :
    p.join step =
      if p.text.isEmpty || p.text.toList.getLast? = some '/' then ⟨p.text ++ step⟩
      else ⟨p.text ++ "/" ++ step⟩ := by
  rw [join, h, if_neg Bool.false_ne_true]

/-- An ordinary joining: the path is empty, or there is one slash before the step, which the path may
have at its end already. -/
theorem join_cases (h : (Path.mk step).isAbsolute = false) :
    p.text.toList = [] ∧ (p.join step).text.toList = step.toList ∨
    ∃ before, (p.join step).text.toList = before ++ '/' :: step.toList ∧
      (p.text.toList = before ∧ before ≠ [] ∨ p.text.toList = before ++ ['/']) := by
  rw [join_eq h]
  by_cases hempty : p.text.toList = []
  · rw [if_pos (by simp_all)]
    exact .inl ⟨hempty, by simp [hempty]⟩
  right
  by_cases hlast : p.text.toList.getLast? = some '/'
  · obtain ⟨before, hbefore⟩ := List.getLast?_eq_some_iff.1 hlast
    rw [if_pos (by simp [hlast])]
    exact ⟨before, by simp [hbefore], .inr hbefore⟩
  · rw [if_neg (by simp_all)]
    exact ⟨p.text.toList, by simp, .inl ⟨rfl, hempty⟩⟩

theorem isAbsolute_join (h : (Path.mk step).isAbsolute = false) :
    (p.join step).isAbsolute = p.isAbsolute := by
  rcases join_cases (p := p) h with ⟨hp, hjoin⟩ | ⟨before, hjoin, ⟨hp, hne⟩ | hp⟩
  · rw [isAbsolute, hjoin, isAbsolute, hp]
    exact h
  · rw [isAbsolute, hjoin, isAbsolute, hp, List.head?_append_of_ne_nil _ hne]
  · rw [isAbsolute, hjoin, isAbsolute, hp]
    cases before <;> rfl

theorem steps_join (h : (Path.mk step).isAbsolute = false) :
    (p.join step).steps = p.steps ++ (Path.mk step).steps := by
  rcases join_cases (p := p) h with ⟨hp, hjoin⟩ | ⟨before, hjoin, ⟨hp, -⟩ | hp⟩
  · rw [steps, hjoin, steps, hp]
    rfl
  · simp only [steps, hjoin, hp, Text.segments_append_cons, List.filter_append, List.map_append]
  · simp [steps, hjoin, hp, Text.segments_append_cons, Text.segments, isIdle]

theorem IsPlain.toList_ne_nil (h : IsPlain step) : step.toList ≠ [] := fun heq =>
  h.ne_empty (String.toList_inj.1 heq)

theorem IsPlain.isAbsolute_append (h : IsPlain step) (after : String) :
    (Path.mk (step ++ after)).isAbsolute = false := by
  unfold isAbsolute
  refine decide_eq_false fun habsolute => h.slashFree ?_
  rw [String.toList_append, List.head?_append_of_ne_nil _ h.toList_ne_nil] at habsolute
  exact List.mem_of_head? habsolute

theorem IsPlain.isAbsolute_eq_false (h : IsPlain step) : (Path.mk step).isAbsolute = false := by
  simpa using h.isAbsolute_append ""

theorem IsPlain.isIdle_eq_false (h : IsPlain step) : isIdle step.toList = false := by
  have hdot : step.toList ≠ ['.'] := fun heq => h.ne_dot (String.toList_inj.1 heq)
  simp [isIdle, hdot, h.toList_ne_nil]

theorem IsPlain.steps_eq (h : IsPlain step) : (Path.mk step).steps = [step] := by
  simp [steps, Text.segments_of_not_mem h.slashFree, h.isIdle_eq_false]

/-- What ends in an ordinary step goes on behind a slash. -/
theorem IsPlain.join_append (h : IsPlain step) (before : String) {next : String}
    (hnext : (Path.mk next).isAbsolute = false) :
    (Path.mk (before ++ step)).join next = ⟨before ++ step ++ "/" ++ next⟩ := by
  have hlast : (before ++ step).toList.getLast? ≠ some '/' := by
    rw [String.toList_append, List.getLast?_append_of_ne_nil _ h.toList_ne_nil]
    exact fun hslash => h.slashFree (List.mem_of_getLast? hslash)
  rw [join_eq hnext, if_neg]
  simp_all [h.ne_empty]

/-- Going on by an ordinary step and then by more is going on by all of it at once. -/
theorem IsPlain.join_join (h : IsPlain step) {next : String}
    (hnext : (Path.mk next).isAbsolute = false) :
    (p.join step).join next = p.join (step ++ "/" ++ next) := by
  have hboth : (Path.mk (step ++ "/" ++ next)).isAbsolute = false := by
    rw [String.append_assoc]
    exact h.isAbsolute_append _
  rw [join_eq h.isAbsolute_eq_false, join_eq hboth]
  split
  · rw [h.join_append _ hnext]
    simp only [String.append_assoc]
  · rw [h.join_append _ hnext]
    simp only [String.append_assoc]

/-- Steps written one behind the other. -/
def joinedSteps (steps : List String) : String := .ofList (Text.joined '/' (steps.map String.toList))

theorem joinedSteps_cons_cons (step next : String) (rest : List String) :
    joinedSteps (step :: next :: rest) = step ++ "/" ++ joinedSteps (next :: rest) := by
  rw [← String.toList_inj]
  simp [joinedSteps, Text.joined]

theorem IsPlain.isAbsolute_joinedSteps (h : IsPlain step) (rest : List String) :
    (Path.mk (joinedSteps (step :: rest))).isAbsolute = false := by
  cases rest with
  | nil => simpa [joinedSteps, Text.joined] using h.isAbsolute_eq_false
  | cons next rest =>
    rw [joinedSteps_cons_cons, String.append_assoc]
    exact h.isAbsolute_append _

/-- The path `q` is `p`, followed by ordinary steps and nothing else. -/
structure Extends (p q : Path) (further : List String) : Prop where
  isPlain : ∀ step ∈ further, IsPlain step
  isAbsolute : q.isAbsolute = p.isAbsolute
  steps : q.steps = p.steps ++ further
  eq_join : q = p.join (joinedSteps further)

theorem joinAll_cons (p : Path) (step : String) (rest : List String) :
    p.joinAll (step :: rest) = (p.join step).joinAll rest := rfl

/-- Going on by ordinary steps one by one. -/
theorem extends_joinAll (p : Path) {further : List String} (hne : further ≠ [])
    (h : ∀ step ∈ further, IsPlain step) : p.Extends (p.joinAll further) further := by
  induction further generalizing p with
  | nil => exact absurd rfl hne
  | cons step rest ih =>
    obtain ⟨hstep, hrest⟩ := List.forall_mem_cons.1 h
    have habsolute := hstep.isAbsolute_eq_false
    rw [joinAll_cons]
    cases rest with
    | nil =>
      rw [joinAll, List.foldl_nil]
      refine ⟨h, isAbsolute_join habsolute, ?_, ?_⟩
      · rw [steps_join habsolute, hstep.steps_eq]
      · simp [joinedSteps, Text.joined]
    | cons next rest =>
      have hgoes := ih (p.join step) (List.cons_ne_nil _ _) hrest
      refine ⟨h, hgoes.isAbsolute.trans (isAbsolute_join habsolute), ?_, ?_⟩
      · rw [hgoes.steps, steps_join habsolute, hstep.steps_eq, List.append_assoc,
          List.singleton_append]
      · have hnext := (hrest next List.mem_cons_self).isAbsolute_joinedSteps rest
        rw [hgoes.eq_join, hstep.join_join hnext, joinedSteps_cons_cons]

end Path

/-! ## Where such paths lead -/

namespace FileTree

variable {t : FileTree} {start place : Place}

theorem follow_append (t : FileTree) (start : Place) (steps further : List String) :
    t.follow start (steps ++ further) =
      (t.follow start steps).bind fun place => t.follow place further := by
  induction steps generalizing start with
  | nil => rfl
  | cons step steps ih =>
    rw [List.cons_append, follow, follow]
    cases t.find? start with
    | none => rfl
    | some found =>
      cases found with
      | file content => rfl
      | directory =>
        dsimp only
        split
        · exact ih _
        · split
          · rfl
          · exact ih _

/-- Ordinary steps lead down, one level each. -/
theorem eq_append_of_follow {further : List String} (h : ∀ step ∈ further, Path.IsPlain step)
    (hfollow : t.follow start further = .ok place) : place = start ++ further := by
  induction further generalizing start with
  | nil =>
    cases hfollow
    rw [List.append_nil]
  | cons step further ih =>
    obtain ⟨hstep, hfurther⟩ := List.forall_mem_cons.1 h
    rw [follow] at hfollow
    cases hstart : t.find? start with
    | none => rw [hstart] at hfollow; cases hfollow
    | some found =>
      rw [hstart] at hfollow
      cases found with
      | file content => cases hfollow
      | directory =>
        dsimp only at hfollow
        rw [if_neg hstep.ne_dots] at hfollow
        split at hfollow
        · cases hfollow
        · rw [ih hfurther hfollow, List.append_assoc, List.singleton_append]

/-- What a path leads to that goes on from another one lies below the place of that. -/
theorem locate_of_extends {p q : Path} {further : List String} (h : p.Extends q further)
    (hlocate : t.locate q = .ok place) :
    ∃ start, t.follow (anchor p) p.steps = .ok start ∧ place = start ++ further := by
  obtain ⟨-, hfollow⟩ := locate_eq_ok.1 hlocate
  have hanchor : anchor q = anchor p := by rw [anchor, h.isAbsolute, anchor]
  rw [hanchor, h.steps, follow_append] at hfollow
  obtain ⟨start, hstart, hfurther⟩ := Accepted.bind_eq_ok.1 hfollow
  exact ⟨start, hstart, eq_append_of_follow h.isPlain hfurther⟩

end FileTree

/-! ## The steps of a descriptor -/

open Validation

namespace Validation

theorem isPlain_of_isSegment {piece : List Char} (h : isSegment piece) :
    Path.IsPlain (.ofList piece) := by
  simp only [isSegment, Bool.and_eq_true, List.all_eq_true] at h
  obtain ⟨hne, hchars⟩ := h
  have hdot : '.' ∉ piece := fun hmem => absurd (hchars '.' hmem) (by decide)
  have hslash : '/' ∉ piece := fun hmem => absurd (hchars '/' hmem) (by decide)
  have hpiece {text : String} (heq : String.ofList piece = text) : piece = text.toList := by
    rw [← heq, String.toList_ofList]
  constructor
  · intro heq
    simp [hpiece heq] at hne
  · intro heq
    simp [hpiece heq] at hdot
  · intro heq
    simp [hpiece heq] at hdot
  · rwa [String.toList_ofList]

/-- A token is an ordinary step unless it is one or two dots. -/
theorem isPlain_iff_of_isToken {text : String} (h : isToken text) :
    Path.IsPlain text ↔ text ≠ "." ∧ text ≠ ".." := by
  refine ⟨fun hplain => ⟨hplain.ne_dot, hplain.ne_dots⟩, fun ⟨hdot, hdots⟩ => ?_⟩
  have hslash : '/' ∉ text.toList := fun hmem =>
    absurd (isTokenChar_of_isToken h '/' hmem) (by decide)
  refine ⟨?_, hdot, hdots, hslash⟩
  rintro rfl
  exact absurd h (by decide)

/-- A version is an ordinary step unless it is one or two dots or has a slash. -/
theorem isPlain_iff_of_isVersion {text : String} (h : isVersion text) :
    Path.IsPlain text ↔ text ≠ "." ∧ text ≠ ".." ∧ '/' ∉ text.toList := by
  refine ⟨fun hplain => ⟨hplain.ne_dot, hplain.ne_dots, hplain.slashFree⟩,
    fun ⟨hdot, hdots, hslash⟩ => ⟨?_, hdot, hdots, hslash⟩⟩
  rintro rfl
  exact absurd h (by decide)

end Validation

namespace Coordinate

variable {c d : Coordinate}

/-- The group as a path. -/
def groupSteps (c : Coordinate) : List String :=
  (Text.segments '.' c.group.toList).map .ofList

/-- The name of the descriptor in its directory. -/
def fileName (c : Coordinate) : String := c.name ++ "-" ++ c.version ++ ".toml"

/-- Where the descriptor lies below the root of a repository. -/
def layout (c : Coordinate) : List String := c.groupSteps ++ [c.name, c.version, c.fileName]

/-- Name and version can stand in a path as they are. -/
structure IsStorable (c : Coordinate) : Prop where
  name_ne : c.name ≠ "." ∧ c.name ≠ ".."
  version_ne : c.version ≠ "." ∧ c.version ≠ ".."
  slashFree : '/' ∉ c.version.toList

theorem isPlain_fileName (hname : '/' ∉ c.name.toList) (hversion : '/' ∉ c.version.toList) :
    Path.IsPlain c.fileName := by
  have hdash : '-' ∈ c.fileName.toList := by simp [fileName]
  constructor
  · intro heq
    simp [heq] at hdash
  · intro heq
    simp [heq] at hdash
  · intro heq
    simp [heq] at hdash
  · simp [fileName, hname, hversion]

/-- Of a valid coordinate, all steps are ordinary if name and version are. -/
theorem Valid.isPlain_layout_iff (hc : c.Valid) :
    (∀ step ∈ c.layout, Path.IsPlain step) ↔ c.IsStorable := by
  have hgroup : ∀ step ∈ c.groupSteps, Path.IsPlain step := by
    intro step hstep
    obtain ⟨piece, hpiece, rfl⟩ := List.mem_map.1 hstep
    have hsegments := hc.group
    rw [isGroup_eq, List.all_eq_true] at hsegments
    exact isPlain_of_isSegment (hsegments piece hpiece)
  have hname := isPlain_iff_of_isToken hc.name
  have hversion := isPlain_iff_of_isVersion hc.version
  constructor
  · intro h
    obtain ⟨hdot, hdots, hslash⟩ := hversion.1 (h c.version (by simp [layout]))
    exact ⟨hname.1 (h c.name (by simp [layout])), ⟨hdot, hdots⟩, hslash⟩
  · rintro ⟨hname_ne, ⟨hdot, hdots⟩, hslash⟩ step hstep
    have hplain := hname.2 hname_ne
    simp only [layout, List.mem_append, List.mem_cons, List.not_mem_nil, or_false] at hstep
    obtain hstep | rfl | rfl | rfl := hstep
    · exact hgroup step hstep
    · exact hplain
    · exact hversion.2 ⟨hdot, hdots, hslash⟩
    · exact isPlain_fileName hplain.slashFree hslash

theorem group_eq_of_groupSteps_eq (h : c.groupSteps = d.groupSteps) : c.group = d.group := by
  have hpieces : Text.segments '.' c.group.toList = Text.segments '.' d.group.toList :=
    List.map_injective_iff.2 (fun _ _ => String.ofList_inj.1) h
  rw [← String.toList_inj, ← Text.joined_segments '.' c.group.toList, hpieces, Text.joined_segments]

/-- The layout tells apart what differs in group, name or version. -/
theorem layout_eq_iff :
    c.layout = d.layout ↔ c.group = d.group ∧ c.name = d.name ∧ c.version = d.version := by
  constructor
  · intro h
    obtain ⟨hgroup, hrest⟩ := List.append_inj' h rfl
    obtain ⟨hname, hrest⟩ := List.cons.inj hrest
    exact ⟨group_eq_of_groupSteps_eq hgroup, hname, (List.cons.inj hrest).1⟩
  · rintro ⟨hgroup, hname, hversion⟩
    simp only [layout, groupSteps, fileName, hgroup, hname, hversion]

end Coordinate

namespace Repository

/-- The descriptor of `c` is looked up below the root of the repository, where group, name and version
say. -/
structure LooksBelow (r : Repository) (c : Coordinate) : Prop where
  extends_root : r.root.Extends (r.descriptorPath c) c.layout
  locate : ∀ (t : FileTree) (place : Place), t.locate (r.descriptorPath c) = .ok place →
    ∃ start, t.follow (FileTree.anchor r.root) r.root.steps = .ok start ∧ place = start ++ c.layout

theorem looksBelow_iff (r : Repository) {c : Coordinate} (hc : c.Valid) :
    r.LooksBelow c ↔ c.IsStorable := by
  constructor
  · intro h
    exact hc.isPlain_layout_iff.1 h.extends_root.isPlain
  · intro h
    have hne : c.layout ≠ [] := by simp [Coordinate.layout]
    have hextends : r.root.Extends (r.descriptorPath c) c.layout :=
      Path.extends_joinAll r.root hne (hc.isPlain_layout_iff.2 h)
    exact ⟨hextends, fun t place => FileTree.locate_of_extends hextends⟩

/-- Two lookups below the root are one exactly if group, name and version agree. -/
theorem LooksBelow.steps_eq_iff {r : Repository} {c d : Coordinate} (hc : r.LooksBelow c)
    (hd : r.LooksBelow d) :
    (r.descriptorPath c).steps = (r.descriptorPath d).steps ↔
      c.group = d.group ∧ c.name = d.name ∧ c.version = d.version := by
  rw [hc.extends_root.steps, hd.extends_root.steps, List.append_cancel_left_eq,
    Coordinate.layout_eq_iff]

/-- **Lookups of accepted dependencies.** The descriptor is looked up below the root, at ordinary steps
that spell out group, name and version, exactly if name and version can stand in a path. Between such
dependencies, equal paths, and also paths with equal steps, mean equal group, name and version. -/
theorem looksBelow_of_validate (r : Repository) {s : DependencySection}
    (h : s.validate = .ok ()) :
    (r.LooksBelow s.coordinate ↔ s.coordinate.IsStorable) ∧
    ∀ s' : DependencySection, s'.validate = .ok () → s.coordinate.IsStorable →
      s'.coordinate.IsStorable →
      (r.descriptorPath s.coordinate = r.descriptorPath s'.coordinate ↔
        s.group = s'.group ∧ s.name = s'.name ∧ s.version = s'.version) ∧
      ((r.descriptorPath s.coordinate).steps = (r.descriptorPath s'.coordinate).steps ↔
        s.group = s'.group ∧ s.name = s'.name ∧ s.version = s'.version) := by
  have hvalid := DependencySection.valid_of_validate h
  refine ⟨looksBelow_iff r hvalid, fun s' h' hstorable hstorable' => ?_⟩
  have hbelow := (looksBelow_iff r hvalid).2 hstorable
  have hbelow' :=
    (looksBelow_iff r (DependencySection.valid_of_validate h')).2 hstorable'
  have hsteps := hbelow.steps_eq_iff hbelow'
  refine ⟨⟨fun hpath => hsteps.1 (congrArg Path.steps hpath), fun hsame => ?_⟩, hsteps⟩
  have hlayout : s.coordinate.layout = s'.coordinate.layout := Coordinate.layout_eq_iff.2 hsame
  rw [hbelow.extends_root.eq_join, hbelow'.extends_root.eq_join, hlayout]

def commonsLang (version : String) : DependencySection :=
  { group := "org.apache.commons", name := "lang", version }

theorem looksBelow_commonsLang :
    let r : Repository := ⟨⟨"/repo"⟩, false⟩
    (commonsLang "3.1").validate = .ok () ∧ (commonsLang "3.2").validate = .ok () ∧
      r.LooksBelow (commonsLang "3.1").coordinate ∧
      r.descriptorPath (commonsLang "3.1").coordinate ≠
        r.descriptorPath (commonsLang "3.2").coordinate := by
  intro r
  have hs : (commonsLang "3.1").validate = .ok () := by rfl
  have hs' : (commonsLang "3.2").validate = .ok () := by rfl
  have hstorable : (commonsLang "3.1").coordinate.IsStorable := by constructor <;> decide
  have hstorable' : (commonsLang "3.2").coordinate.IsStorable := by constructor <;> decide
  obtain ⟨hbelow, hpaths⟩ := looksBelow_of_validate r hs
  refine ⟨hs, hs', hbelow.2 hstorable, ?_⟩
  rw [ne_eq, (hpaths _ hs' hstorable hstorable').1]
  decide

/-- If the version is an absolute path, root and group are of no account. -/
theorem descriptorPath_of_isAbsolute (r r' : Repository) {c d : Coordinate}
    (hversion : (Path.mk c.version).isAbsolute) (hname : c.name = d.name)
    (hsame : c.version = d.version) : r.descriptorPath c = r'.descriptorPath d := by
  have hanew (p : Path) : p.join c.version = ⟨c.version⟩ := if_pos hversion
  simp only [descriptorPath, descriptorSteps, Path.joinAll, List.foldl_append, List.foldl_cons,
    ← hname, ← hsame, hanew]

theorem absoluteVersion_outside :
    let r : Repository := ⟨⟨"/repo"⟩, false⟩
    let s : DependencySection := { group := "org", name := "lib", version := "/etc" }
    let s' : DependencySection := { s with group := "com" }
    s.validate = .ok () ∧ s'.validate = .ok () ∧
      r.descriptorPath s.coordinate = ⟨"/etc/lib-/etc.toml"⟩ ∧
      r.descriptorPath s'.coordinate = r.descriptorPath s.coordinate ∧
      ¬ r.LooksBelow s.coordinate := by
  refine ⟨rfl, rfl, by decide, descriptorPath_of_isAbsolute _ _ rfl rfl rfl, fun h => ?_⟩
  exact absurd h.extends_root.steps (by decide)

end Repository

end ArtifactTree
