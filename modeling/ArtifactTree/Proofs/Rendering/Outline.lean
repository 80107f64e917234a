import ArtifactTree.Proofs.Rendering.Labels
import ArtifactTree.Proofs.Rendering.Walk
import ArtifactTree.Render.Text

/-!
# Reading the text tree

A line of the text tree has three columns for each level and then a label, which never starts like a
column. A reader keeps the labels above the line it reads: the next line hangs below the last of
them that is less deep.
-/

namespace ArtifactTree

namespace Outline

/-- The number of columns in front of a label, and the label. -/
def columns : List Char → Nat × List Char
  | '|' :: ' ' :: ' ' :: rest | ' ' :: ' ' :: ' ' :: rest
  | '+' :: '-' :: ' ' :: rest | '\\' :: '-' :: ' ' :: rest =>
    ((columns rest).1 + 1, (columns rest).2)
  | label => (0, label)

/-- The edges between lines, each a depth and a label. Above the first line are the labels `above`. -/
def edges (above : List String) : List (Nat × String) → List (String × String)
  | [] => []
  | (depth, label) :: lines =>
    let path := above.take depth
    (path.getLast?.map (·, label)).toList ++ edges (path ++ [label]) lines

def read (text : String) : List (String × String) :=
  edges [] <| (Text.lines text).map fun line =>
    ((columns line.toList).1, .ofList (columns line.toList).2)

/-! ## One line -/

theorem columns_of_startsLabel {label : String} (h : StartsLabel label) :
    columns label.toList = (0, label.toList) := by
  obtain ⟨first, rest, hlabel, hfirst⟩ := h
  have hne : first ≠ '|' ∧ first ≠ ' ' ∧ first ≠ '+' ∧ first ≠ '\\' := by
    refine ⟨?_, ?_, ?_, ?_⟩ <;> rintro rfl <;> exact absurd hfirst (by decide)
  rw [hlabel]
  unfold columns
  split <;> simp_all

theorem columns_indent {label : String} (h : StartsLabel label) (lineage : List Bool) :
    columns ((Render.indent lineage).toList ++ label.toList) = (lineage.length, label.toList) := by
  induction lineage with
  | nil => simpa [Render.indent] using columns_of_startsLabel h
  | cons last lineage ih =>
    cases lineage with
    | nil =>
      cases last <;>
        simp [Render.indent, Render.branchColumn, columns, columns_of_startsLabel h]
    | cons next lineage =>
      have hindent : Render.indent (last :: next :: lineage) =
          Render.ancestorColumn last ++ Render.indent (next :: lineage) := rfl
      rw [hindent, String.toList_append, List.append_assoc]
      cases last <;> simp [Render.ancestorColumn, columns, ih]

theorem singleLine_indent (lineage : List Bool) : SingleLine (Render.indent lineage) := by
  induction lineage with
  | nil => exact (by decide : SingleLine "")
  | cons last lineage ih =>
    cases lineage with
    | nil => exact (by decide : ∀ last, SingleLine (Render.branchColumn last)) last
    | cons next lineage =>
      have hcolumn : SingleLine (Render.ancestorColumn last) := by cases last <;> decide
      exact hcolumn.append ih

/-! ## Lines below some labels -/

/-- Below the labels `above`, the lines show the edges `shown`, and what follows them may be below
those labels as well. -/
def Shows (above : List String) (lines : List (Nat × String)) (shown : List (String × String)) :
    Prop :=
  ∀ tail rest, ∃ tail', edges (above ++ tail) (lines ++ rest) = shown ++ edges (above ++ tail') rest

namespace Shows

variable {above : List String}

theorem flatMap {α : Type} {items : List α} {lines : α → List (Nat × String)}
    {shown : α → List (String × String)} (h : ∀ item ∈ items, Shows above (lines item) (shown item)) :
    Shows above (items.flatMap lines) (items.flatMap shown) := by
  induction items with
  | nil => exact fun tail _ => ⟨tail, rfl⟩
  | cons item items ih =>
    obtain ⟨hitem, hitems⟩ := List.forall_mem_cons.1 h
    intro tail rest
    -- the first item leaves labels of its own below `above`, and the others are read all the same
    obtain ⟨tail', hfirst⟩ := hitem tail (items.flatMap lines ++ rest)
    obtain ⟨tail'', hothers⟩ := ih hitems tail' rest
    refine ⟨tail'', ?_⟩
    rw [List.flatMap_cons, List.append_assoc, hfirst, hothers, List.flatMap_cons, List.append_assoc]

/-- A line hangs below the last label above it, and the lines below it hang below its own label. -/
theorem cons {depth : Nat} {label : String} {lines : List (Nat × String)}
    {shown : List (String × String)} (hdepth : above.length = depth)
    (h : Shows (above ++ [label]) lines shown) :
    Shows above ((depth, label) :: lines) ((above.getLast?.map (·, label)).toList ++ shown) := by
  intro tail rest
  obtain ⟨tail', hlines⟩ := h [] rest
  refine ⟨label :: tail', ?_⟩
  rw [List.append_nil] at hlines
  rw [List.cons_append, edges, List.take_left' hdepth, hlines]
  simp

theorem edges_eq {lines : List (Nat × String)} {shown : List (String × String)}
    (h : Shows [] lines shown) : edges [] lines = shown := by
  obtain ⟨tail, h⟩ := h [] []
  simpa [edges] using h

end Shows

/-! ## All lines -/

section Graph

variable (g : Graph)

def line : Event → Option String
  | .node visit => some (Render.indent visit.lineage ++ (g.node visit.id).label)
  | _ => none

/-- The depth and the label in the line of a visit. -/
def entry : Event → Option (Nat × String)
  | .node visit => some (visit.depth, (g.node visit.id).label)
  | _ => none

theorem entries_walkWithin_succ (limit : Nat) (visit : Visit) :
    (g.walkWithin (limit + 1) visit).filterMap (entry g) =
      (visit.depth, (g.node visit.id).label) ::
        (g.visitsBelow visit).flatMap fun v => (g.walkWithin limit v).filterMap (entry g) := by
  rw [Graph.walkWithin_succ, ← List.filterMap_flatMap]
  cases visit.parent <;> simp [List.filterMap_cons, List.filterMap_append, entry]

/-- The lines of a walk show its edges. -/
theorem shows_walkWithin (limit : Nat) (visit : Visit) {above : List String}
    (hdepth : above.length = visit.depth)
    (hparent : (visit.parent.map fun p => (g.node p).label) = above.getLast?) :
    Shows above ((g.walkWithin limit visit).filterMap (entry g))
      (g.edgesOf (g.walkWithin limit visit)) := by
  induction limit generalizing visit above with
  | zero => exact fun tail _ => ⟨tail, rfl⟩
  | succ limit ih =>
    have hbelow : ∀ v ∈ g.visitsBelow visit, Shows (above ++ [(g.node visit.id).label])
        ((g.walkWithin limit v).filterMap (entry g)) (g.edgesOf (g.walkWithin limit v)) := by
      intro v hv
      obtain ⟨hvparent, hvdepth⟩ := Graph.of_mem_visitsBelow hv
      apply ih v
      · rw [List.length_append, hdepth, hvdepth]
        rfl
      · simp [hvparent]
    have h := Shows.cons hdepth (Shows.flatMap hbelow)
    rw [← hparent, Option.map_map] at h
    rw [entries_walkWithin_succ, Graph.edgesOf_walkWithin_succ]
    exact h

end Graph

/-- **The text tree shows the edges of the walk.** -/
theorem read_text {g : Graph} (hg : ∀ id, (g.node id).Presentable) :
    read (Render.text g) = g.shownEdges := by
  have htext : Render.text g = Text.unlines (g.walk.filterMap (line g)) := by
    apply Text.join_filterMap
    intro event
    cases event <;> rfl
  have hlines : ∀ l ∈ g.walk.filterMap (line g), SingleLine l := by
    intro l hl
    obtain ⟨event, -, hevent⟩ := List.mem_filterMap.1 hl
    cases event with
    | node visit =>
      obtain rfl := Option.some.inj hevent
      exact (singleLine_indent visit.lineage).append (hg visit.id).singleLine_label
    | edge parent child => cases hevent
    | leave id => cases hevent
  have hentry : ∀ event, (line g event).map (fun l =>
      ((columns l.toList).1, String.ofList (columns l.toList).2)) = entry g event := by
    intro event
    cases event with
    | node visit =>
      simp [line, entry, String.toList_append, columns_indent (hg visit.id).startsLabel_label,
        Visit.depth]
    | edge parent child => rfl
    | leave id => rfl
  have hwalk : Shows [] (g.walk.filterMap (entry g)) g.shownEdges :=
    shows_walkWithin g g.size ⟨Graph.root, none, []⟩ rfl rfl
  rw [read, htext, Text.lines_unlines hlines, List.map_filterMap]
  simp only [hentry]
  exact hwalk.edges_eq

end Outline

end ArtifactTree
