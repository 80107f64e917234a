import ArtifactTree.Proofs.Rendering.Drawn
import ArtifactTree.Proofs.Rendering.Outline

/-!
# The columns of the text tree

The columns in front of a label say where siblings are still to come. A line is written from the lineage
of its node alone, and yet the bars join up from line to line: the lineage of the next line goes on where
this one has its last branch (`Outline.Follows`), and after the last line no branch is left. That is so
along a whole tour (`WellLinked.runsOn_tour`), however far the walk goes back up.

Main statement: `outlines_of_wellLinked`.
-/

namespace ArtifactTree

open ArtifactTree.Graph

namespace Outline

/-! ## Rows -/

inductive Column where
  /-- An ancestor that has siblings still to come. -/
  | bar
  /-- An ancestor that has none. -/
  | blank
  /-- The node itself, with siblings still to come. -/
  | branch
  /-- The node itself, the last of its siblings. -/
  | corner
deriving DecidableEq

namespace Column

def text : Column → String
  | bar => "|  "
  | blank => "   "
  | branch => "+- "
  | corner => "\\- "

/-- The column of an ancestor, by whether it is the last of its siblings. -/
def ofAncestor (last : Bool) : Column := if last then blank else bar

/-- The column of the node itself. -/
def ofNode (last : Bool) : Column := if last then corner else branch

end Column

/-- A line, taken apart. -/
structure Row where
  columns : List Column
  label : String

def Row.text (row : Row) : String := String.join (row.columns.map Column.text) ++ row.label

/-- The columns of a node with the given lineage. -/
def drawn (lineage : List Bool) : List Column :=
  lineage.dropLast.map Column.ofAncestor ++ (lineage.getLast?.map Column.ofNode).toList

theorem drawn_concat (lineage : List Bool) (last : Bool) :
    drawn (lineage ++ [last]) = lineage.map Column.ofAncestor ++ [Column.ofNode last] := by
  simp [drawn]

theorem length_drawn (lineage : List Bool) : (drawn lineage).length = lineage.length := by
  cases lineage using List.reverseRecOn with
  | nil => rfl
  | append_singleton lineage last => simp [drawn_concat]

theorem indent_concat (lineage : List Bool) (last : Bool) :
    Render.indent (lineage ++ [last]) =
      String.join (lineage.map Render.ancestorColumn) ++ Render.branchColumn last := by
  induction lineage with
  | nil => simp [Render.indent]
  | cons first lineage ih =>
    have hindent : Render.indent (first :: (lineage ++ [last])) =
        Render.ancestorColumn first ++ Render.indent (lineage ++ [last]) := by
      cases lineage <;> rfl
    rw [List.cons_append, hindent, ih, List.map_cons, String.join_cons, String.append_assoc]

theorem indent_eq (lineage : List Bool) :
    Render.indent lineage = String.join ((drawn lineage).map Column.text) := by
  have hancestor : ∀ last, Render.ancestorColumn last = (Column.ofAncestor last).text := by decide
  have hnode : ∀ last, Render.branchColumn last = (Column.ofNode last).text := by decide
  cases lineage using List.reverseRecOn with
  | nil => rfl
  | append_singleton lineage last =>
    rw [indent_concat, drawn_concat, hnode, funext hancestor, List.map_append, List.map_map,
      String.join_append, List.map_singleton, String.join_cons, String.join_nil, String.append_empty]
    rfl

/-! ## Line after line -/

/-- What is open goes on in the next line, and what is closed stays empty there. -/
structure Joins (columns : List Column) (next? : Option (List Column)) : Prop where
  opened : ∀ k : Nat, columns[k]? = some .bar ∨ columns[k]? = some .branch →
    ∃ next column, next? = some next ∧ next[k]? = some column ∧ column ≠ .blank
  closed : ∀ k : Nat, columns[k]? = some .blank ∨ columns[k]? = some .corner →
    ∀ next, next? = some next → k < next.length → next[k]? = some .blank

/-- The lineage of a line and that of the next one. -/
inductive Follows : List Bool → List Bool → Prop
  /-- The next line is the first one below. -/
  | below (lineage : List Bool) (last : Bool) : Follows lineage (lineage ++ [last])
  /-- The walk went back up to the last branch, and the next line is its next sibling. -/
  | beside (lineage : List Bool) (levels : Nat) (last : Bool) :
    Follows (lineage ++ false :: List.replicate levels true) (lineage ++ [last])

/-- The lineages of some lines, of which the last one leaves nothing open. -/
inductive Runs : List (List Bool) → Prop
  | last (levels : Nat) : Runs [List.replicate levels true]
  | next {lineage lineage' : List Bool} {lineages : List (List Bool)}
    (follows : Follows lineage lineage') (rest : Runs (lineage' :: lineages)) :
    Runs (lineage :: lineage' :: lineages)

/-- Whatever may follow the last line below a node of the given lineage may follow these lines. -/
def RunsOn (lineage : List Bool) (lineages : List (List Bool)) : Prop :=
  ∀ rest, (∀ levels, Runs ((lineage ++ List.replicate levels true) :: rest)) →
    Runs (lineages ++ rest)

theorem drawn_getElem? (lineage : List Bool) (k : Nat) :
    (drawn lineage)[k]? =
      lineage[k]?.map (if k + 1 = lineage.length then Column.ofNode else Column.ofAncestor) := by
  cases lineage using List.reverseRecOn with
  | nil => rfl
  | append_singleton lineage last =>
    rw [drawn_concat, List.length_append, List.length_singleton]
    rcases Nat.lt_trichotomy k lineage.length with hlt | rfl | hgt
    · rw [List.getElem?_append_left (by simpa using hlt), List.getElem?_append_left hlt,
        List.getElem?_map, if_neg (by omega)]
    · simp
    · have hlength : lineage.length + 1 ≤ k := hgt
      rw [List.getElem?_eq_none (by simpa using hlength),
        List.getElem?_eq_none (by simpa using hlength)]
      rfl

theorem opened_iff {lineage : List Bool} {k : Nat} :
    (drawn lineage)[k]? = some .bar ∨ (drawn lineage)[k]? = some .branch ↔
      lineage[k]? = some false := by
  rw [drawn_getElem?]
  rcases lineage[k]? with _ | _ | _ <;> split <;> simp [Column.ofNode, Column.ofAncestor]

theorem closed_iff {lineage : List Bool} {k : Nat} :
    (drawn lineage)[k]? = some .blank ∨ (drawn lineage)[k]? = some .corner ↔
      lineage[k]? = some true := by
  rw [drawn_getElem?]
  rcases lineage[k]? with _ | _ | _ <;> split <;> simp [Column.ofNode, Column.ofAncestor]

/-- Among the columns of the next line, those above its own are the ones of its ancestors. -/
theorem joins_concat {columns : List Column} {lineage : List Bool} (last : Bool)
    (hopened : ∀ k : Nat, columns[k]? = some .bar ∨ columns[k]? = some .branch →
      lineage[k]? = some false ∨ k = lineage.length)
    (hclosed : ∀ k : Nat, columns[k]? = some .blank ∨ columns[k]? = some .corner →
      lineage[k]? = some true ∨ lineage.length < k) :
    Joins columns (some (drawn (lineage ++ [last]))) where
  opened k hk := by
    rcases hopened k hk with hopen | rfl
    · refine ⟨_, .bar, rfl, ?_, Column.noConfusion⟩
      obtain ⟨hlt, -⟩ := List.getElem?_eq_some_iff.1 hopen
      rw [drawn_concat, List.getElem?_append_left (by simpa using hlt), List.getElem?_map, hopen]
      rfl
    · refine ⟨_, .ofNode last, rfl, by simp [drawn_concat], ?_⟩
      cases last <;> decide
  closed k hk next hnext hlength := by
    obtain rfl := Option.some.inj hnext
    rcases hclosed k hk with hclosed | hgt
    · obtain ⟨hlt, -⟩ := List.getElem?_eq_some_iff.1 hclosed
      rw [drawn_concat, List.getElem?_append_left (by simpa using hlt), List.getElem?_map, hclosed]
      rfl
    · rw [length_drawn, List.length_append, List.length_singleton] at hlength
      omega

theorem Follows.joins {lineage lineage' : List Bool} (h : Follows lineage lineage') :
    Joins (drawn lineage) (some (drawn lineage')) := by
  cases h with
  | below _ last =>
    exact joins_concat last (fun k hk => .inl (opened_iff.1 hk)) fun k hk => .inl (closed_iff.1 hk)
  | beside lineage levels last =>
    refine joins_concat last (fun k hk => ?_) fun k hk => ?_
    · rw [opened_iff] at hk
      rcases Nat.lt_trichotomy k lineage.length with hlt | rfl | hgt
      · exact .inl (List.getElem?_append_left hlt ▸ hk)
      · exact .inr rfl
      · rw [List.getElem?_append_right (Nat.le_of_lt hgt), List.getElem?_cons,
          if_neg (Nat.sub_ne_zero_of_lt hgt)] at hk
        cases List.eq_of_mem_replicate (List.mem_of_getElem? hk)
    · rw [closed_iff] at hk
      rcases Nat.lt_trichotomy k lineage.length with hlt | rfl | hgt
      · exact .inl (List.getElem?_append_left hlt ▸ hk)
      · simp at hk
      · exact .inr hgt

theorem joins_none (levels : Nat) : Joins (drawn (List.replicate levels true)) none where
  opened k hk := by
    have hfalse := List.mem_of_getElem? (opened_iff.1 hk)
    cases List.eq_of_mem_replicate hfalse
  closed k _ next hnext := by cases hnext

/-- Along the lines, every one joins the next. -/
theorem Runs.joins {lineages : List (List Bool)} (h : Runs lineages) {i : Nat} {lineage : List Bool}
    (hi : lineages[i]? = some lineage) : Joins (drawn lineage) (lineages[i + 1]?.map drawn) := by
  induction h generalizing i with
  | last levels =>
    cases i with
    | zero =>
      obtain rfl := Option.some.inj hi
      exact joins_none levels
    | succ i => cases hi
  | next follows rest ih =>
    cases i with
    | zero =>
      obtain rfl := Option.some.inj hi
      exact follows.joins
    | succ i => exact ih hi

end Outline

/-! ## The lineages of a walk -/

namespace Graph.WellLinked

open Outline

variable {g : Graph} (hg : g.WellLinked)
include hg

/-- A tour starts with the lineage of its node. -/
theorem exists_lineages_tour {id : Nat} (hid : id < g.size) :
    ∃ below, (shownBy (g.tour id)).map g.lineage = g.lineage id :: below :=
  ⟨_, by rw [hg.shownBy_tour_eq hid, List.map_cons]⟩

/-- Of the children that are shown, the last one and no other is marked. -/
theorem map_isLastShown {id child : Nat} {children : List Nat}
    (h : g.shownBelow id = child :: children) :
    (child :: children).map g.isLastShown = List.replicate children.length false ++ [true] := by
  have hrendered : g.renderedChildren id = child :: children := by
    have hentered := (mem_shownBelow.1 (h ▸ List.mem_cons_self)).1
    rwa [shownBelow, if_pos hentered] at h
  have hnodup : (g.renderedChildren id).Nodup := (hg.nodup_children id).filter _
  rw [← map_snd_withLast child children, ← hrendered, withLast_of_nodup hnodup, List.map_map]
  exact List.map_congr_left fun c hc => hg.isLastShown_of_mem (List.mem_filter.1 hc).1

/-- The lineages below a node run on if those of each child do: each child but the first follows the last
line below the child before it. -/
theorem runsOn_flatMap {id child : Nat} {children : List Nat}
    (hbelow : ∀ c ∈ child :: children, c ∈ g.children id)
    (hlast : (child :: children).map g.isLastShown = List.replicate children.length false ++ [true])
    (hruns : ∀ c ∈ child :: children, RunsOn (g.lineage c) ((shownBy (g.tour c)).map g.lineage)) :
    RunsOn (g.lineage id)
      ((child :: children).flatMap fun c => (shownBy (g.tour c)).map g.lineage) := by
  intro rest hrest
  induction children generalizing child with
  | nil =>
    rw [List.flatMap_singleton]
    refine hruns child List.mem_cons_self rest fun levels => ?_
    have hlineage := hg.lineage_of_parent (hg.parent_of_mem (hbelow child List.mem_cons_self))
    have htrue : g.isLastShown child = true := (List.cons.inj hlast).1
    rw [hlineage, htrue, List.append_assoc]
    exact hrest (levels + 1)
  | cons next children ih =>
    obtain ⟨hchild, hbelow⟩ := List.forall_mem_cons.1 hbelow
    obtain ⟨hfirst, hruns⟩ := List.forall_mem_cons.1 hruns
    have hnext := hbelow next List.mem_cons_self
    obtain ⟨below, htour⟩ := hg.exists_lineages_tour (hg.lt_of_mem hnext).2
    have hothers := ih hbelow (List.cons.inj hlast).2 hruns
    rw [List.flatMap_cons, List.append_assoc]
    refine hfirst _ fun levels => ?_
    rw [List.flatMap_cons, htour] at hothers ⊢
    refine .next ?_ hothers
    have hfalse : g.isLastShown child = false := (List.cons.inj hlast).1
    rw [hg.lineage_of_parent (hg.parent_of_mem hchild), hg.lineage_of_parent (hg.parent_of_mem hnext),
      hfalse, List.append_assoc]
    exact .beside _ levels _

theorem runsOn_tour {id : Nat} (hid : id < g.size) :
    RunsOn (g.lineage id) ((shownBy (g.tour id)).map g.lineage) := by
  induction id, hid using hg.below_induction with
  | node id hid ih =>
    intro rest hrest
    rw [hg.shownBy_tour_eq hid, List.map_cons, List.map_flatMap]
    cases hchildren : g.shownBelow id with
    | nil => simpa using hrest 0
    | cons child children =>
      have hbelow : ∀ c ∈ child :: children, c ∈ g.children id := fun c hc =>
        mem_children_of_mem_shownBelow (hchildren ▸ hc)
      have hchild := hbelow child List.mem_cons_self
      obtain ⟨below, htour⟩ := hg.exists_lineages_tour (hg.lt_of_mem hchild).2
      have hruns := hg.runsOn_flatMap hbelow (hg.map_isLastShown hchildren)
        (fun c hc => ih c (hbelow c hc)) rest hrest
      rw [List.flatMap_cons, htour] at hruns ⊢
      refine .next ?_ hruns
      rw [hg.lineage_of_parent (hg.parent_of_mem hchild)]
      exact .below _ _

theorem runs_walk : Runs ((shownBy g.walk).map g.lineage) := by
  have hlineage : g.lineage root = [] := congrArg Visit.lineage hg.visitOf_root
  have hroot : root < g.size := hg.size_pos
  have hruns := hg.runsOn_tour hroot []
  rw [hlineage, List.append_nil, ← hg.walk_eq_tour] at hruns
  exact hruns .last

end Graph.WellLinked

/-! ## What the columns tell -/

namespace Graph

/-- A sibling after the node is shown. -/
def HasLaterSibling (g : Graph) (id : Nat) : Prop :=
  ∃ parent sibling, (g.node id).parent = some parent ∧ [id, sibling].Sublist (g.children parent) ∧
    sibling ∈ shownBy g.walk

/-- An item of a list without repetitions is the last one, or there is one after it. -/
theorem getLast?_ne_iff {ids : List Nat} (hids : ids.Nodup) {id : Nat} (hid : id ∈ ids) :
    ids.getLast? ≠ some id ↔ ∃ later, [id, later].Sublist ids := by
  obtain ⟨ids, last, rfl⟩ : ∃ before last, ids = before ++ [last] :=
    ⟨_, _, (List.dropLast_append_getLast (List.ne_nil_of_mem hid)).symm⟩
  rw [List.getLast?_concat, Ne, Option.some.injEq]
  constructor
  · intro hne
    have hbefore : id ∈ ids := by
      rcases List.mem_append.1 hid with hid | hid
      · exact hid
      · exact absurd (List.mem_singleton.1 hid).symm hne
    exact ⟨last, (List.singleton_sublist.2 hbefore).append (List.Sublist.refl [last])⟩
  · rintro ⟨later, hpair⟩ rfl
    have hne : last ≠ later := by simpa using hids.sublist hpair
    have hlater : later ∈ ids := by
      rcases List.mem_append.1 (mem_of_pair hpair).2 with hlater | hlater
      · exact hlater
      · exact absurd (List.mem_singleton.1 hlater).symm hne
    exact not_pair_swap hids hpair
      ((List.singleton_sublist.2 hlater).append (List.Sublist.refl [last]))

namespace WellLinked

variable {g : Graph} (hg : g.WellLinked)
include hg

theorem isLastShown_eq_false_iff {id parent : Nat} (hid : g.Shown id)
    (hparent : (g.node id).parent = some parent) :
    g.isLastShown id = false ↔ g.HasLaterSibling id := by
  obtain ⟨habove, hentered, hmem⟩ := hg.shown_parent hid hparent
  have hsub : (g.renderedChildren parent).Sublist (g.children parent) := List.filter_sublist
  have hlast : g.isLastShown id = ((g.renderedChildren parent).getLast? == some id) :=
    hg.isLastShown_of_mem (hsub.subset hmem)
  rw [hlast, beq_eq_false_iff_ne, getLast?_ne_iff ((hg.nodup_children parent).sublist hsub) hmem]
  constructor
  · rintro ⟨sibling, hpair⟩
    have hsibling := (mem_of_pair hpair).2
    exact ⟨parent, sibling, hparent, hpair.trans hsub,
      hg.mem_shownBy_walk_iff.2 (habove.child hentered hsibling)⟩
  · rintro ⟨other, sibling, hother, hpair, hsibling⟩
    obtain rfl := Option.some.inj (hparent.symm.trans hother)
    have hsibling := (hg.shown_parent (hg.mem_shownBy_walk_iff.1 hsibling)
      (hg.parent_of_mem (mem_of_pair hpair).2)).2.2
    refine ⟨sibling, ?_⟩
    have hkept := hpair.filter (g.shows parent)
    rwa [List.filter_eq_self.2] at hkept
    refine List.forall_mem_cons.2 ⟨(List.mem_filter.1 hmem).2, List.forall_mem_singleton.2 ?_⟩
    exact (List.mem_filter.1 hsibling).2

end WellLinked

end Graph

namespace Outline

/-- The row is that of the node: a column for each level, and the label. -/
structure Row.Draws (g : Graph) (id : Nat) (row : Row) : Prop where
  label : row.label = (g.node id).label
  length : row.columns.length = g.depth id
  ancestor : ∀ a ∈ g.ancestors id, ∀ k, g.depth a = k + 1 →
    row.columns[k]? = some .bar ∧ g.HasLaterSibling a ∨
      row.columns[k]? = some .blank ∧ ¬ g.HasLaterSibling a
  node : ∀ k, g.depth id = k + 1 →
    row.columns[k]? = some .branch ∧ g.HasLaterSibling id ∨
      row.columns[k]? = some .corner ∧ ¬ g.HasLaterSibling id

/-- The row of a node. -/
def row (g : Graph) (id : Nat) : Row := ⟨drawn (g.lineage id), (g.node id).label⟩

/-- The rows of the rendered tree, in the order of the walk. -/
def rows (g : Graph) : List Row := (shownBy g.walk).map (row g)

/-- The text is the outline of the rendered tree in the given rows. -/
structure Outlines (g : Graph) (rows : List Row) (text : String) : Prop where
  text_eq : text = Text.unlines (rows.map Row.text)
  lines_eq : Text.lines text = rows.map Row.text
  draws : List.Forall₂ (Row.Draws g) (shownBy g.walk) rows
  joins : ∀ (i : Nat) (row : Row), rows[i]? = some row →
    Joins row.columns (rows[i + 1]?.map Row.columns)

/-- A level down to a node that is shown tells of the node on this level of its chain. -/
theorem getElem?_drawn_lineage {g : Graph} (hg : g.WellLinked) {id a k : Nat} (hid : g.Shown id)
    (ha : a ∈ id :: g.ancestors id) (hdepth : g.depth a = k + 1) :
    (drawn (g.lineage id))[k]? = some
        ((if k + 1 = g.depth id then Column.ofNode else Column.ofAncestor) (g.isLastShown a)) ∧
      (g.isLastShown a = false ↔ g.HasLaterSibling a) := by
  have hsize := hg.lt_of_mem_preorder (hg.shown_iff.1 hid).1
  have hk : k < g.depth id := by
    rcases List.mem_cons.1 ha with rfl | ha
    · exact hdepth ▸ Nat.lt_succ_self k
    · have hlt := hg.depth_lt_of_mem_ancestors hsize ha
      rw [hdepth] at hlt
      exact Nat.lt_of_succ_lt hlt
  have hshown : g.Shown a := by
    rcases List.mem_cons.1 ha with rfl | ha
    · exact hid
    · exact hg.shown_of_mem_ancestors hid a ha
  obtain ⟨b, hb, hdepth', hsome, hentry⟩ := hg.lineage_getElem? hsize hk
  obtain rfl := hg.eq_of_mem_chain hsize hb ha (hdepth'.trans hdepth.symm)
  obtain ⟨parent, hparent⟩ := Option.isSome_iff_exists.1 hsome
  refine ⟨?_, hg.isLastShown_eq_false_iff hshown hparent⟩
  rw [drawn_getElem?, hentry, length_lineage, Option.map_some]

/-- The columns of a node tell of the nodes on its chain. -/
theorem draws_row {g : Graph} (hg : g.WellLinked) {id : Nat} (hid : g.Shown id) :
    (row g id).Draws g id where
  label := rfl
  length := by rw [row, length_drawn, length_lineage]
  ancestor a ha k hdepth := by
    have hsize := hg.lt_of_mem_preorder (hg.shown_iff.1 hid).1
    have hlt : k + 1 ≠ g.depth id := hdepth ▸ Nat.ne_of_lt (hg.depth_lt_of_mem_ancestors hsize ha)
    obtain ⟨hcolumn, hlater⟩ := getElem?_drawn_lineage hg hid (List.mem_cons_of_mem _ ha) hdepth
    rw [if_neg hlt] at hcolumn
    rw [← hlater, row, hcolumn]
    cases g.isLastShown a <;> simp [Column.ofAncestor]
  node k hdepth := by
    obtain ⟨hcolumn, hlater⟩ := getElem?_drawn_lineage hg hid List.mem_cons_self hdepth
    rw [if_pos hdepth.symm] at hcolumn
    rw [← hlater, row, hcolumn]
    cases g.isLastShown id <;> simp [Column.ofNode]

/-- **The text tree is drawn from column to column**, for every graph of which the links describe a tree
and the labels have no line break: one line for each node that is shown, with the columns that its
siblings and those of its ancestors call for, and with bars that go on from line to line. -/
theorem outlines_of_wellLinked {g : Graph} (hg : g.WellLinked)
    (hlabels : ∀ id ∈ shownBy g.walk, SingleLine (g.node id).label) :
    Outlines g (rows g) (Render.text g) := by
  have htext : Render.text g = Text.unlines ((rows g).map Row.text) := by
    have hdraws : Render.text g =
        String.join ((shownBy g.walk).map fun id => Render.textLine g (g.visitOf id)) :=
      Format.draws_render hg .text
    rw [hdraws, Text.unlines, rows, List.map_map, List.map_map]
    refine congrArg String.join (List.map_congr_left fun id _ => ?_)
    rw [Render.textLine, indent_eq]
    rfl
  have hlines : ∀ line ∈ (rows g).map Row.text, SingleLine line := by
    rw [rows, List.map_map, List.forall_mem_map]
    intro id hid
    have hindent := singleLine_indent (g.lineage id)
    rw [indent_eq] at hindent
    exact hindent.append (hlabels id hid)
  refine ⟨htext, by rw [htext, Text.lines_unlines hlines], ?_, ?_⟩
  · rw [rows, List.forall₂_map_right_iff, List.forall₂_same]
    exact fun id hid => draws_row hg (hg.mem_shownBy_walk_iff.1 hid)
  · intro i line hline
    obtain ⟨id, hid, rfl⟩ := Option.map_eq_some_iff.1 (List.getElem?_map ▸ hline)
    have hlineage : ((shownBy g.walk).map g.lineage)[i]? = some (g.lineage id) := by
      rw [List.getElem?_map, hid, Option.map_some]
    have hjoins := hg.runs_walk.joins hlineage
    rw [List.getElem?_map, Option.map_map] at hjoins
    rw [rows, List.getElem?_map, Option.map_map]
    exact hjoins

/-- In the line of `log`, which is the third row, the bar is that of `web`; the sibling of `log` that
comes after it is hidden, so `log` has a corner. -/
theorem outlines_hiddenSiblings :
    hiddenSiblings.WellLinked ∧
      (∀ id ∈ shownBy hiddenSiblings.walk, SingleLine (hiddenSiblings.node id).label) ∧
      Outlines hiddenSiblings (rows hiddenSiblings) (Render.text hiddenSiblings) ∧
      (rows hiddenSiblings).map Row.columns =
        [[], [.branch], [.bar, .corner], [.branch], [.branch], [.corner]] := by
  have h : hiddenSiblings.WellLinked :=
    (wellLinked_ofRoot (requested "app")).changed (by decide +kernel)
  have hlabels : ∀ id ∈ shownBy hiddenSiblings.walk, SingleLine (hiddenSiblings.node id).label := by
    decide +kernel
  exact ⟨h, hlabels, outlines_of_wellLinked h hlabels, by decide +kernel⟩

end Outline

end ArtifactTree
