import ArtifactTree.Proofs.Rendering.Json
import ArtifactTree.Proofs.Rendering.Walk
import ArtifactTree.Render.Record

/-!
# Reading nested records

The builder of records keeps a stack of open ones. A walk through a node leaves the stack as it was
and hands one record to the innermost open one (`HandsOn`), so the record of a graph has the
shape of the walk (`ofGraph?_eq`). Read back from its JSON text, it shows the edges by nesting: from
a record to each of its dependencies.
-/

namespace ArtifactTree.Record

/-! ## The records of a walk -/

/-- What a walk through a node hands on: the record of the node, and nothing below the last level. -/
def ofWalk (g : Graph) : (limit : Nat) → Visit → List Record
  | 0, _ => []
  | limit + 1, visit =>
    [node (g.node visit.id).facts ((g.visitsBelow visit).flatMap (ofWalk g limit))]

section Builder

variable (g : Graph)

/-- A walk below an open record keeps the stack, and its record becomes the last child there. -/
def HandsOn (limit : Nat) : Prop :=
  ∀ (visit : Visit) (outer : NodeFacts) (siblings : List Record)
    (opened : List (NodeFacts × List Record)) (finished : Option Record),
    (g.walkWithin limit visit).foldl (Builder.follow g) ⟨(outer, siblings) :: opened, finished⟩ =
      ⟨(outer, (ofWalk g limit visit).reverse ++ siblings) :: opened, finished⟩

variable {g} {limit : Nat}

theorem HandsOn.flatMap (h : HandsOn g limit) (visits : List Visit) (outer : NodeFacts)
    (siblings : List Record) (opened : List (NodeFacts × List Record)) (finished : Option Record) :
    (visits.flatMap (g.walkWithin limit)).foldl (Builder.follow g)
        ⟨(outer, siblings) :: opened, finished⟩ =
      ⟨(outer, (visits.flatMap (ofWalk g limit)).reverse ++ siblings) :: opened, finished⟩ := by
  induction visits generalizing siblings with
  | nil => rfl
  | cons visit visits ih =>
    rw [List.flatMap_cons, List.foldl_append, h, ih, List.flatMap_cons, List.reverse_append,
      List.append_assoc]

/-- When a node is left, its record has the records from below. -/
theorem HandsOn.foldl_succ (h : HandsOn g limit) (visit : Visit) (b : Builder) :
    (g.walkWithin (limit + 1) visit).foldl (Builder.follow g) b =
      Builder.follow g ⟨((g.node visit.id).facts,
        ((g.visitsBelow visit).flatMap (ofWalk g limit)).reverse) :: b.opened, b.finished⟩
          (.leave visit.id) := by
  have hedge : ∀ b : Builder,
      (visit.parent.map (Event.edge · visit.id)).toList.foldl (Builder.follow g) b = b := by
    cases visit.parent <;> intro b <;> rfl
  have hnode : Builder.follow g b (.node visit) =
      ⟨((g.node visit.id).facts, []) :: b.opened, b.finished⟩ := rfl
  simp only [Graph.walkWithin_succ, List.cons_append, List.foldl_append, List.foldl_cons,
    List.foldl_nil, hedge, hnode, h.flatMap, List.append_nil]

theorem handsOn (g : Graph) (limit : Nat) : HandsOn g limit := by
  induction limit with
  | zero => exact fun _ _ _ _ _ => rfl
  | succ limit ih =>
    intro visit outer siblings opened finished
    -- the node is left with the record open that was open before it, so that one gets the record
    rw [ih.foldl_succ]
    simp [Builder.follow, ofWalk]

/-- The record of a graph is the one that the walk through the root hands on. -/
theorem ofGraph?_eq (h : g.size = limit + 1) :
    ofGraph? g = (ofWalk g (limit + 1) ⟨Graph.root, none, []⟩).head? := by
  rw [ofGraph?, Graph.walk, h, (handsOn g limit).foldl_succ]
  simp [Builder.follow, ofWalk]

end Builder

/-! ## The reader -/

def textUnder? (key : String) : Json → Option String
  | .object members => members.findSome? fun
    | (other, .string text) => if other = key then some text else none
    | _ => none
  | _ => none

mutual

/-- The edges that a record shows, in the order of its text. -/
def edges? : Json → Option (List (String × String))
  | .object members => do
    let label ← textUnder? "label" (.object members)
    dependencyEdges? label members
  | _ => none

/-- The edges from a label to the dependencies among some members. -/
def dependencyEdges? (label : String) : List (String × Json) → Option (List (String × String))
  | [] => none
  | (key, .list items) :: members =>
    if key = "dependencies" then itemEdges? label items else dependencyEdges? label members
  | _ :: members => dependencyEdges? label members

/-- The edges from a label to some records, each with those that the record shows. -/
def itemEdges? (label : String) : List Json → Option (List (String × String))
  | [] => some []
  | item :: items => do
    let child ← textUnder? "label" item
    let below ← edges? item
    let others ← itemEdges? label items
    return (label, child) :: below ++ others

end

def read (text : String) : Option (List (String × String)) := Json.read? text >>= edges?

/-! ## Reading records -/

theorem toJsons_eq_map (records : List Record) : toJsons records = records.map toJson := by
  induction records with
  | nil => rfl
  | cons record records ih => rw [toJsons, ih, List.map_cons]

theorem textUnder?_label (facts : NodeFacts) (dependencies : List Record) :
    textUnder? "label" (node facts dependencies).toJson = some facts.label := by
  simp [toJson, factMembers, textUnder?]

/-- No fact stands under the key of the dependencies. -/
theorem key_ne_dependencies (facts : NodeFacts) :
    ∀ m ∈ factMembers facts, m.1 ≠ "dependencies" := by
  have hmember : ∀ {key : String} (value : Option String), key ≠ "dependencies" →
      ∀ m ∈ member key value, m.1 ≠ "dependencies" := by
    intro key value hkey m hm
    obtain ⟨text, -, rfl⟩ := List.mem_map.1 hm
    exact hkey
  have hcoordinate : ∀ m ∈ facts.coordinate.elim [] coordinateMembers, m.1 ≠ "dependencies" := by
    cases facts.coordinate with
    | none => simp
    | some c => exact List.forall_mem_append.2 ⟨by simp, hmember _ (by decide)⟩
  have hoptional : ∀ m ∈ if facts.optional then [("optional", Json.boolean true)] else [],
      m.1 ≠ "dependencies" := by
    split <;> simp
  have hexclusions : ∀ m ∈ exclusionMembers facts.exclusions, m.1 ≠ "dependencies" := by
    unfold exclusionMembers
    split <;> simp
  simp only [factMembers, List.forall_mem_append]
  exact ⟨⟨⟨⟨⟨⟨⟨⟨by simp, hcoordinate⟩, hmember _ (by decide)⟩, hoptional⟩, hmember _ (by decide)⟩,
    hmember _ (by decide)⟩, hexclusions⟩, by simp⟩, hmember _ (by decide)⟩

theorem dependencyEdges?_append {label : String} {members : List (String × Json)}
    (h : ∀ m ∈ members, m.1 ≠ "dependencies") (items : List Json) :
    dependencyEdges? label (members ++ [("dependencies", .list items)]) = itemEdges? label items := by
  induction members with
  | nil => rw [List.nil_append, dependencyEdges?, if_pos rfl]
  | cons m members ih =>
    obtain ⟨hm, hmembers⟩ := List.forall_mem_cons.1 h
    rw [List.cons_append, ← ih hmembers]
    obtain ⟨key, value⟩ := m
    cases value with
    | list items => rw [dependencyEdges?, if_neg hm]
    | string text => rw [dependencyEdges?]; simp
    | boolean value => rw [dependencyEdges?]; simp
    | object members => rw [dependencyEdges?]; simp

theorem edges?_toJson (facts : NodeFacts) (dependencies : List Record) :
    edges? (node facts dependencies).toJson =
      itemEdges? facts.label (dependencies.map toJson) := by
  have hlabel := textUnder?_label facts dependencies
  rw [toJson] at hlabel ⊢
  rw [edges?, hlabel, Option.bind_eq_bind, Option.bind_some,
    dependencyEdges?_append (key_ne_dependencies facts), toJsons_eq_map]

theorem itemEdges?_append {label : String} {items others : List Json}
    {shown more : List (String × String)} (hitems : itemEdges? label items = some shown)
    (hothers : itemEdges? label others = some more) :
    itemEdges? label (items ++ others) = some (shown ++ more) := by
  induction items generalizing shown with
  | nil =>
    obtain rfl : [] = shown := Option.some.inj hitems
    exact hothers
  | cons item items ih =>
    simp only [itemEdges?, Option.bind_eq_bind, Option.bind_eq_some_iff] at hitems
    obtain ⟨child, hchild, below, hbelow, rest, hrest, hshown⟩ := hitems
    obtain rfl := Option.some.inj hshown
    rw [List.cons_append, itemEdges?, hchild, hbelow, ih hrest]
    simp

theorem itemEdges?_flatMap {α : Type} {label : String} {items : List α}
    {records : α → List Record} {shown : α → List (String × String)}
    (h : ∀ item ∈ items, itemEdges? label ((records item).map toJson) = some (shown item)) :
    itemEdges? label ((items.flatMap records).map toJson) = some (items.flatMap shown) := by
  induction items with
  | nil => rfl
  | cons item items ih =>
    obtain ⟨hitem, hitems⟩ := List.forall_mem_cons.1 h
    rw [List.flatMap_cons, List.map_append]
    exact itemEdges?_append hitem (ih hitems)

/-- The record of a visit shows the edges below it. -/
theorem edges?_ofWalk (g : Graph) (limit : Nat) (visit : Visit) :
    edges? (node (g.node visit.id).facts ((g.visitsBelow visit).flatMap (ofWalk g limit))).toJson =
      some ((g.visitsBelow visit).flatMap fun v => g.edgesOf (g.walkWithin limit v)) := by
  induction limit generalizing visit with
  | zero =>
    rw [edges?_toJson]
    exact itemEdges?_flatMap fun _ _ => rfl
  | succ limit ih =>
    rw [edges?_toJson]
    refine itemEdges?_flatMap fun v hv => ?_
    -- the edge to `v` comes from the labels of the two records, what is below `v` from the hypothesis
    rw [ofWalk, List.map_singleton, itemEdges?, textUnder?_label, ih v,
      Graph.edgesOf_walkWithin_succ, (Graph.of_mem_visitsBelow hv).1]
    simp [itemEdges?, Node.facts]

/-- **The nested records show the edges of the walk.** -/
theorem read_json {g : Graph} (h : 0 < g.size) : read (Render.json g) = some g.shownEdges := by
  obtain ⟨limit, hlimit⟩ : ∃ limit, g.size = limit + 1 := ⟨g.size - 1, by omega⟩
  have hedges := edges?_ofWalk g limit ⟨Graph.root, none, []⟩
  rw [Render.json, ofGraph?_eq hlimit, ofWalk, List.head?_cons]
  simp only
  rw [read, Json.read?_text, Option.bind_eq_bind, Option.bind_some, hedges, Graph.shownEdges,
    Graph.walk, hlimit, Graph.edgesOf_walkWithin_succ]
  rfl

end ArtifactTree.Record
