import ArtifactTree.Proofs.Rendering.Drawn
import ArtifactTree.Proofs.Rendering.Formats

/-!
# GraphML as an XML document

The document is a fixed frame around the elements of the walk. Escaping takes all markup out of the texts
of the elements, and the elements nest as the walk does: an edge is written right after the node that it
leads to, while the node that it comes from is still open.

Escaping passes every other character on as it is. XML does not allow all of them, and of the parts of a
label only the versions may have such a character: they are as good as free text (`isVersion`), while
groups, names and types consist of tokens. So the document has no character that XML forbids exactly if
the versions that it writes have none (`Graphml.Document.characters`).

Main statement: `Graphml.exists_document_of_analyze`.
-/

namespace ArtifactTree

open ArtifactTree.Graph Mediation Validation

/-! ## Characters of a document -/

/-- Whether a document in XML 1.0 may have the character. -/
def IsXmlChar (c : Char) : Prop :=
  c.toNat ∈ [0x9, 0xA, 0xD] ∨ 0x20 ≤ c.toNat ∧ c.toNat ≤ 0xD7FF ∨
    0xE000 ≤ c.toNat ∧ c.toNat ≤ 0xFFFD ∨ 0x10000 ≤ c.toNat ∧ c.toNat ≤ 0x10FFFF

instance (c : Char) : Decidable (IsXmlChar c) := inferInstanceAs (Decidable (_ ∨ _))

/-- Whether a document in XML 1.0 may have all characters of a text. -/
def XmlText (text : String) : Prop := ∀ c ∈ text.toList, IsXmlChar c

instance (text : String) : Decidable (XmlText text) :=
  List.decidableBAll (fun c => IsXmlChar c) text.toList

namespace XmlText

@[simp]
theorem append_iff {text text' : String} :
    XmlText (text ++ text') ↔ XmlText text ∧ XmlText text' := Text.forall_mem_append

theorem append {text text' : String} (h : XmlText text) (h' : XmlText text') :
    XmlText (text ++ text') :=
  append_iff.2 ⟨h, h'⟩

/-- A frame without forbidden characters leaves the question to what it frames. -/
theorem framed_iff {before text after : String} (hbefore : XmlText before) (hafter : XmlText after) :
    XmlText (before ++ text ++ after) ↔ XmlText text := by
  rw [append_iff, append_iff, and_iff_left hafter, and_iff_right hbefore]

theorem join_iff {texts : List String} :
    XmlText (String.join texts) ↔ ∀ text ∈ texts, XmlText text := by
  induction texts with
  | nil => exact iff_of_true (by decide) (List.forall_mem_nil _)
  | cons text texts ih => rw [String.join_cons, append_iff, List.forall_mem_cons, ih]

theorem intercalate_iff {sep : String} {texts : List String} (hsep : XmlText sep) :
    XmlText (String.intercalate sep texts) ↔ ∀ text ∈ texts, XmlText text :=
  Text.forall_mem_intercalate hsep

theorem xmlChar_iff (c : Char) : (∀ c' ∈ Render.xmlChar c, IsXmlChar c') ↔ IsXmlChar c := by
  unfold Render.xmlChar
  split_ifs with hamp hlt hgt hquot hapos
  · exact hamp ▸ iff_of_true (show XmlText "&amp;" by decide) (by decide)
  · exact hlt ▸ iff_of_true (show XmlText "&lt;" by decide) (by decide)
  · exact hgt ▸ iff_of_true (show XmlText "&gt;" by decide) (by decide)
  · exact hquot ▸ iff_of_true (show XmlText "&quot;" by decide) (by decide)
  · exact hapos ▸ iff_of_true (show XmlText "&apos;" by decide) (by decide)
  · exact List.forall_mem_singleton

/-- Escaping neither adds nor removes a character that XML forbids. -/
theorem escapeXml_iff {text : String} : XmlText (Render.escapeXml text) ↔ XmlText text := by
  unfold XmlText
  rw [toList_escapeXml, List.forall_mem_flatMap]
  exact forall₂_congr fun c _ => xmlChar_iff c

theorem of_isTokenChar {text : String} (h : ∀ c ∈ text.toList, isTokenChar c) : XmlText text := by
  intro c hc
  have hbounds := toNat_of_isTokenChar (h c hc)
  exact .inr (.inl ⟨by omega, by omega⟩)

end XmlText

theorem Scope.xmlText_name (scope : Scope) : XmlText scope.name := by
  cases scope <;> decide

/-! ## Versions in labels -/

/-- A key has what its version has. -/
theorem Coordinate.Valid.xmlText_fullKey_iff {c : Coordinate} (h : c.Valid) {version : String}
    {scope : Option Scope} : XmlText (c.fullKey version scope) ↔ XmlText version := by
  have hcolon : XmlText ":" := by decide
  have hgroup : XmlText c.group := .of_isTokenChar (isTokenChar_of_isGroup h.group)
  have hname : XmlText c.name := .of_isTokenChar (isTokenChar_of_isToken h.name)
  have htype : XmlText c.type := .of_isTokenChar (isTokenChar_of_isToken h.type)
  have hkey : XmlText c.artifactKey := by
    unfold artifactKey
    cases hclassifier : c.classifier with
    | none => simp [hgroup, hname, htype, hcolon]
    | some classifier =>
      have hclassifier : XmlText classifier :=
        .of_isTokenChar (isTokenChar_of_isToken (h.classifier classifier hclassifier))
      simp [hgroup, hname, htype, hclassifier, hcolon]
  unfold fullKey
  cases scope with
  | none => simp [hkey, hcolon]
  | some scope => simp [hkey, hcolon, scope.xmlText_name]

/-- The versions that the text of an omission writes. -/
def Omission.writtenVersions : Omission → List String
  | .versionConflict winner => [winner]
  | .cycle of => [of.version]
  | _ => []

theorem Omission.Valid.xmlText_text_iff {omission : Omission} (h : omission.Valid) :
    XmlText omission.text ↔ ∀ version ∈ omission.writtenVersions, XmlText version := by
  have hconflict : XmlText "omitted for conflict with " := by decide +kernel
  have hcycle : XmlText "omitted for introducing a cycle with " := by decide +kernel
  cases omission with
  | versionConflict winner =>
    have htext : XmlText ("omitted for conflict with " ++ winner) ↔ XmlText winner :=
      XmlText.append_iff.trans (and_iff_right hconflict)
    exact htext.trans List.forall_mem_singleton.symm
  | cycle of =>
    have hof : XmlText (of.fullKey of.version none) ↔ XmlText of.version :=
      Coordinate.Valid.xmlText_fullKey_iff h
    have htext : XmlText ("omitted for introducing a cycle with " ++ of.text) ↔ XmlText of.text :=
      XmlText.append_iff.trans (and_iff_right hcycle)
    exact (htext.trans hof).trans List.forall_mem_singleton.symm
  | scopeConflict winner =>
    have htext := XmlText.append_iff.2 ⟨hconflict, winner.xmlText_name⟩
    exact iff_of_true htext (List.forall_mem_nil _)
  | duplicate of =>
    have hduplicate : XmlText "omitted for duplicate" := by decide +kernel
    exact iff_of_true hduplicate (List.forall_mem_nil _)
  | optional => exact iff_of_true (by decide +kernel) (List.forall_mem_nil _)
  | malformed => exact iff_of_true (by decide +kernel) (List.forall_mem_nil _)

namespace Node

variable {n : Node}

/-- The versions that the notes of a node write: the declared one if another one is in force, and that of
the node's omission. -/
def notedVersions (n : Node) : List String :=
  (n.managedVersion.bind fun _ => n.coordinate.map (·.version)).toList ++
    n.omission.toList.flatMap Omission.writtenVersions

/-- The versions that the label of a node writes. -/
def writtenVersions (n : Node) : List String := n.effectiveVersion.toList ++ n.notedVersions

theorem mem_notes {note : String} :
    note ∈ n.notes ↔ n.versionNote = some note ∨ n.scopeNote = some note ∨
      n.omission.map (·.text) = some note := by
  simp [notes, eq_comm]

namespace Presentable

variable (h : n.Presentable)
include h

theorem xmlText_notesText_iff :
    XmlText n.notesText ↔ ∀ version ∈ n.notedVersions, XmlText version := by
  have hstart : XmlText "version managed from " ∧ XmlText "scope managed from " := by decide +kernel
  have hversion : (∀ note, n.versionNote = some note → XmlText note) ↔
      ∀ version, (n.managedVersion.bind fun _ => n.coordinate.map (·.version)) = some version →
        XmlText version := by
    unfold versionNote
    cases n.managedVersion <;> cases n.coordinate <;> simp [hstart.1]
  have hscope : ∀ note, n.scopeNote = some note → XmlText note := by
    unfold scopeNote
    cases n.managedScope <;> cases n.scope <;> simp [hstart.2, Scope.xmlText_name]
  have homission : (∀ note, n.omission.map (·.text) = some note → XmlText note) ↔
      ∀ version ∈ n.omission.toList.flatMap Omission.writtenVersions, XmlText version := by
    have hvalid := h.omission
    cases homission : n.omission with
    | none => simp
    | some omission => simpa using (hvalid omission homission).xmlText_text_iff
  have hsep : XmlText "; " := by decide +kernel
  simp only [notesText, XmlText.intercalate_iff hsep, notedVersions, List.forall_mem_append,
    Option.mem_toList, ← homission, mem_notes]
  rw [← hversion]
  constructor
  · exact fun hnotes => ⟨fun note hnote => hnotes note (.inl hnote),
      fun note hnote => hnotes note (.inr (.inr hnote))⟩
  · rintro ⟨hversion, homission⟩ note (hnote | hnote | hnote)
    · exact hversion note hnote
    · exact hscope note hnote
    · exact homission note hnote

/-- No notes, no versions in them. -/
theorem xmlText_noted_iff {text : String} :
    XmlText (if n.notes.isEmpty then text else text ++ " - " ++ n.notesText) ↔
      XmlText text ∧ ∀ version ∈ n.notedVersions, XmlText version := by
  have hdash : XmlText " - " := by decide +kernel
  have hempty : n.notes.isEmpty → XmlText n.notesText := by
    intro hnotes
    rw [notesText, List.isEmpty_iff.1 hnotes]
    exact List.forall_mem_nil _
  rw [← h.xmlText_notesText_iff]
  split
  · next hnotes => exact (and_iff_left (hempty hnotes)).symm
  · rw [XmlText.append_iff, XmlText.append_iff, and_iff_left hdash]

theorem xmlText_label_iff {c : Coordinate} (hc : n.coordinate = some c) :
    XmlText n.label ↔ ∀ version ∈ n.writtenVersions, XmlText version := by
  have hparens : XmlText "(" ∧ XmlText ")" := by decide +kernel
  have hmark : XmlText n.optionalMark := by
    unfold optionalMark
    split <;> decide +kernel
  have hversion := effectiveVersion_of_coordinate hc
  have hbase :
      XmlText (c.fullKey (n.managedVersion.getD c.version) n.effectiveScope ++ n.optionalMark) ↔
        XmlText (n.managedVersion.getD c.version) := by
    rw [XmlText.append_iff, and_iff_left hmark]
    exact (h.coordinate c hc).xmlText_fullKey_iff
  have hopen : ∀ text : String, XmlText (if n.isOmitted then "(" ++ text ++ ")" else text) ↔
      XmlText text := by
    intro text
    split
    · exact XmlText.framed_iff hparens.1 hparens.2
    · rfl
  rw [label, fullKey_of_coordinate hc hversion, writtenVersions, hversion, Option.toList_some,
    List.singleton_append, List.forall_mem_cons, ← hbase, ← h.xmlText_noted_iff]
  exact hopen _

theorem xmlText_edgeLabel_iff :
    XmlText n.edgeLabel ↔ ∀ version ∈ n.notedVersions, XmlText version := by
  unfold edgeLabel
  cases n.effectiveScope with
  | none => exact h.xmlText_notesText_iff
  | some scope => exact h.xmlText_noted_iff.trans (and_iff_right scope.xmlText_name)

end Presentable

end Node

/-! ## Texts of elements -/

namespace Graphml

/-- The five entities that XML knows without a declaration. -/
def entities : List String := ["&amp;", "&lt;", "&gt;", "&quot;", "&apos;"]

/-- What may stand between two tags: text, with markup in entities only. -/
structure ElementText (text : String) : Prop where
  lt_not_mem : '<' ∉ text.toList
  entity : ∀ before after, text.toList = before ++ '&' :: after →
    ∃ entity ∈ entities, entity.toList <+: '&' :: after

/-- A character is written as an entity, or as it is. -/
theorem xmlChar_cases (c : Char) :
    (∃ entity ∈ entities, Render.xmlChar c = entity.toList) ∨
      c ≠ '&' ∧ Render.xmlChar c = [c] := by
  unfold Render.xmlChar
  split_ifs with hamp hlt hgt hquot hapos
  · exact .inl ⟨"&amp;", by decide, rfl⟩
  · exact .inl ⟨"&lt;", by decide, rfl⟩
  · exact .inl ⟨"&gt;", by decide, rfl⟩
  · exact .inl ⟨"&quot;", by decide, rfl⟩
  · exact .inl ⟨"&apos;", by decide, rfl⟩
  · exact .inr ⟨hamp, rfl⟩

/-- An ampersand in what is written for a character is the start of an entity. -/
theorem entity_of_xmlChar {c : Char} {before after : List Char}
    (h : Render.xmlChar c = before ++ '&' :: after) :
    ∃ entity ∈ entities, entity.toList = '&' :: after := by
  have hstart : ∀ entity ∈ entities, '&' ∉ entity.toList.tail := by decide
  rcases xmlChar_cases c with ⟨entity, hentity, hwritten⟩ | ⟨hne, hwritten⟩
  · rw [hwritten] at h
    cases before with
    | nil => exact ⟨entity, hentity, h⟩
    | cons first before =>
      refine absurd ?_ (hstart entity hentity)
      rw [h, List.cons_append, List.tail_cons]
      exact List.mem_append_right _ List.mem_cons_self
  · rw [hwritten] at h
    have hmem : '&' ∈ [c] := h ▸ List.mem_append_right _ List.mem_cons_self
    exact absurd (List.mem_singleton.1 hmem).symm hne

theorem elementText_escapeXml (text : String) : ElementText (Render.escapeXml text) where
  lt_not_mem := lt_not_mem_escapeXml text
  entity := by
    rw [toList_escapeXml]
    induction text.toList with
    | nil => simp
    | cons c text ih =>
      intro before after h
      rw [List.flatMap_cons] at h
      rcases List.append_eq_append_iff.1 h with ⟨more, rfl, hrest⟩ | ⟨more, hc, hafter⟩
      · exact ih more after hrest
      · cases more with
        | nil => exact ih [] after hafter.symm
        | cons first more =>
          obtain ⟨rfl, rfl⟩ := List.cons.inj hafter
          obtain ⟨entity, hentity, hwritten⟩ := entity_of_xmlChar hc
          exact ⟨entity, hentity, hwritten ▸ List.prefix_append _ _⟩

/-! ## Elements -/

/-- An element of the document, with the names and the text in it as they are written. -/
inductive Element where
  | node (name text : String)
  | edge (source target text : String)

namespace Element

def written : Element → String
  | node name text =>
    "    <node id=\"" ++ name ++ "\"><data key=\"d0\"><y:ShapeNode><y:NodeLabel>" ++ text ++
      "</y:NodeLabel></y:ShapeNode></data></node>\n"
  | edge source target text =>
    "    <edge source=\"" ++ source ++ "\" target=\"" ++ target ++
      "\"><data key=\"d1\"><y:PolyLineEdge><y:EdgeLabel>" ++ text ++
      "</y:EdgeLabel></y:PolyLineEdge></data></edge>\n"

def text : Element → String
  | node _ text => text
  | edge _ _ text => text

/-- The name that the element gives to a node. -/
def name? : Element → Option String
  | node name _ => some name
  | edge _ _ _ => none

/-- The element that is written for an event of the walk. -/
def of? (g : Graph) : Event → Option Element
  | .node visit =>
    some (.node (Render.graphmlId visit.id) (Render.escapeXml (g.node visit.id).label))
  | .edge parent child =>
    some (.edge (Render.graphmlId parent) (Render.graphmlId child)
      (Render.escapeXml (g.node child).edgeLabel))
  | .leave _ => none

theorem filterMap_name? (g : Graph) (events : List Event) :
    (events.filterMap (of? g)).filterMap name? = (shownBy events).map Render.graphmlId := by
  rw [List.filterMap_filterMap, shownBy, List.map_filterMap]
  refine List.filterMap_congr fun event _ => ?_
  cases event <;> rfl

end Element

theorem graphml_eq_elements (g : Graph) :
    Render.graphml g = Render.graphmlHeader ++
      String.join ((g.walk.filterMap (Element.of? g)).map Element.written) ++ Render.graphmlFooter := by
  rw [Render.graphml, List.map_filterMap]
  refine congrArg (Render.graphmlHeader ++ String.join · ++ Render.graphmlFooter)
    (List.filterMap_congr fun event _ => ?_)
  cases event <;> rfl

end Graphml

theorem Graph.mem_shownBy_cons {event : Event} {events : List Event} {id : Nat} :
    id ∈ shownBy (event :: events) ↔ shownId? event = some id ∨ id ∈ shownBy events := by
  cases h : shownId? event <;> simp [shownBy, h, eq_comm]

/-- What comes before an event in the middle starts with the first event, unless that is the one. -/
theorem Graph.exists_before_of_ne {first event : Event} {events before after : List Event}
    (hne : first ≠ event) (h : first :: events = before ++ event :: after) :
    ∃ rest, before = first :: rest ∧ events = rest ++ event :: after := by
  rcases List.cons_eq_append_iff.1 h with ⟨-, hfirst⟩ | hrest
  · exact absurd (List.cons.inj hfirst).1.symm hne
  · exact hrest

/-- An edge comes after both nodes that it joins: the one that it leads to is the node right before it, and
the one that it comes from is open. -/
theorem Graph.Nests.reached_of_edge {g : Graph} {opened : List Nat} {events : List Event}
    (h : g.Nests opened events) {before after : List Event} {parent child : Nat}
    (hevents : events = before ++ .edge parent child :: after) :
    (parent ∈ opened ∨ parent ∈ shownBy before) ∧ child ∈ shownBy before := by
  induction h generalizing before with
  | done => simp at hevents
  | root hroot rest ih =>
    obtain ⟨before, rfl, hrest⟩ := exists_before_of_ne (by simp) hevents
    obtain ⟨hparent, hchild⟩ := ih hrest
    simp only [mem_shownBy_cons, shownId?, Option.some.injEq]
    exact ⟨.inr (hparent.imp_left fun hmem => (List.mem_singleton.1 hmem).symm), .inr hchild⟩
  | child habove rest ih =>
    obtain ⟨before, rfl, hrest⟩ := exists_before_of_ne (by simp) hevents
    simp only [mem_shownBy_cons, shownId?, Option.some.injEq]
    rcases List.cons_eq_append_iff.1 hrest with ⟨rfl, hedge⟩ | ⟨before, rfl, hbehind⟩
    · obtain ⟨rfl, rfl⟩ := Event.edge.inj (List.cons.inj hedge).1
      exact ⟨.inl List.mem_cons_self, .inl rfl⟩
    · obtain ⟨hparent, hchild⟩ := ih hbehind
      simp only [mem_shownBy_cons, shownId?, reduceCtorEq, false_or]
      refine ⟨?_, .inr hchild⟩
      rcases hparent with hparent | hparent
      · rcases List.mem_cons.1 hparent with rfl | hopen
        · exact .inr (.inl rfl)
        · exact .inl hopen
      · exact .inr (.inr hparent)
  | leave rest ih =>
    obtain ⟨before, rfl, hrest⟩ := exists_before_of_ne (by simp) hevents
    obtain ⟨hparent, hchild⟩ := ih hrest
    simp only [mem_shownBy_cons, shownId?, reduceCtorEq, false_or]
    exact ⟨hparent.imp_left (List.mem_cons_of_mem _), hchild⟩

namespace Graphml

/-! ## The document -/

/-- What the document of a graph is made of. -/
structure Document (g : Graph) (elements : List Element) (output : String) : Prop where
  written : output =
    Render.graphmlHeader ++ String.join (elements.map Element.written) ++ Render.graphmlFooter
  /-- Only versions may bring in characters that XML forbids. -/
  characters : XmlText output ↔
    ∀ id ∈ shownBy g.walk, ∀ version ∈ (g.node id).writtenVersions, XmlText version
  text : ∀ element ∈ elements, ElementText element.text
  /-- The label of every node that is shown is the text of its element. -/
  label : ∀ id ∈ shownBy g.walk, ∃ text, .node (Render.graphmlId id) text ∈ elements ∧
    unescapeXml text.toList = (g.node id).label.toList
  edgeLabel : ∀ parent child, .edge parent child ∈ g.walk →
    ∃ text, .edge (Render.graphmlId parent) (Render.graphmlId child) text ∈ elements ∧
      unescapeXml text.toList = (g.node child).edgeLabel.toList
  /-- The names are those of the nodes that are shown, and they need no escaping. -/
  names : elements.filterMap Element.name? = (shownBy g.walk).map Render.graphmlId
  isAlphanum : ∀ name ∈ elements.filterMap Element.name?, ∀ c ∈ name.toList, c.isAlphanum
  nodup : (elements.filterMap Element.name?).Nodup
  /-- Both ends of an edge are named by elements before it. -/
  ends : ∀ before source target text after, elements = before ++ .edge source target text :: after →
    source ∈ before.filterMap Element.name? ∧ target ∈ before.filterMap Element.name?

theorem isAlphanum_graphmlId (id : Nat) : ∀ c ∈ (Render.graphmlId id).toList, c.isAlphanum := by
  intro c hc
  rw [Render.graphmlId, String.toList_append, List.mem_append, toList_toString] at hc
  rcases hc with hc | hc
  · obtain rfl : c = 'n' := List.mem_singleton.1 hc
    decide
  · have hdigit := Nat.isDigit_of_mem_toDigits (by decide) (by decide) hc
    simp [Char.isAlphanum, hdigit]

theorem xmlText_graphmlId (id : Nat) : XmlText (Render.graphmlId id) :=
  .of_isTokenChar fun c hc => by simp [isTokenChar, isSegmentChar, isAlphanum_graphmlId id c hc]

namespace Element

/-- The frame of an element has nothing that XML forbids. -/
theorem xmlText_written_of? {g : Graph} {event : Event} {element : Element}
    (h : of? g event = some element) : XmlText element.written ↔ XmlText element.text := by
  have hnode : XmlText "    <node id=\"" ∧
      XmlText "\"><data key=\"d0\"><y:ShapeNode><y:NodeLabel>" ∧
      XmlText "</y:NodeLabel></y:ShapeNode></data></node>\n" := by decide +kernel
  have hedge : XmlText "    <edge source=\"" ∧ XmlText "\" target=\"" ∧
      XmlText "\"><data key=\"d1\"><y:PolyLineEdge><y:EdgeLabel>" ∧
      XmlText "</y:EdgeLabel></y:PolyLineEdge></data></edge>\n" := by decide +kernel
  cases event with
  | node visit =>
    obtain ⟨hstart, hopen, hclose⟩ := hnode
    obtain rfl := Option.some.inj h
    have hid := xmlText_graphmlId visit.id
    exact XmlText.framed_iff ((hstart.append hid).append hopen) hclose
  | edge parent child =>
    obtain ⟨hstart, htarget, hopen, hclose⟩ := hedge
    obtain rfl := Option.some.inj h
    have hparent := xmlText_graphmlId parent
    have hchild := xmlText_graphmlId child
    exact XmlText.framed_iff ((((hstart.append hparent).append htarget).append hchild).append hopen)
      hclose
  | leave id => cases h

end Element

theorem xmlText_header : XmlText Render.graphmlHeader := by
  unfold Render.graphmlHeader
  simp only [XmlText.append_iff]
  decide +kernel

theorem xmlText_footer : XmlText Render.graphmlFooter := by decide +kernel

theorem edge_ends {g : Graph} (hg : g.WellLinked) {before after : List Element}
    {source target text : String}
    (h : g.walk.filterMap (Element.of? g) = before ++ .edge source target text :: after) :
    source ∈ before.filterMap Element.name? ∧ target ∈ before.filterMap Element.name? := by
  obtain ⟨told, rest, hwalk, rfl, hrest⟩ := List.filterMap_eq_append_iff.1 h
  obtain ⟨left, event, later, rfl, hleft, hevent, -⟩ := List.filterMap_eq_cons_iff.1 hrest
  rw [← List.append_assoc] at hwalk
  have hnone : left.filterMap (Element.of? g) = [] := List.filterMap_eq_nil_iff.2 hleft
  have hnames : (told.filterMap (Element.of? g)).filterMap Element.name? =
      (shownBy (told ++ left)).map Render.graphmlId := by
    rw [← Element.filterMap_name? g, List.filterMap_append, hnone, List.append_nil]
  cases event with
  | node visit => cases hevent
  | leave id => cases hevent
  | edge parent child =>
    obtain ⟨rfl, rfl, rfl⟩ := Element.edge.inj (Option.some.inj hevent)
    obtain ⟨hparent, hchild⟩ := (walksTree_of_wellLinked hg).nests.reached_of_edge hwalk
    rw [hnames]
    exact ⟨List.mem_map_of_mem (hparent.resolve_left List.not_mem_nil), List.mem_map_of_mem hchild⟩

theorem xmlText_graphml_iff {g : Graph} (hg : g.WellLinked)
    (hpresentable : ∀ id, (g.node id).Presentable)
    (hcoordinate : ∀ id < g.size, (g.node id).coordinate.isSome) :
    XmlText (Render.graphml g) ↔
      ∀ id ∈ shownBy g.walk, ∀ version ∈ (g.node id).writtenVersions, XmlText version := by
  have hlabel : ∀ id ∈ shownBy g.walk, XmlText (Render.escapeXml (g.node id).label) ↔
      ∀ version ∈ (g.node id).writtenVersions, XmlText version := by
    intro id hid
    obtain ⟨c, hc⟩ := Option.isSome_iff_exists.1 (hcoordinate id (hg.lt_of_mem_shownBy hid))
    rw [XmlText.escapeXml_iff, (hpresentable id).xmlText_label_iff hc]
  rw [graphml_eq_elements, XmlText.framed_iff xmlText_header xmlText_footer, XmlText.join_iff,
    List.forall_mem_map]
  constructor
  · intro h id hid
    obtain ⟨visit, hvisit, rfl⟩ := mem_shownBy.1 hid
    have hof : Element.of? g (.node visit) = some _ := rfl
    have helement := h _ (List.mem_filterMap.2 ⟨_, hvisit, hof⟩)
    exact (hlabel _ hid).1 ((Element.xmlText_written_of? hof).1 helement)
  · intro h element helement
    obtain ⟨event, hevent, hof⟩ := List.mem_filterMap.1 helement
    rw [Element.xmlText_written_of? hof]
    cases event with
    | node visit =>
      have hid := mem_shownBy.2 ⟨visit, hevent, rfl⟩
      exact Option.some.inj hof ▸ (hlabel _ hid).2 (h _ hid)
    | edge parent child =>
      -- an edge has no version that the node it leads to does not have
      have hnoted : XmlText (g.node child).edgeLabel :=
        (hpresentable child).xmlText_edgeLabel_iff.2 fun version hversion =>
          h child (mem_shownBy_of_edge hevent).2 version (List.mem_append_right _ hversion)
      exact Option.some.inj hof ▸ XmlText.escapeXml_iff.2 hnoted
    | leave id => cases hof

theorem document_graphml {g : Graph} (hg : g.WellLinked)
    (hpresentable : ∀ id, (g.node id).Presentable)
    (hcoordinate : ∀ id < g.size, (g.node id).coordinate.isSome) :
    Document g (g.walk.filterMap (Element.of? g)) (Render.graphml g) where
  written := graphml_eq_elements g
  characters := xmlText_graphml_iff hg hpresentable hcoordinate
  text := by
    intro element helement
    obtain ⟨event, -, hevent⟩ := List.mem_filterMap.1 helement
    cases event with
    | node visit => exact Option.some.inj hevent ▸ elementText_escapeXml _
    | edge parent child => exact Option.some.inj hevent ▸ elementText_escapeXml _
    | leave id => cases hevent
  label id hid := by
    obtain ⟨visit, hvisit, rfl⟩ := mem_shownBy.1 hid
    refine ⟨_, List.mem_filterMap.2 ⟨_, hvisit, rfl⟩, ?_⟩
    rw [toList_escapeXml, unescapeXml_flatMap]
  edgeLabel parent child h := by
    refine ⟨_, List.mem_filterMap.2 ⟨_, h, rfl⟩, ?_⟩
    rw [toList_escapeXml, unescapeXml_flatMap]
  names := Element.filterMap_name? g g.walk
  isAlphanum name hname := by
    rw [Element.filterMap_name?] at hname
    obtain ⟨id, -, rfl⟩ := List.mem_map.1 hname
    exact isAlphanum_graphmlId id
  nodup := by
    rw [Element.filterMap_name?]
    exact hg.nodup_shownBy.map graphmlId_injective
  ends _ _ _ _ _ h := edge_ends hg h

section Analyze

variable {m : Type → Type} {σ : Type} [Monad m] [Execution m σ] {project : Project}
  {collector : Collector m} {limit : Nat} {s : σ} {analysis : Analysis}
  (h : (exec (project.analyze collector limit).run s).1 = .ok analysis)
  (hvalid : ∀ id, (analysis.graph.node id).Valid)
include h

theorem isSome_coordinate_of_analyze {id : Nat} (hid : id < analysis.graph.size) :
    (analysis.graph.node id).coordinate.isSome := by
  obtain ⟨trace, houtcome⟩ := exists_outcome_of_analyze h
  obtain ⟨c, hc⟩ := houtcome.unfolding.coordinate hid
  exact Option.isSome_of_mem hc

include hvalid

/-- The versions that are shown decide whether XML allows all characters of the document. -/
theorem xmlText_render_iff : XmlText (analysis.graph.render .graphml) ↔
    ∀ id ∈ shownBy analysis.graph.walk, ∀ version ∈ (analysis.graph.node id).writtenVersions,
      XmlText version :=
  xmlText_graphml_iff (mediated_of_analyze h).toWellLinked (presentable_of_analyze h hvalid)
    fun _ => isSome_coordinate_of_analyze h

/-- **GraphML is well formed but for the characters in versions**, for every analysis whose coordinates and
managed versions are valid. -/
theorem exists_document_of_analyze :
    ∃ elements, Document analysis.graph elements (analysis.graph.render .graphml) :=
  ⟨_, document_graphml (mediated_of_analyze h).toWellLinked (presentable_of_analyze h hvalid)
    fun _ => isSome_coordinate_of_analyze h⟩

end Analyze

end Graphml

/-- All that is markup in the versions of `markupRequests` is escaped, and nothing in them is forbidden. -/
theorem document_markupRequests :
    ∃ analysis, (exec (markupRequests.analyze (.ofFunction markupAnswer : Collector Id) 4).run ()).1 =
        .ok analysis ∧
      (∀ id, (analysis.graph.node id).Valid) ∧
      (∃ elements, Graphml.Document analysis.graph elements (analysis.graph.render .graphml)) ∧
      XmlText (analysis.graph.render .graphml) := by
  have h : (exec (markupRequests.analyze (.ofFunction markupAnswer : Collector Id) 4).run ()).1 =
      .ok _ := rfl
  refine ⟨_, h, ?valid, Graphml.exists_document_of_analyze h ?valid,
    (Graphml.xmlText_render_iff h ?valid).2 ?characters⟩
  case valid => exact Graph.valid_node (by decide +kernel)
  case characters => decide +kernel

/-- A project whose version has a control character, which is not blank. -/
def controlVersion : Project where
  coordinate := ⟨"org", "app", "jar", "1\x01", none⟩
  dependencies := []

/-- Valid versions may have characters that XML forbids, and the document has them then. -/
theorem not_xmlText_controlVersion :
    ∃ analysis, (exec (controlVersion.analyze (.ofFunction fun _ => .ok [] : Collector Id) 1).run ()).1 =
        .ok analysis ∧
      (∀ id, (analysis.graph.node id).Valid) ∧
      ¬ XmlText (analysis.graph.render .graphml) := by
  have h : (exec (controlVersion.analyze (.ofFunction fun _ => .ok [] : Collector Id) 1).run ()).1 =
      .ok _ := rfl
  refine ⟨_, h, ?valid, mt (Graphml.xmlText_render_iff h ?valid).1 ?characters⟩
  case valid => exact Graph.valid_node (by decide +kernel)
  case characters => decide +kernel

end ArtifactTree
