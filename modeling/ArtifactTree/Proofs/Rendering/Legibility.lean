import ArtifactTree.Proofs.Rendering.Labels

/-!
# Labels read back

A version may have any character but blanks and colons, so semicolons, dashes and parentheses in a label
say nothing about where a part of it ends. Blanks do: the key has none, and neither has what stands in a
note behind its fixed words. What is read from left to right is the key up to the first blank, the mark,
and then one note after the other, each known by its first words. A value with a note behind it has a
semicolon at its end that is not its own. The parentheses are known by the first of them, since no group
starts with one.

Main statement: `Node.label_eq_iff`.
-/

namespace ArtifactTree

open Validation

/-! ## Reading -/

namespace Label

/-- The value of the first note, if that note starts as asked for, and the text of the notes behind. -/
def readNote (start : String) (notes : List Char) : Option String × List Char :=
  match notes.dropPrefix? start.toList with
  | none => (none, notes)
  | some text =>
    match Text.cut ' ' text with
    | (value, []) => (some (.ofList value), [])
    | (value, later) => (some (.ofList value.dropLast), later)

/-- Whether the mark of an optional node stands at the start of a text, and the text behind it. -/
def readMark (text : List Char) : Bool × List Char :=
  match text.dropPrefix? " (optional)".toList with
  | some text => (true, text)
  | none => (false, text)

/-- What a label says. -/
structure Reading where
  key : String
  marked : Bool
  versionFrom : Option String
  scopeFrom : Option String
  omission : Option String
deriving DecidableEq

/-- Reads what stands inside the parentheses, if there are any. -/
def readBody (omitted : Bool) (text : List Char) : Reading :=
  let (marked, text') := readMark (text.dropWhile (· ≠ ' '))
  let (versionFrom, notes) := readNote "version managed from " (text'.drop " - ".length)
  let (scopeFrom, notes) := readNote "scope managed from " notes
  { key := .ofList (text.takeWhile (· ≠ ' '))
    marked
    versionFrom
    scopeFrom
    omission := if omitted then some (.ofList notes) else none }

def read (label : String) : Reading :=
  match label.toList with
  | '(' :: text => readBody true text.dropLast
  | text => readBody false text

theorem read_parenthesized (text : String) :
    read ("(" ++ text ++ ")") = readBody true text.toList := by
  have htext : ("(" ++ text ++ ")").toList = '(' :: (text.toList ++ [')']) := by
    simp [String.toList_append]
  rw [read, htext]
  exact congrArg (readBody true) List.dropLast_concat

theorem read_of_cons {label : String} {first : Char} {rest : List Char}
    (hlabel : label.toList = first :: rest) (hfirst : first ≠ '(') :
    read label = readBody false label.toList := by
  rw [read, hlabel]
  split
  · next heq => exact absurd (List.cons.inj heq).1 hfirst
  · rfl

/-! ## Notes -/

theorem readNote_append {start value : String} (hvalue : NoBlank value) :
    readNote start (start ++ value).toList = (some value, []) := by
  have hcut : Text.cut ' ' value.toList = (value.toList, []) :=
    Text.cut_of_not_mem hvalue.space_not_mem
  rw [readNote, String.toList_append, List.dropPrefix?_append_of_beq _ (beq_self_eq_true _)]
  dsimp only
  rw [hcut]
  dsimp only
  rw [String.ofList_toList]

/-- The semicolon in front of the next note is not part of the value. -/
theorem readNote_append_later {start value : String} {later : List Char} (hvalue : NoBlank value)
    (hlater : later ≠ []) :
    readNote start ((start ++ value).toList ++ "; ".toList ++ later) = (some value, later) := by
  have hsplit : (start ++ value).toList ++ "; ".toList ++ later =
      start.toList ++ ((value.toList ++ [';']) ++ ' ' :: later) := by
    simp [String.toList_append]
  have hblank : ' ' ∉ value.toList ++ [';'] := by
    rw [List.mem_append, not_or]
    exact ⟨hvalue.space_not_mem, by decide⟩
  rw [readNote, hsplit, List.dropPrefix?_append_of_beq _ (beq_self_eq_true _)]
  dsimp only
  rw [Text.cut_append hblank]
  cases later with
  | nil => exact absurd rfl hlater
  | cons c later =>
    dsimp only
    rw [List.dropLast_concat, String.ofList_toList]

/-- Other notes are left as they are. -/
theorem readNote_eq_none {start : String} {first : Char} {more notes : List Char}
    (hstart : start.toList = first :: more) (h : notes.head? ≠ some first) :
    readNote start notes = (none, notes) := by
  have hnone : notes.dropPrefix? start.toList = none := by
    rw [Option.eq_none_iff_forall_ne_some]
    intro rest hrest
    obtain ⟨start', hnotes, heq⟩ := List.dropPrefix?_eq_some_iff.1 hrest
    rw [eq_of_beq heq, hstart] at hnotes
    exact h (hnotes ▸ rfl)
  rw [readNote, hnone]

/-- A note that starts as asked for is read, if there is one, and leaves those that start otherwise. -/
theorem readNote_intercalate {start : String} {first : Char} {more : List Char}
    (hstart : start.toList = first :: more) {value : Option String}
    (hvalue : ∀ text ∈ value, NoBlank text) {later : List String}
    (hlater : ∀ note ∈ later, ∃ other more, note.toList = other :: more ∧ other ≠ first) :
    readNote start (String.intercalate "; " ((value.map (start ++ ·)).toList ++ later)).toList =
      (value, (String.intercalate "; " later).toList) := by
  cases later with
  | nil =>
    cases value with
    | none => exact readNote_eq_none hstart nofun
    | some value => exact readNote_append (hvalue value rfl)
  | cons note later =>
    obtain ⟨other, more', hnote, hne⟩ := hlater note List.mem_cons_self
    have hhead : ∃ rest, (String.intercalate "; " (note :: later)).toList = other :: rest := by
      cases later with
      | nil => exact ⟨more', hnote⟩
      | cons next later =>
        rw [String.intercalate_cons_of_ne_nil (List.cons_ne_nil _ _), String.append_assoc,
          String.toList_append, hnote]
        exact ⟨_, rfl⟩
    obtain ⟨rest, hhead⟩ := hhead
    cases value with
    | none =>
      refine readNote_eq_none hstart ?_
      rw [Option.map_none, Option.toList_none, List.nil_append, hhead]
      exact fun heq => hne (Option.some.inj heq)
    | some value =>
      rw [Option.map_some, Option.toList_some, List.singleton_append,
        String.intercalate_cons_of_ne_nil (List.cons_ne_nil _ _), String.toList_append,
        String.toList_append]
      exact readNote_append_later (hvalue value rfl) (hhead ▸ List.cons_ne_nil _ _)

/-! ## What stands in front of the notes -/

theorem readMark_append {marked : Bool} {rest : List Char}
    (h : rest = [] ∨ ∃ more, rest = ' ' :: '-' :: more) :
    readMark ((if marked then " (optional)" else "").toList ++ rest) = (marked, rest) := by
  cases marked with
  | true => rw [readMark, if_pos rfl, List.dropPrefix?_append_of_beq _ (beq_self_eq_true _)]
  | false =>
    have hnone : rest.dropPrefix? " (optional)".toList = none := by
      rcases h with rfl | ⟨more, rfl⟩
      · rfl
      · exact Text.dropPrefix?_eq_none (by decide : ¬ " -".toList <+: " (optional)".toList ∧ _) more
    rw [if_neg Bool.false_ne_true, String.toList_empty, List.nil_append, readMark, hnone]

end Label

/-! ## Legible nodes -/

theorem Omission.exists_text_eq (omission : Omission) :
    ∃ more, omission.text.toList = 'o' :: more := by
  cases omission with
  | duplicate of =>
    have htext : "omitted for duplicate".toList = 'o' :: "mitted for duplicate".toList := by decide
    exact ⟨_, htext⟩
  | optional => exact ⟨"mitted due to optional dependency".toList, rfl⟩
  | malformed => exact ⟨"mitted for malformed node".toList, rfl⟩
  | scopeConflict winner => exact ⟨_, String.toList_append⟩
  | versionConflict winner => exact ⟨_, String.toList_append⟩
  | cycle of => exact ⟨_, String.toList_append⟩

namespace Node

/-- What the label of a node with a coordinate should say. -/
def reading (n : Node) : Option Label.Reading :=
  n.fullKey.map fun key =>
    { key
      marked := n.optional && n.omission != some .optional
      versionFrom := n.versionFrom
      scopeFrom := n.scopeFrom.map Scope.name
      omission := n.omission.map (·.text) }

/-- A node with a scope, and with names that manifests may write. Versions need not be valid, only plain,
and may be empty. -/
structure Legible (n : Node) : Prop where
  coordinate : ∃ c ∈ n.coordinate, c.Named ∧ Plain c.version
  scope : n.scope.isSome
  managedVersion : ∀ version ∈ n.managedVersion, Plain version

/-- What the labels of two nodes tell apart. -/
structure ReadsAs (n n' : Node) : Prop where
  artifact : n.coordinate.map (·.artifact) = n'.coordinate.map (·.artifact)
  version : n.effectiveVersion = n'.effectiveVersion
  scope : n.effectiveScope = n'.effectiveScope
  mark : n.optionalMark = n'.optionalMark
  omission : n.omission.map (·.text) = n'.omission.map (·.text)
  versionFrom : n.versionFrom = n'.versionFrom
  scopeFrom : n.scopeFrom = n'.scopeFrom

variable {n n' : Node}

theorem drop_notesPart (n : Node) : n.notesPart.toList.drop " - ".length = n.notesText.toList := by
  unfold notesPart
  split
  · next hempty =>
    rw [notesText, List.isEmpty_iff.1 hempty]
    rfl
  · rw [String.toList_append]
    exact List.drop_left

namespace Legible

variable (h : n.Legible)
include h

theorem exists_key : ∃ c version scope, n.coordinate = some c ∧ c.Named ∧ ColonFree c.version ∧
    n.effectiveVersion = some version ∧ Plain version ∧ n.effectiveScope = some scope := by
  obtain ⟨c, hc, hnamed, hversion⟩ := h.coordinate
  obtain ⟨scope, hscope⟩ := Option.isSome_iff_exists.1 h.scope
  have hplain : Plain (n.managedVersion.getD c.version) := by
    cases hmanaged : n.managedVersion with
    | none => exact hversion
    | some version => exact h.managedVersion version hmanaged
  obtain ⟨effective, heffective⟩ := exists_effectiveScope_of_scope hscope
  exact ⟨c, _, effective, hc, hnamed, hversion.colonFree, effectiveVersion_of_coordinate hc, hplain,
    heffective⟩

theorem noBlank_of_versionFrom : ∀ version ∈ n.versionFrom, NoBlank version := by
  intro version hversion
  obtain ⟨-, -, hversion⟩ := Option.bind_eq_some_iff.1 hversion
  obtain ⟨c, hc, rfl⟩ := Option.map_eq_some_iff.1 hversion
  obtain ⟨c', hc', -, hplain⟩ := h.coordinate
  obtain rfl := Option.some.inj (hc.symm.trans hc')
  exact hplain.noBlank

/-- The notes are read one after the other, and the text of the omission is left. -/
theorem readNote_notesText :
    ∃ rest, Label.readNote "version managed from " n.notesText.toList = (n.versionFrom, rest) ∧
      Label.readNote "scope managed from " rest =
        (n.scopeFrom.map Scope.name,
          (String.intercalate "; " (n.omission.map (·.text)).toList).toList) := by
  have hscope : ∀ name ∈ n.scopeFrom.map Scope.name, NoBlank name := by
    intro name hname
    obtain ⟨scope, -, rfl⟩ := Option.map_eq_some_iff.1 hname
    exact scope.noBlank_name
  have homission : ∀ note ∈ (n.omission.map (·.text)).toList, ∃ more, note.toList = 'o' :: more := by
    intro note hnote
    obtain ⟨omission, -, rfl⟩ := Option.map_eq_some_iff.1 (Option.mem_toList.1 hnote)
    exact omission.exists_text_eq
  have hlater : ∀ note ∈ ((n.scopeFrom.map Scope.name).map ("scope managed from " ++ ·)).toList ++
      (n.omission.map (·.text)).toList, ∃ other more, note.toList = other :: more ∧ other ≠ 'v' := by
    intro note hnote
    rcases List.mem_append.1 hnote with hnote | hnote
    · obtain ⟨name, -, rfl⟩ := Option.map_eq_some_iff.1 (Option.mem_toList.1 hnote)
      exact ⟨'s', _, String.toList_append, by decide⟩
    · obtain ⟨more, hnote⟩ := homission note hnote
      exact ⟨'o', more, hnote, by decide⟩
  refine ⟨_, n.notesText_eq ▸ Label.readNote_intercalate rfl h.noBlank_of_versionFrom hlater, ?_⟩
  refine Label.readNote_intercalate rfl hscope fun note hnote => ?_
  obtain ⟨more, hnote⟩ := homission note hnote
  exact ⟨'o', more, hnote, by decide⟩

theorem readBody_eq {key : String} (hkey : n.fullKey = some key) (hblank : NoBlank key) :
    n.reading = some (Label.readBody n.isOmitted (key ++ n.optionalMark ++ n.notesPart).toList) := by
  obtain ⟨htake, hdrop⟩ := Text.span_word hblank.space_not_mem n.tail_cases
  have hmark : Label.readMark (n.optionalMark ++ n.notesPart).toList =
      (n.optional && n.omission != some .optional, n.notesPart.toList) := by
    rw [String.toList_append, optionalMark_eq]
    exact Label.readMark_append n.notesPart_cases
  obtain ⟨rest, hversion, hscope⟩ := h.readNote_notesText
  have homission : (if n.isOmitted then
      some (String.ofList (String.intercalate "; " (n.omission.map (·.text)).toList).toList)
      else none) = n.omission.map (·.text) := by
    rw [isOmitted, String.ofList_toList]
    cases n.omission with
    | none => rfl
    | some omission => exact congrArg some String.intercalate_singleton
  rw [reading, hkey, Option.map_some, Label.readBody, String.append_assoc, String.toList_append,
    hdrop, htake, hmark]
  dsimp only
  rw [drop_notesPart, hversion]
  dsimp only
  rw [hscope]
  dsimp only
  rw [homission, String.ofList_toList]

/-- What a label says is read back from it. -/
theorem reading_eq : n.reading = some (Label.read n.label) := by
  obtain ⟨c, version, scope, hc, hnamed, -, hversion, hplain, -⟩ := h.exists_key
  have hkey := fullKey_of_coordinate hc hversion
  have hblank := hnamed.noBlank_fullKey hplain.noBlank n.effectiveScope
  rw [h.readBody_eq hkey hblank, label_eq_of_fullKey hkey]
  split
  · next homitted => rw [homitted, Label.read_parenthesized]
  · next homitted =>
    obtain ⟨first, rest, hstart, hfirst⟩ := hnamed.exists_cons_fullKey version n.effectiveScope
    have hne : first ≠ '(' := by
      rintro rfl
      exact absurd hfirst (by decide)
    rw [Bool.eq_false_of_not_eq_true homitted, String.append_assoc,
      Label.read_of_cons (String.toList_append.trans (congrArg (· ++ _) hstart)) hne]

end Legible

namespace ReadsAs

theorem notes_eq (h : n.ReadsAs n') : n.notes = n'.notes := by
  rw [Node.notes_eq, Node.notes_eq, versionNote_eq, versionNote_eq, scopeNote_eq, scopeNote_eq,
    h.versionFrom, h.scopeFrom, h.omission]

theorem isOmitted_eq (h : n.ReadsAs n') : n.isOmitted = n'.isOmitted := by
  have htext : ∀ omission : Option Omission, omission.isSome = (omission.map (·.text)).isSome :=
    fun _ => Option.isSome_map.symm
  rw [isOmitted, isOmitted, htext, htext, h.omission]

end ReadsAs

/-- Labels tell apart all that they name, and nothing else. -/
theorem label_eq_iff (h : n.Legible) (h' : n'.Legible) : n.label = n'.label ↔ n.ReadsAs n' := by
  obtain ⟨c, version, scope, hc, hnamed, hfree, hversion, hplain, hscope⟩ := h.exists_key
  obtain ⟨c', version', scope', hc', hnamed', hfree', hversion', hplain', hscope'⟩ := h'.exists_key
  have hkey : n.fullKey = some (c.fullKey version (some scope)) :=
    hscope ▸ fullKey_of_coordinate hc hversion
  have hkey' : n'.fullKey = some (c'.fullKey version' (some scope')) :=
    hscope' ▸ fullKey_of_coordinate hc' hversion'
  have hsame : c.fullKey version (some scope) = c'.fullKey version' (some scope') ↔
      c.artifact = c'.artifact ∧ version = version' ∧ scope = scope' :=
    Coordinate.fullKey_some_eq_iff (hnamed.partsColonFree hfree) (hnamed'.partsColonFree hfree')
      hplain.colonFree hplain'.colonFree
  constructor
  · intro hlabel
    have hreading : n.reading = n'.reading := by rw [h.reading_eq, h'.reading_eq, hlabel]
    rw [reading, reading, hkey, hkey', Option.map_some, Option.map_some, Option.some.injEq,
      Label.Reading.mk.injEq, hsame] at hreading
    obtain ⟨⟨hartifact, rfl, rfl⟩, hmarked, hfrom, hscopeFrom, homission⟩ := hreading
    exact {
      artifact := by rw [hc, hc', Option.map_some, Option.map_some, hartifact]
      version := by rw [hversion, hversion']
      scope := by rw [hscope, hscope']
      mark := by rw [optionalMark, optionalMark, hmarked]
      omission := homission
      versionFrom := hfrom
      scopeFrom := Option.map_injective (fun _ _ => Scope.name_injective) hscopeFrom }
  · intro hreads
    have hartifact := hreads.artifact
    have hversions := hreads.version
    have hscopes := hreads.scope
    rw [hc, hc', Option.map_some, Option.map_some, Option.some.injEq] at hartifact
    rw [hversion, hversion', Option.some.injEq] at hversions
    rw [hscope, hscope', Option.some.injEq] at hscopes
    rw [label_eq_of_fullKey hkey, label_eq_of_fullKey hkey', hsame.2 ⟨hartifact, hversions, hscopes⟩,
      hreads.mark, notesPart, notesPart, notesText, notesText, hreads.notes_eq, hreads.isOmitted_eq]

/-- A managed node that lost, with punctuation in its versions. -/
def punctuated (reason : Omission) : Node where
  coordinate := some { group := "org", name := "lib", type := "jar", version := "1;(2)-" }
  scope := some .compile
  optional := true
  managedVersion := some "2;"
  managedScope := some .runtime
  status := .omitted reason

/-- A version and a scope that are written alike are told apart by nothing in the label. -/
theorem label_punctuated :
    (punctuated (.scopeConflict .test)).Legible ∧ (punctuated (.versionConflict "test")).Legible ∧
      punctuated (.scopeConflict .test) ≠ punctuated (.versionConflict "test") ∧
      (punctuated (.scopeConflict .test)).label = "(org:lib:jar:2;:runtime (optional) - " ++
        "version managed from 1;(2)-; scope managed from compile; omitted for conflict with test)" ∧
      (punctuated (.scopeConflict .test)).ReadsAs (punctuated (.versionConflict "test")) := by
  have hmanaged : ∀ version ∈ some "2;", Plain version := by decide
  have hlegible : ∀ reason, (punctuated reason).Legible := fun reason =>
    { coordinate := ⟨_, rfl, ⟨by decide, by decide, by decide, by decide⟩, by decide⟩
      scope := rfl
      managedVersion := hmanaged }
  exact ⟨hlegible _, hlegible _, by decide, by decide +kernel,
    (label_eq_iff (hlegible _) (hlegible _)).1 (by decide +kernel)⟩

end Node

end ArtifactTree
