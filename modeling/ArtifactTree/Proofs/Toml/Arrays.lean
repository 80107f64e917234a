import ArtifactTree.Proofs.Manifest
import ArtifactTree.Proofs.Toml.Readers
import Mathlib.Data.Option.Basic

/-!
# The arrays of a document

No array of a document has more items than the text has characters: an item between brackets is followed
by a comma or the closing bracket, and an item that a header opens has the header. As the items of the
two kinds cannot be counted together while the document is put together, there is a bound for each
(`Value.Bounded`).

Main statement: `Manifest.length_dependencies_le`.
-/

namespace ArtifactTree.Toml

/-! ## Bounds -/

/-- All arrays in the value have at most as many items as their kind allows. -/
inductive Value.Bounded (most : ArrayKind → Nat) : Value → Prop
  | scalar {v : Value} (h : v.IsScalar) : Bounded most v
  | array {kind : ArrayKind} {items : List Value} (length : items.length ≤ most kind)
    (inside : ∀ item ∈ items, Bounded most item) : Bounded most (.array kind items)
  | table {kind : TableKind} {entries : Entries} (inside : ∀ entry ∈ entries, Bounded most entry.2) :
    Bounded most (.table kind entries)

/-- All arrays in the values of the entries are bounded. -/
def Entries.Bounded (most : ArrayKind → Nat) (entries : Entries) : Prop :=
  ∀ entry ∈ entries, entry.2.Bounded most

/-- At most so many items in arrays between brackets and in arrays of tables with headers. -/
def atMost (written opened : Nat) : ArrayKind → Nat
  | .inline => written
  | .header => opened

theorem atMost_le {written written' opened opened' : Nat} (h : written ≤ written')
    (h' : opened ≤ opened') (kind : ArrayKind) :
    atMost written opened kind ≤ atMost written' opened' kind := by
  cases kind with
  | inline => exact h
  | header => exact h'

theorem Value.Bounded.mono {most most' : ArrayKind → Nat} (hmost : ∀ kind, most kind ≤ most' kind)
    {v : Value} (h : v.Bounded most) : v.Bounded most' := by
  induction h with
  | scalar h => exact .scalar h
  | array length _ ih => exact .array (Nat.le_trans length (hmost _)) ih
  | table _ ih => exact .table ih

/-! ## Changing entries -/

theorem Entries.Bounded.lookup {most : ArrayKind → Nat} {entries : Entries} (h : entries.Bounded most)
    {key : String} {v : Value} (hlookup : entries.lookup key = some v) : v.Bounded most := by
  obtain ⟨before, after, rfl, -⟩ := List.lookup_eq_some_iff.1 hlookup
  exact h (key, v) (by simp)

theorem Entries.Bounded.snoc {most : ArrayKind → Nat} {entries : Entries} (h : entries.Bounded most)
    (key : String) {v : Value} (hv : v.Bounded most) :
    Entries.Bounded most (entries ++ [(key, v)]) := by
  intro entry hentry
  rcases List.mem_append.1 hentry with hold | hnew
  · exact h entry hold
  · rw [List.mem_singleton.1 hnew]
    exact hv

theorem Entries.Bounded.assign {most : ArrayKind → Nat} {entries : Entries} (h : entries.Bounded most)
    (key : String) {v : Value} (hv : v.Bounded most) : (entries.assign key v).Bounded most := by
  intro entry hentry
  obtain ⟨old, hold, heq⟩ := List.mem_map.1 hentry
  split at heq
  · rw [← heq]
    exact hv
  · rw [← heq]
    exact h old hold

theorem Value.Bounded.replaceLast {most : ArrayKind → Nat} {kind : ArrayKind} {elements : List Value}
    (h : (Value.array kind elements).Bounded most) {last v : Value}
    (hlast : elements.getLast? = some last) (hv : v.Bounded most) :
    (Value.array kind (elements.dropLast ++ [v])).Bounded most := by
  cases h with
  | scalar h => cases h
  | array length inside =>
    obtain ⟨others, rfl⟩ := List.getLast?_eq_some_iff.1 hlast
    rw [List.dropLast_concat]
    refine .array (by simpa using length) fun item hitem => ?_
    rcases List.mem_append.1 hitem with hold | hnew
    · exact inside item (List.mem_append_left _ hold)
    · rw [List.mem_singleton.1 hnew]
      exact hv

/-- A change somewhere inside the entries keeps the bounds that the change itself keeps. -/
theorem bounded_within {made : TableKind} {change : TableKind → Entries → Option Entries}
    {most most' : ArrayKind → Nat} (hmost : ∀ kind, most kind ≤ most' kind)
    (hchange : ∀ {kind entries entries'}, change kind entries = some entries' →
      entries.Bounded most → entries'.Bounded most')
    {path : List String} {kind : TableKind} {entries entries' : Entries}
    (h : within made change path kind entries = some entries') (hentries : entries.Bounded most) :
    entries'.Bounded most' := by
  induction path generalizing kind entries entries' with
  | nil => exact hchange h hentries
  | cons key path ih =>
    have hkept : entries.Bounded most' := fun entry hentry => (hentries entry hentry).mono hmost
    rw [within] at h
    split at h
    next =>
      obtain ⟨sub, hsub, h⟩ := Option.bind_eq_some_iff.1 h
      obtain rfl := Option.some.inj h
      exact hkept.snoc key (.table (ih hsub fun _ hmem => nomatch hmem))
    next kind' sub hlookup =>
      cases hentries.lookup hlookup with
      | scalar h => cases h
      | table hinside =>
        obtain ⟨-, -, h⟩ := Option.bind_eq_some_iff.1 h
        obtain ⟨sub', hsub, h⟩ := Option.bind_eq_some_iff.1 h
        obtain rfl := Option.some.inj h
        exact hkept.assign key (.table (ih hsub hinside))
    next elements hlookup =>
      split at h
      next kind' sub hlast =>
        obtain ⟨sub', hsub, h⟩ := Option.bind_eq_some_iff.1 h
        obtain rfl := Option.some.inj h
        have helements := hentries.lookup hlookup
        cases helements with
        | scalar h => cases h
        | array length inside =>
          cases inside _ (List.mem_of_getLast? hlast) with
          | scalar h => cases h
          | table hinside =>
            have hkept' := (Value.Bounded.array length inside).mono hmost
            exact hkept.assign key (hkept'.replaceLast hlast (.table (ih hsub hinside)))
      next => cases h
    next => cases h

theorem Entries.Bounded.place {most : ArrayKind → Nat} {path : List String} {key : String} {v : Value}
    {entries entries' : Entries} (hv : v.Bounded most)
    (h : Toml.place path key v entries = some entries') (hentries : entries.Bounded most) :
    entries'.Bounded most := by
  refine bounded_within (fun _ => Nat.le_refl _) (fun h hentries => ?_) h hentries
  obtain ⟨-, -, h⟩ := Option.bind_eq_some_iff.1 h
  obtain ⟨-, -, h⟩ := Option.bind_eq_some_iff.1 h
  obtain rfl := Option.some.inj h
  exact hentries.snoc key hv

/-- What holds after `n` steps holds with `n` counted on, step by step. -/
theorem counted_foldlM {α β : Type} {P : Nat → β → Prop} {step : β → α → Option β} {items : List α}
    {n : Nat} {start final : β}
    (hstep : ∀ item ∈ items, ∀ {n b b'}, step b item = some b' → P n b → P (n + 1) b')
    (h : items.foldlM step start = some final) (hstart : P n start) : P (n + items.length) final := by
  induction items generalizing n start with
  | nil => exact Option.some.inj h ▸ hstart
  | cons item items ih =>
    obtain ⟨hfirst, hrest⟩ := List.forall_mem_cons.1 hstep
    rw [List.foldlM_cons] at h
    obtain ⟨next, hnext, h⟩ := Option.bind_eq_some_iff.1 h
    rw [List.length_cons, Nat.add_comm items.length, ← Nat.add_assoc]
    exact ih hrest h (hfirst hnext hstart)

theorem bounded_placeAll {most : ArrayKind → Nat}
    {assignments : List (List String × String × Value)} {entries : Entries}
    (hvalues : ∀ a ∈ assignments, a.2.2.Bounded most) (h : placeAll assignments = some entries) :
    entries.Bounded most := by
  have hempty : Entries.Bounded most [] := List.forall_mem_nil _
  refine counted_foldlM (P := fun _ entries => entries.Bounded most) (n := 0) ?_ h hempty
  intro a ha _ _ _ hplaced hbounded
  exact .place (hvalues a ha) hplaced hbounded

/-! ## Reading -/

/-- The reader goes forward, and a value that it reads has no longer arrays between brackets than the
text is, and none with headers. -/
def Reader.Measured (read : Reader Value) : Prop :=
  ∀ ⦃text v rest⦄, read text = some (v, rest) →
    rest.length ≤ text.length ∧ v.Bounded (atMost text.length 0)

theorem Value.Bounded.longer {n n' : Nat} {v : Value} (h : v.Bounded (atMost n 0)) (hn : n ≤ n') :
    v.Bounded (atMost n' 0) :=
  h.mono (atMost_le hn (Nat.le_refl 0))

theorem measured_scalar : Reader.Measured scalar := by
  intro text v rest h
  obtain ⟨hscalar, hrest⟩ := isScalar_of_scalar h
  exact ⟨hrest, .scalar hscalar⟩

namespace Reader.Measured

variable {read : Reader Value} (hread : read.Measured)
include hread

/-- The equals sign is taken off besides. -/
theorem of_assignment {text rest : List Char} {path : List String} {key : String} {v : Value}
    (h : assignment read text = some ((path, key, v), rest)) :
    rest.length < text.length ∧ v.Bounded (atMost text.length 0) := by
  unfold assignment at h
  obtain ⟨⟨⟨path', key'⟩, afterKey⟩, hkey, h⟩ := Option.bind_eq_some_iff.1 h
  dsimp only at h
  obtain ⟨behind, hequals, h⟩ := Option.bind_eq_some_iff.1 h
  obtain ⟨⟨v', afterValue⟩, hvalue, h⟩ := Option.bind_eq_some_iff.1 h
  dsimp only at h
  obtain ⟨hassigned, rfl⟩ := Prod.mk.inj (Option.some.inj h)
  obtain ⟨-, hassigned⟩ := Prod.mk.inj hassigned
  obtain ⟨-, rfl⟩ := Prod.mk.inj hassigned
  have hkey : afterKey.length ≤ text.length := advances_dottedKey _ hkey
  rw [Scalar.after_eq_some.1 hequals, List.length_cons] at hkey
  have hblanks := length_skipBlanks_le behind
  have hblanks' := length_skipBlanks_le afterValue
  obtain ⟨hvalue, hbounded⟩ := hread hvalue
  exact ⟨by omega, hbounded.longer (by omega)⟩

/-- Each item takes a comma or the closing bracket. -/
theorem of_arrayItems {limit : Nat} {text rest : List Char} {items : List Value}
    (h : arrayItems read limit text = some (items, rest)) :
    items.length + rest.length ≤ text.length ∧
      ∀ item ∈ items, item.Bounded (atMost text.length 0) := by
  induction limit generalizing text items rest with
  | zero => cases h
  | succ limit ih =>
    have hgap := length_skipGap_le false text
    rw [arrayItems] at h
    split at h
    next hclosing =>
      cases h
      rw [hclosing, List.length_cons] at hgap
      exact ⟨by rw [List.length_nil]; omega, List.forall_mem_nil _⟩
    next =>
      obtain ⟨⟨item, afterItem⟩, hitem, h⟩ := Option.bind_eq_some_iff.1 h
      obtain ⟨hitem, hbounded⟩ := hread hitem
      have hgap' := length_skipGap_le false afterItem
      dsimp only at h
      split at h
      next hcomma =>
        obtain ⟨⟨items', afterItems⟩, hitems, h⟩ := Option.bind_eq_some_iff.1 h
        obtain ⟨hitems, hinside⟩ := ih hitems
        dsimp only at h
        obtain ⟨rfl, rfl⟩ := Prod.mk.inj (Option.some.inj h)
        rw [hcomma, List.length_cons] at hgap'
        refine ⟨by rw [List.length_cons]; omega, List.forall_mem_cons.2 ⟨?_, fun other hother => ?_⟩⟩
        · exact hbounded.longer hgap
        · exact (hinside other hother).longer (by omega)
      next hclosing =>
        obtain ⟨rfl, rfl⟩ := Prod.mk.inj (Option.some.inj h)
        rw [hclosing, List.length_cons] at hgap'
        refine ⟨by rw [List.length_singleton]; omega, List.forall_mem_singleton.2 ?_⟩
        exact hbounded.longer hgap
      next => cases h

theorem of_inlineAssignments {limit : Nat} {text rest : List Char}
    {assignments : List (List String × String × Value)}
    (h : inlineAssignments read limit text = some (assignments, rest)) :
    rest.length ≤ text.length ∧ ∀ a ∈ assignments, a.2.2.Bounded (atMost text.length 0) := by
  induction limit generalizing text assignments rest with
  | zero => cases h
  | succ limit ih =>
    rw [inlineAssignments] at h
    obtain ⟨⟨first, afterFirst⟩, hfirst, h⟩ := Option.bind_eq_some_iff.1 h
    obtain ⟨hfirst, hbounded⟩ := hread.of_assignment hfirst
    dsimp only at h
    split at h
    next afterComma =>
      obtain ⟨⟨more, afterMore⟩, hmore, h⟩ := Option.bind_eq_some_iff.1 h
      obtain ⟨hmore, hinside⟩ := ih hmore
      dsimp only at h
      obtain ⟨rfl, rfl⟩ := Prod.mk.inj (Option.some.inj h)
      rw [List.length_cons] at hfirst
      refine ⟨by omega, List.forall_mem_cons.2 ⟨hbounded, fun other hother => ?_⟩⟩
      exact (hinside other hother).longer (by omega)
    next =>
      obtain ⟨rfl, rfl⟩ := Prod.mk.inj (Option.some.inj h)
      rw [List.length_cons] at hfirst
      exact ⟨by omega, List.forall_mem_singleton.2 hbounded⟩
    next => cases h

end Reader.Measured

theorem measured_value (levels : Nat) : Reader.Measured (value levels) := by
  induction levels with
  | zero => exact measured_scalar
  | succ levels ih =>
    intro text v rest h
    rw [value.eq_def] at h
    dsimp only at h
    split at h
    next behind =>
      obtain ⟨⟨items, afterItems⟩, hitems, heq⟩ := Option.map_eq_some_iff.1 h
      dsimp only at heq
      obtain ⟨rfl, rfl⟩ := Prod.mk.inj heq
      obtain ⟨hlength, hinside⟩ := ih.of_arrayItems hitems
      rw [List.length_cons]
      refine ⟨by omega, .array (show items.length ≤ _ by rw [atMost]; omega) fun item hitem => ?_⟩
      exact (hinside item hitem).longer (Nat.le_succ _)
    next behind =>
      have hblanks := length_skipBlanks_le behind
      split at h
      next hclosing =>
        obtain ⟨rfl, rfl⟩ := Prod.mk.inj (Option.some.inj h)
        rw [hclosing, List.length_cons] at hblanks
        rw [List.length_cons]
        exact ⟨by omega, .table fun _ hmem => nomatch hmem⟩
      next =>
        obtain ⟨⟨assignments, afterAll⟩, hread, h⟩ := Option.bind_eq_some_iff.1 h
        obtain ⟨entries, hplaced, h⟩ := Option.bind_eq_some_iff.1 h
        dsimp only at h
        obtain ⟨rfl, rfl⟩ := Prod.mk.inj (Option.some.inj h)
        obtain ⟨hlength, hinside⟩ := ih.of_inlineAssignments hread
        rw [List.length_cons]
        refine ⟨by omega, .table (bounded_placeAll (fun a ha => ?_) hplaced)⟩
        exact (hinside a ha).longer (by omega)
    next => exact measured_scalar h

/-! ## Documents -/

/-- What a statement assigns is bounded. -/
def Statement.Bounded (most : ArrayKind → Nat) : Statement → Prop
  | .assign _ _ value => value.Bounded most
  | _ => True

theorem Statement.Bounded.longer {n n' : Nat} {part : Statement} (h : part.Bounded (atMost n 0))
    (hn : n ≤ n') : part.Bounded (atMost n' 0) := by
  cases part with
  | assign path key v => exact Value.Bounded.longer h hn
  | table | element => trivial

/-- There are no more statements than the text has characters, and none of them assigns more. -/
structure Counted (text : List Char) (parts : List Statement) : Prop where
  length : parts.length ≤ text.length
  bounded : ∀ part ∈ parts, part.Bounded (atMost text.length 0)

namespace Counted

variable {text : List Char} {parts : List Statement}

theorem longer {text' : List Char} (h : Counted text parts) (htext : text.length ≤ text'.length) :
    Counted text' parts :=
  ⟨Nat.le_trans h.length htext, fun part hpart => (h.bounded part hpart).longer htext⟩

/-- A statement that took a character, before those of the lines that follow. -/
theorem cons {limit : Nat} {behind : List Char} {part : Statement}
    (hlater : ∀ {text parts}, statements limit text = some parts → Counted text parts)
    (h : (do return part :: (← statements limit (← afterLine behind))) = some parts)
    (hbehind : behind.length < text.length) (hpart : part.Bounded (atMost text.length 0)) :
    Counted text parts := by
  obtain ⟨line, hline, h⟩ := Option.bind_eq_some_iff.1 h
  obtain ⟨more, hmore, h⟩ := Option.bind_eq_some_iff.1 h
  obtain rfl := Option.some.inj h
  have hline := length_le_of_afterLine hline
  have hcounted := hlater hmore
  have hlength := hcounted.length
  exact ⟨by rw [List.length_cons]; omega,
    List.forall_mem_cons.2 ⟨hpart, (hcounted.longer (by omega)).bounded⟩⟩

end Counted

/-- Each statement has an equals sign or a bracket of its own. -/
theorem counted_statements {limit : Nat} {text : List Char} {parts : List Statement}
    (h : statements limit text = some parts) : Counted text parts := by
  induction limit generalizing text parts with
  | zero => cases h
  | succ limit ih =>
    have hblanks := length_skipBlanks_le text
    rw [statements.eq_def] at h
    dsimp only at h
    split at h
    next =>
      obtain rfl := Option.some.inj h
      exact ⟨Nat.zero_le _, List.forall_mem_nil _⟩
    next behind hopening =>
      obtain ⟨⟨key, afterKey⟩, hkey, h⟩ := Option.bind_eq_some_iff.1 h
      obtain ⟨closing, hclosing, h⟩ := Option.bind_eq_some_iff.1 h
      obtain ⟨closed, hclosed, h⟩ := Option.bind_eq_some_iff.1 h
      dsimp only at hclosing
      have hkey : afterKey.length ≤ behind.length := advances_dottedKey _ hkey
      rw [Scalar.after_eq_some.1 hclosing, Scalar.after_eq_some.1 hclosed] at hkey
      rw [hopening] at hblanks
      simp only [List.length_cons] at hkey hblanks
      exact .cons ih h (by omega) trivial
    next behind _ hopening =>
      obtain ⟨⟨key, afterKey⟩, hkey, h⟩ := Option.bind_eq_some_iff.1 h
      obtain ⟨closed, hclosed, h⟩ := Option.bind_eq_some_iff.1 h
      dsimp only at hclosed
      have hkey : afterKey.length ≤ behind.length := advances_dottedKey _ hkey
      rw [Scalar.after_eq_some.1 hclosed] at hkey
      rw [hopening] at hblanks
      simp only [List.length_cons] at hkey hblanks
      exact .cons ih h (by omega) trivial
    next c behind _ _ hfirst =>
      rw [hfirst] at hblanks
      split at h
      next =>
        obtain ⟨line, hline, h⟩ := Option.bind_eq_some_iff.1 h
        have hline := length_le_of_afterLine hline
        exact (ih h).longer (by omega)
      next =>
        obtain ⟨⟨⟨path, key, v⟩, afterValue⟩, hassigned, h⟩ := Option.bind_eq_some_iff.1 h
        dsimp only at h
        obtain ⟨hlength, hbounded⟩ := (measured_value nestingLimit).of_assignment hassigned
        exact .cons ih h (by omega) (Value.Bounded.longer hbounded hblanks)

namespace Draft

variable {most : ArrayKind → Nat} {written opened : Nat}

theorem bounded_openTable {key : String} {entries entries' : Entries}
    (h : openTable key entries = some entries') (hentries : entries.Bounded most) :
    entries'.Bounded most := by
  unfold openTable at h
  split at h
  next =>
    obtain rfl := Option.some.inj h
    exact hentries.snoc key (.table fun _ hmem => nomatch hmem)
  next sub hlookup =>
    obtain rfl := Option.some.inj h
    cases hentries.lookup hlookup with
    | scalar h => cases h
    | table inside =>
      have hothers : (entries.without key).Bounded most := fun entry hentry =>
        hentries entry (List.mem_filter.1 hentry).1
      exact hothers.snoc key (.table inside)
  next => cases h

/-- An array of tables grows by one element. -/
theorem bounded_openElement {key : String} {entries entries' : Entries}
    (h : openElement key entries = some entries')
    (hentries : entries.Bounded (atMost written opened)) :
    entries'.Bounded (atMost written (opened + 1)) := by
  have hkept : entries.Bounded (atMost written (opened + 1)) := fun entry hentry =>
    (hentries entry hentry).mono (atMost_le (Nat.le_refl _) (Nat.le_succ _))
  have hempty : (Value.table .header []).Bounded (atMost written (opened + 1)) :=
    .table fun _ hmem => nomatch hmem
  unfold openElement at h
  split at h
  next =>
    obtain rfl := Option.some.inj h
    refine hkept.snoc key (.array ?_ (List.forall_mem_singleton.2 hempty))
    exact Nat.succ_le_succ (Nat.zero_le _)
  next elements hlookup =>
    obtain rfl := Option.some.inj h
    cases hentries.lookup hlookup with
    | scalar h => cases h
    | array length =>
      cases hkept.lookup hlookup with
      | scalar h => cases h
      | array _ inside =>
        refine hkept.assign key (.array ?_ fun element helement => ?_)
        · rw [List.length_append, List.length_singleton]
          exact Nat.succ_le_succ length
        · rcases List.mem_append.1 helement with hold | hnew
          · exact inside element hold
          · rw [List.mem_singleton.1 hnew]
            exact hempty
  next => cases h

theorem bounded_follow {draft draft' : Draft} {path : List String}
    {opens : String → Entries → Option Entries} {most' : ArrayKind → Nat}
    (hmost : ∀ kind, most kind ≤ most' kind)
    (hopens : ∀ {key entries entries'}, opens key entries = some entries' →
      entries.Bounded most → entries'.Bounded most')
    (h : draft.follow path opens = some draft') (hdraft : draft.entries.Bounded most) :
    draft'.entries.Bounded most' := by
  obtain ⟨key, -, h⟩ := Option.bind_eq_some_iff.1 h
  obtain ⟨entries, hentries, h⟩ := Option.bind_eq_some_iff.1 h
  obtain rfl := Option.some.inj h
  exact bounded_within hmost hopens hentries hdraft

theorem bounded_add {draft draft' : Draft} {part : Statement} (h : draft.add part = some draft')
    (hpart : part.Bounded (atMost written 0)) (hdraft : draft.entries.Bounded (atMost written opened)) :
    draft'.entries.Bounded (atMost written (opened + 1)) := by
  have hmost := atMost_le (Nat.le_refl written) (Nat.le_succ opened)
  cases part with
  | table path =>
    exact bounded_follow hmost (fun h hentries entry hentry =>
      (bounded_openTable h hentries entry hentry).mono hmost) h hdraft
  | element path => exact bounded_follow hmost bounded_openElement h hdraft
  | assign path key v =>
    obtain ⟨entries, hentries, h⟩ := Option.bind_eq_some_iff.1 h
    obtain rfl := Option.some.inj h
    have hv : v.Bounded (atMost written (opened + 1)) :=
      Value.Bounded.mono (atMost_le (Nat.le_refl _) (Nat.zero_le _)) hpart
    refine bounded_within hmost (fun h hentries => ?_) hentries hdraft
    exact Entries.Bounded.place hv h fun entry hentry => (hentries entry hentry).mono hmost

/-- By one statement after the other, no array of tables becomes longer than there are statements. -/
theorem bounded_foldlM {parts : List Statement} {draft draft' : Draft}
    (h : parts.foldlM add draft = some draft')
    (hparts : ∀ part ∈ parts, part.Bounded (atMost written 0))
    (hdraft : draft.entries.Bounded (atMost written opened)) :
    draft'.entries.Bounded (atMost written (opened + parts.length)) := by
  refine counted_foldlM (P := fun opened draft => draft.entries.Bounded (atMost written opened))
    ?_ h hdraft
  intro part hpart _ _ _ hadd hbounded
  exact bounded_add hadd (hparts part hpart) hbounded

end Draft

theorem length_unifyBreaks_le (text : List Char) : (unifyBreaks text).length ≤ text.length := by
  fun_induction unifyBreaks text <;> simp only [List.length_cons, List.length_nil] <;> omega

theorem length_skipMark_le (text : List Char) : (skipMark text).length ≤ text.length := by
  unfold skipMark
  split
  · exact Nat.le_succ _
  · exact Nat.le_refl _

/-- **No array of a document is longer than its text.** -/
theorem bounded_of_read? {text : String} {entries : Entries} (h : read? text = some entries) :
    entries.Bounded fun _ => text.length := by
  obtain ⟨parts, hparts, h⟩ := Option.bind_eq_some_iff.1 h
  obtain ⟨draft, hdraft, h⟩ := Option.bind_eq_some_iff.1 h
  obtain rfl := Option.some.inj h
  have hcounted := counted_statements hparts
  have hlength : (unifyBreaks (skipMark text.toList)).length ≤ text.length := by
    have hbreaks := length_unifyBreaks_le (skipMark text.toList)
    have hmark := length_skipMark_le text.toList
    rw [String.length_toList] at hmark
    omega
  have hstart : Entries.Bounded (atMost (unifyBreaks (skipMark text.toList)).length 0) [] :=
    List.forall_mem_nil _
  have hfinal := Draft.bounded_foldlM hdraft hcounted.bounded hstart
  refine fun entry hentry => (hfinal entry hentry).mono fun kind => ?_
  cases kind with
  | inline => exact hlength
  | header =>
    have hcount := hcounted.length
    exact Nat.le_trans (by rw [atMost]; omega) hlength

end ArtifactTree.Toml

namespace ArtifactTree

open Accepted Toml

namespace Manifest

/-! ## Sections -/

theorem length_asItems_le {v : Value} {items : List Value} {n : Nat} (h : v.asItems = .ok items)
    (hv : v.Bounded fun _ => n) : items.length ≤ n := by
  unfold Value.asItems at h
  split at h
  next =>
    obtain rfl := Except.ok.inj h
    cases hv with
    | scalar h => cases h
    | array length => exact length
  next => cases h

theorem length_dependencies_readEntry {m m' : Manifest} {key : String} {v : Value} {n : Nat}
    (h : m.readEntry key v = .ok m') (hm : m.dependencies.length ≤ n) (hv : v.Bounded fun _ => n) :
    m'.dependencies.length ≤ n := by
  unfold readEntry at h
  split at h
  · obtain ⟨_, -, h⟩ := bind_eq_ok.1 h
    obtain rfl := pure_eq_ok.1 h
    exact hm
  · obtain ⟨items, hitems, h⟩ := bind_eq_ok.1 h
    obtain ⟨sections, hsections, h⟩ := bind_eq_ok.1 h
    obtain rfl := pure_eq_ok.1 h
    rw [← (mapM_eq_ok.1 hsections).length_eq]
    exact length_asItems_le hitems hv
  · obtain ⟨_, -, h⟩ := bind_eq_ok.1 h
    obtain ⟨_, -, h⟩ := bind_eq_ok.1 h
    obtain rfl := pure_eq_ok.1 h
    exact hm
  · obtain ⟨_, -, h⟩ := bind_eq_ok.1 h
    obtain rfl := pure_eq_ok.1 h
    exact hm
  · obtain rfl := Except.ok.inj h
    exact hm

theorem length_dependencies_ofEntries {entries : Entries} {m : Manifest} {n : Nat}
    (h : ofEntries entries = .ok m) (hentries : entries.Bounded fun _ => n) :
    m.dependencies.length ≤ n := by
  refine foldlM_invariant (P := fun m => m.dependencies.length ≤ n) ?_ h (Nat.zero_le _)
  intro entry hentry _ _ hread hm
  exact length_dependencies_readEntry hread hm (hentries entry hentry)

/-- A manifest has at most as many dependencies as its text has characters. -/
theorem length_dependencies_le {text : String} {m : Manifest} (h : Manifest.parse text = .ok m) :
    m.dependencies.length ≤ text.length := by
  obtain ⟨entries, hread, hsections, -⟩ := of_parse h
  exact length_dependencies_ofEntries hsections (bounded_of_read? hread)

end Manifest

end ArtifactTree
