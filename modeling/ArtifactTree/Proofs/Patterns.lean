import Mathlib.Computability.Language

/-!
# Patterns with anchors

A `Pattern` says which pieces of a text match; its anchors also ask what stands around a piece
(`Pattern.Spans`). A text is searched for a pattern, so a match may stand anywhere in it
(`Pattern.Occurs`). A pattern without anchors has a language (`Pattern.Denotes`), and put between the
two anchors it occurs exactly in the texts of that language (`Pattern.Denotes.occurs_anchored_iff`). The
end of a text is behind its last character, and a line break there is a character like any other.
-/

namespace ArtifactTree

/-- A class of characters: ranges, both ends included. -/
structure CharClass where
  ranges : List (Char × Char)

namespace CharClass

instance : Membership Char CharClass where
  mem cls c := ∃ range ∈ cls.ranges, range.1 ≤ c ∧ c ≤ range.2

instance (cls : CharClass) (c : Char) : Decidable (c ∈ cls) :=
  inferInstanceAs (Decidable (∃ range ∈ cls.ranges, range.1 ≤ c ∧ c ≤ range.2))

theorem mem_iff {cls : CharClass} {c : Char} :
    c ∈ cls ↔ ∃ range ∈ cls.ranges, range.1 ≤ c ∧ c ≤ range.2 := Iff.rfl

/-- The texts of a single character of the class. -/
def letters (cls : CharClass) : Language Char := {piece | ∃ c ∈ cls, piece = [c]}

/-- The texts of one or more characters of the class. -/
def words (cls : CharClass) : Language Char := {piece | piece ≠ [] ∧ ∀ c ∈ piece, c ∈ cls}

theorem mem_letters {cls : CharClass} {piece : List Char} :
    piece ∈ cls.letters ↔ ∃ c ∈ cls, piece = [c] := Iff.rfl

theorem mem_words {cls : CharClass} {piece : List Char} :
    piece ∈ cls.words ↔ piece ≠ [] ∧ ∀ c ∈ piece, c ∈ cls := Iff.rfl

end CharClass

/-- A regular pattern over characters. -/
inductive Pattern where
  | oneOf (cls : CharClass)
  | followedBy (first second : Pattern)
  | anyNumber (repeated : Pattern)
  | textStart
  | textEnd

namespace Pattern

def oneOrMore (p : Pattern) : Pattern := p.followedBy p.anyNumber

/-- The pattern between the start and the end of the text. -/
def anchored (p : Pattern) : Pattern := textStart.followedBy (p.followedBy textEnd)

/-- `p.Spans before piece after`: the piece matches where it stands, between `before` and `after`. -/
inductive Spans : Pattern → List Char → List Char → List Char → Prop
  | oneOf {cls c before after} (h : c ∈ cls) : Spans (oneOf cls) before [c] after
  | followedBy {p q before first second after} (hfirst : Spans p before first (second ++ after))
      (hsecond : Spans q (before ++ first) second after) :
      Spans (p.followedBy q) before (first ++ second) after
  | none {p before after} : Spans (anyNumber p) before [] after
  | more {p before first rest after} (hfirst : Spans p before first (rest ++ after))
      (hrest : Spans (anyNumber p) (before ++ first) rest after) :
      Spans (anyNumber p) before (first ++ rest) after
  | textStart {after} : Spans textStart [] [] after
  | textEnd {before} : Spans textEnd before [] []

/-- Whether some piece of the text matches. -/
def Occurs (p : Pattern) (text : String) : Prop :=
  ∃ before piece after, text.toList = before ++ piece ++ after ∧ p.Spans before piece after

variable {p q : Pattern} {before piece after : List Char}

theorem spans_followedBy_iff :
    (p.followedBy q).Spans before piece after ↔
      ∃ first second, piece = first ++ second ∧ p.Spans before first (second ++ after) ∧
        q.Spans (before ++ first) second after := by
  constructor
  · intro h
    cases h with
    | followedBy hfirst hsecond => exact ⟨_, _, rfl, hfirst, hsecond⟩
  · rintro ⟨first, second, rfl, hfirst, hsecond⟩
    exact .followedBy hfirst hsecond

theorem spans_textStart_iff : textStart.Spans before piece after ↔ before = [] ∧ piece = [] := by
  constructor
  · intro h
    cases h
    exact ⟨rfl, rfl⟩
  · rintro ⟨rfl, rfl⟩
    exact .textStart

theorem spans_textEnd_iff : textEnd.Spans before piece after ↔ piece = [] ∧ after = [] := by
  constructor
  · intro h
    cases h
    exact ⟨rfl, rfl⟩
  · rintro ⟨rfl, rfl⟩
    exact .textEnd

/-- The pattern asks nothing about what stands around a piece, and matches the pieces of a language. -/
def Denotes (p : Pattern) (l : Language Char) : Prop :=
  ∀ before piece after, p.Spans before piece after ↔ piece ∈ l

namespace Denotes

open Computability

variable {l m : Language Char}

theorem oneOf (cls : CharClass) : (Pattern.oneOf cls).Denotes cls.letters := by
  intro before piece after
  rw [CharClass.mem_letters]
  constructor
  · intro h
    cases h with
    | oneOf hc => exact ⟨_, hc, rfl⟩
  · rintro ⟨c, hc, rfl⟩
    exact .oneOf hc

theorem followedBy (hp : p.Denotes l) (hq : q.Denotes m) : (p.followedBy q).Denotes (l * m) := by
  intro before piece after
  rw [spans_followedBy_iff, Language.mem_mul]
  constructor
  · rintro ⟨first, second, rfl, hfirst, hsecond⟩
    exact ⟨first, (hp _ _ _).1 hfirst, second, (hq _ _ _).1 hsecond, rfl⟩
  · rintro ⟨first, hfirst, second, hsecond, rfl⟩
    exact ⟨first, second, rfl, (hp _ _ _).2 hfirst, (hq _ _ _).2 hsecond⟩

theorem anyNumber (hp : p.Denotes l) : p.anyNumber.Denotes l∗ := by
  intro before piece after
  rw [Language.mem_kstar]
  constructor
  · intro h
    -- The pattern is an index of `Spans`, so it has to be a variable while the match is taken apart.
    generalize hpattern : p.anyNumber = pattern at h
    induction h with
    | none => exact ⟨[], rfl, List.forall_mem_nil _⟩
    | @more repeated before first rest after hfirst hrest _ ih =>
      obtain rfl := Pattern.anyNumber.inj hpattern
      obtain ⟨pieces, rfl, hpieces⟩ := ih rfl
      exact ⟨first :: pieces, rfl, List.forall_mem_cons.2 ⟨(hp _ _ _).1 hfirst, hpieces⟩⟩
    | _ => cases hpattern
  · rintro ⟨pieces, rfl, hpieces⟩
    induction pieces generalizing before with
    | nil => exact .none
    | cons first pieces ih =>
      obtain ⟨hfirst, hpieces⟩ := List.forall_mem_cons.1 hpieces
      exact .more ((hp _ _ _).2 hfirst) (ih _ hpieces)

theorem words (cls : CharClass) : (Pattern.oneOf cls).oneOrMore.Denotes cls.words := by
  intro before piece after
  have hstar := (oneOf cls).followedBy (oneOf cls).anyNumber
  rw [oneOrMore, hstar, Language.mem_mul, CharClass.mem_words]
  constructor
  · rintro ⟨_, ⟨c, hc, rfl⟩, _, hrest, rfl⟩
    obtain ⟨letters, rfl, hletters⟩ := Language.mem_kstar.1 hrest
    refine ⟨List.cons_ne_nil _ _, List.forall_mem_cons.2 ⟨hc, ?_⟩⟩
    intro d hd
    obtain ⟨letter, hletter, hd⟩ := List.mem_flatten.1 hd
    obtain ⟨e, he, rfl⟩ := hletters letter hletter
    rwa [List.mem_singleton.1 hd]
  · rintro ⟨hne, hall⟩
    cases piece with
    | nil => exact absurd rfl hne
    | cons c rest =>
      obtain ⟨hc, hrest⟩ := List.forall_mem_cons.1 hall
      refine ⟨[c], ⟨c, hc, rfl⟩, rest, ?_, rfl⟩
      refine Language.mem_kstar.2 ⟨rest.map ([·]), (List.flatMap_singleton' rest).symm, ?_⟩
      intro letter hletter
      obtain ⟨d, hd, rfl⟩ := List.mem_map.1 hletter
      exact ⟨d, hrest d hd, rfl⟩

/-- Between the anchors a pattern has to match the whole text. -/
theorem occurs_anchored_iff (hp : p.Denotes l) {text : String} :
    p.anchored.Occurs text ↔ text.toList ∈ l := by
  constructor
  · rintro ⟨before, piece, after, htext, h⟩
    obtain ⟨_, _, rfl, hstart, h⟩ := spans_followedBy_iff.1 h
    obtain ⟨rfl, rfl⟩ := spans_textStart_iff.1 hstart
    obtain ⟨whole, _, rfl, hwhole, hend⟩ := spans_followedBy_iff.1 h
    obtain ⟨rfl, rfl⟩ := spans_textEnd_iff.1 hend
    simp only [List.nil_append, List.append_nil] at htext
    rw [htext]
    exact (hp _ _ _).1 hwhole
  · intro h
    refine ⟨[], text.toList, [], by simp, ?_⟩
    refine spans_followedBy_iff.2 ⟨[], text.toList, rfl, .textStart, ?_⟩
    refine spans_followedBy_iff.2 ⟨text.toList, [], (List.append_nil _).symm, ?_, .textEnd⟩
    exact (hp _ _ _).2 h

end Denotes

end Pattern

end ArtifactTree
