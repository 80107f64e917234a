import ArtifactTree.Toml.Statement
import Mathlib.Data.List.Basic

/-!
# Readers of TOML go forward

Whatever a reader makes of the front of a text, it leaves no more than it was given (`Reader.Advances`).
This is said of the readers of strings and keys, and of scalars, which are also no arrays and no tables.
-/

namespace ArtifactTree.Toml

/-! ## Going forward -/

/-- The reader leaves no more than it was given. -/
def Reader.Advances {α : Type} (read : Reader α) : Prop :=
  ∀ ⦃text a rest⦄, read text = some (a, rest) → rest.length ≤ text.length

theorem length_skipBlanks_le (text : List Char) : (skipBlanks text).length ≤ text.length :=
  (List.dropWhile_suffix _).length_le

theorem length_skipGap_le (comment : Bool) (text : List Char) :
    (skipGap comment text).length ≤ text.length := by
  induction text generalizing comment with
  | nil => cases comment <;> exact Nat.le_refl _
  | cons c rest ih =>
    have hrest := fun comment => Nat.le_succ_of_le (ih comment)
    cases comment
    all_goals
      rw [skipGap]
      split
      · exact hrest false
      · split
        · exact hrest true
        · exact Nat.le_refl _

theorem length_skipComment_le (text : List Char) : (skipComment text).length ≤ text.length := by
  unfold skipComment
  split
  · exact Nat.le_succ_of_le (List.dropWhile_suffix _).length_le
  · exact Nat.le_refl _

theorem length_le_of_afterLine {text rest : List Char} (h : afterLine text = some rest) :
    rest.length ≤ text.length := by
  have hcomment := length_skipComment_le (skipBlanks text)
  have hblanks := length_skipBlanks_le text
  unfold afterLine at h
  split at h
  · cases h
    exact Nat.zero_le _
  next hbreak =>
    cases h
    rw [hbreak, List.length_cons] at hcomment
    omega
  · cases h

/-- A character that is asked for is taken off. -/
theorem Scalar.after_eq_some {expected : Char} {text rest : List Char} :
    Scalar.after expected text = some rest ↔ text = expected :: rest := by
  cases text with
  | nil => simp [Scalar.after]
  | cons c text => by_cases hc : c = expected <;> simp [Scalar.after, hc]

/-! ### Strings -/

namespace Quotation

theorem emit_eq_some {c : Char} {read : Option (List Char × List Char)} {piece rest : List Char} :
    emit c read = some (piece, rest) ↔ ∃ more, read = some (more, rest) ∧ c :: more = piece := by
  simp [emit]

theorem length_closing_le (text : List Char) : (closing text).2.length ≤ text.length := by
  unfold closing
  split <;> simp only [List.length_cons] <;> omega

theorem advances_basic (many : Bool) (stance : Stance) : Reader.Advances (basic many stance) := by
  intro text piece rest h
  fun_induction basic many stance text generalizing piece rest <;>
    grind [Option.bind_eq_some_iff, emit_eq_some, length_closing_le]

theorem advances_literal : Reader.Advances literal := by
  intro text piece rest h
  fun_induction literal text generalizing piece rest <;> grind [emit_eq_some]

theorem advances_longLiteral : Reader.Advances longLiteral := by
  intro text piece rest h
  fun_induction longLiteral text generalizing piece rest <;> grind [emit_eq_some]

theorem length_skipFirstBreak_le (text : List Char) :
    (skipFirstBreak text).length ≤ text.length := by
  unfold skipFirstBreak
  split
  · exact Nat.le_succ _
  · exact Nat.le_refl _

/-- What was read is made a string, and the rest stays. -/
theorem length_le_of_finish {read : Reader (List Char)} (hread : read.Advances)
    {text rest : List Char} {string : String} (h : read?.finish (read text) = some (string, rest)) :
    rest.length ≤ text.length := by
  obtain ⟨⟨piece, rest'⟩, hpiece, heq⟩ := Option.map_eq_some_iff.1 h
  obtain ⟨-, rfl⟩ := Prod.mk.inj heq
  exact hread hpiece

theorem advances_read? : Reader.Advances read? := by
  intro text string rest h
  unfold read? at h
  split at h
  next rest' =>
    have := length_le_of_finish (advances_basic true .text) h
    have := length_skipFirstBreak_le rest'
    simp only [List.length_cons]
    omega
  next => exact Nat.le_succ_of_le (length_le_of_finish (advances_basic false .text) h)
  next rest' =>
    have := length_le_of_finish advances_longLiteral h
    have := length_skipFirstBreak_le rest'
    simp only [List.length_cons]
    omega
  next => exact Nat.le_succ_of_le (length_le_of_finish advances_literal h)
  next => cases h

end Quotation

/-! ### Keys -/

theorem advances_simpleKey : Reader.Advances simpleKey := by
  intro text part rest h
  unfold simpleKey at h
  split at h
  next =>
    exact Nat.le_succ_of_le (Quotation.length_le_of_finish (Quotation.advances_basic false .text) h)
  next => exact Nat.le_succ_of_le (Quotation.length_le_of_finish Quotation.advances_literal h)
  next =>
    dsimp only at h
    split at h
    · cases h
    · cases h
      exact (List.dropWhile_suffix _).length_le

theorem advances_dottedKey (limit : Nat) : Reader.Advances (dottedKey limit) := by
  induction limit with
  | zero =>
    intro text key rest h
    cases h
  | succ limit ih =>
    intro text key rest h
    rw [dottedKey] at h
    obtain ⟨⟨part, afterPart⟩, hpart, h⟩ := Option.bind_eq_some_iff.1 h
    have hpart : afterPart.length ≤ (skipBlanks text).length := advances_simpleKey hpart
    have hbefore := length_skipBlanks_le text
    have hbehind := length_skipBlanks_le afterPart
    dsimp only at h
    split at h
    next hpoint =>
      obtain ⟨⟨⟨path, last⟩, afterKey⟩, hkey, h⟩ := Option.bind_eq_some_iff.1 h
      have hkey := ih hkey
      dsimp only at h
      obtain ⟨-, rfl⟩ := Prod.mk.inj (Option.some.inj h)
      rw [hpoint, List.length_cons] at hbehind
      omega
    next =>
      obtain ⟨-, rfl⟩ := Prod.mk.inj (Option.some.inj h)
      omega

/-! ### Scalars -/

/-- The value is no array and no table. -/
def Value.IsScalar : Value → Prop
  | .array _ _ => False
  | .table _ _ => False
  | _ => True

theorem isScalar_of_inRange {negative : Bool} {magnitude : Nat} {v : Value}
    (h : Scalar.inRange negative magnitude = some v) : v.IsScalar := by
  unfold Scalar.inRange at h
  split at h
  · cases h
    trivial
  · cases h

theorem isScalar_of_integer? {token : List Char} {v : Value} (h : Scalar.integer? token = some v) :
    v.IsScalar := by
  unfold Scalar.integer? at h
  split at h <;>
  · obtain ⟨digits, -, h⟩ := Option.bind_eq_some_iff.1 h
    exact isScalar_of_inRange h

theorem isScalar_of_special? {token : List Char} {v : Value} (h : Scalar.special? token = some v) :
    v.IsScalar := by
  unfold Scalar.special? at h
  dsimp only at h
  split at h
  · cases h
    trivial
  · split at h
    · cases h
      trivial
    · cases h

theorem isScalar_of_ofToken? {token : List Char} {v : Value} (h : Scalar.ofToken? token = some v) :
    v.IsScalar := by
  unfold Scalar.ofToken? at h
  split at h
  · cases h
    trivial
  split at h
  · cases h
    trivial
  split at h
  · cases h
    trivial
  · rw [Option.orElse_eq_orElse, Option.orElse_eq_or, Option.or_eq_some_iff] at h
    rcases h with hdecimal | ⟨-, h⟩
    · obtain ⟨number, -, rfl⟩ := Option.map_eq_some_iff.1 hdecimal
      trivial
    · rw [Option.orElse_eq_or, Option.or_eq_some_iff] at h
      rcases h with hspecial | ⟨-, hinteger⟩
      · exact isScalar_of_special? hspecial
      · exact isScalar_of_integer? hinteger

/-- A scalar that is read goes forward, whatever its form. -/
theorem isScalar_of_scalar {text rest : List Char} {v : Value} (h : scalar text = some (v, rest)) :
    v.IsScalar ∧ rest.length ≤ text.length := by
  have hstring : scalar.string text = some (v, rest) → v.IsScalar ∧ rest.length ≤ text.length := by
    intro h
    obtain ⟨⟨string, rest'⟩, hread, heq⟩ := Option.map_eq_some_iff.1 h
    obtain ⟨rfl, rfl⟩ := Prod.mk.inj heq
    exact ⟨trivial, Quotation.advances_read? hread⟩
  have hrest : (text.dropWhile scalar.inToken).length ≤ text.length :=
    (List.dropWhile_suffix _).length_le
  have htoken : ∀ {token}, (Scalar.ofToken? token).map (·, text.dropWhile scalar.inToken) =
      some (v, rest) → v.IsScalar ∧ rest.length ≤ text.length := by
    intro token h
    obtain ⟨v', hread, heq⟩ := Option.map_eq_some_iff.1 h
    obtain ⟨rfl, rfl⟩ := Prod.mk.inj heq
    exact ⟨isScalar_of_ofToken? hread, hrest⟩
  unfold scalar at h
  split at h
  · exact hstring h
  · exact hstring h
  · dsimp only at h
    split at h
    next more hblank =>
      split at h
      · cases h
        have hmore : (more.dropWhile scalar.inToken).length ≤ more.length :=
          (List.dropWhile_suffix _).length_le
        rw [hblank, List.length_cons] at hrest
        exact ⟨trivial, by omega⟩
      · exact htoken h
    next => exact htoken h

end ArtifactTree.Toml
