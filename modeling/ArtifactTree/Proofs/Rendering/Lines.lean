import ArtifactTree.Proofs.Keys
import Mathlib.Data.List.Basic
import Mathlib.Data.List.TakeDrop
import Mathlib.Data.List.TakeWhile

/-!
# Reading lines

How texts are taken apart again: into lines (`Text.lines`), at a stop (`Text.cut`), and behind a known
prefix (`List.dropPrefix?`). What was put together from parts without the stop is read back.
-/

namespace ArtifactTree

/-- Whether a text has no line break. -/
def SingleLine (text : String) : Prop := '\n' ∉ text.toList

instance (text : String) : Decidable (SingleLine text) := inferInstanceAs (Decidable ('\n' ∉ _))

namespace SingleLine

theorem append {text text' : String} (h : SingleLine text) (h' : SingleLine text') :
    SingleLine (text ++ text') := by
  unfold SingleLine
  rw [String.toList_append, List.mem_append, not_or]
  exact ⟨h, h'⟩

end SingleLine

namespace Text

theorem forall_mem_append {P : Char → Prop} {text text' : String} :
    (∀ c ∈ (text ++ text').toList, P c) ↔ (∀ c ∈ text.toList, P c) ∧ ∀ c ∈ text'.toList, P c := by
  rw [String.toList_append]
  exact List.forall_mem_append

theorem forall_mem_intercalate {P : Char → Prop} {sep : String} (hsep : ∀ c ∈ sep.toList, P c)
    {texts : List String} : (∀ c ∈ (String.intercalate sep texts).toList, P c) ↔
      ∀ text ∈ texts, ∀ c ∈ text.toList, P c := by
  induction texts with
  | nil => exact iff_of_true (List.forall_mem_nil _) (List.forall_mem_nil _)
  | cons text texts ih =>
    cases texts with
    | nil => simp
    | cons next texts =>
      rw [String.intercalate_cons_of_ne_nil (List.cons_ne_nil _ _), forall_mem_append,
        forall_mem_append, ih, List.forall_mem_cons (l := next :: texts)]
      exact and_congr_left fun _ => and_iff_left hsep

/-- The lines of a text, each ended by a line break. -/
def lines (text : String) : List String :=
  (segments '\n' text.toList).dropLast.map String.ofList

def unlines (lines : List String) : String := String.join (lines.map (· ++ "\n"))

theorem unlines_append (lines lines' : List String) :
    unlines (lines ++ lines') = unlines lines ++ unlines lines' := by
  induction lines with
  | nil => simp [unlines]
  | cons line lines ih => simp_all [unlines, String.append_assoc]

theorem lines_unlines {lines : List String} (h : ∀ line ∈ lines, SingleLine line) :
    Text.lines (unlines lines) = lines := by
  have hsegments : segments '\n' (unlines lines).toList = lines.map String.toList ++ [[]] := by
    induction lines with
    | nil => rfl
    | cons line lines ih =>
      obtain ⟨hline, hlines⟩ := List.forall_mem_cons.1 h
      have htext : (unlines (line :: lines)).toList = line.toList ++ '\n' :: (unlines lines).toList := by
        simp [unlines, String.toList_append]
      rw [htext, segments_append hline, ih hlines, List.map_cons, List.cons_append]
  have hofList : String.ofList ∘ String.toList = id := funext fun _ => String.ofList_toList
  rw [Text.lines, hsegments, List.dropLast_concat, List.map_map, hofList, List.map_id]

/-- Events that write at most one line each write those lines. -/
theorem join_filterMap {α : Type} {write line : α → Option String}
    (h : ∀ a, write a = (line a).map (· ++ "\n")) (events : List α) :
    String.join (events.filterMap write) = unlines (events.filterMap line) := by
  rw [unlines, List.map_filterMap]
  exact congrArg (fun f => String.join (events.filterMap f)) (funext h)

/-- Escaping brings in a character only where it stood before. -/
theorem not_mem_flatMap {c : Char} {escape : Char → List Char} (h : ∀ a, c ∈ escape a → a = c)
    {text : List Char} (hc : c ∉ text) : c ∉ text.flatMap escape := by
  intro hmem
  obtain ⟨a, ha, hca⟩ := List.mem_flatMap.1 hmem
  exact hc (h a hca ▸ ha)

/-- A word without the stop ends where the stop stands, or at the end of the text. -/
theorem span_word {α : Type} [DecidableEq α] {stop : α} {word rest : List α} (hword : stop ∉ word)
    (hrest : rest = [] ∨ ∃ more, rest = stop :: more) :
    (word ++ rest).takeWhile (· ≠ stop) = word ∧ (word ++ rest).dropWhile (· ≠ stop) = rest := by
  have hne : ∀ item ∈ word, decide (item ≠ stop) = true := fun item hitem =>
    decide_eq_true (ne_of_mem_of_not_mem hitem hword)
  rw [List.takeWhile_append_of_pos hne, List.dropWhile_append_of_pos hne]
  rcases hrest with rfl | ⟨more, rfl⟩ <;> simp

/-- What stands before the first stop, and what stands behind it. -/
def cut {α : Type} [DecidableEq α] (stop : α) (items : List α) : List α × List α :=
  (items.takeWhile (· ≠ stop), (items.dropWhile (· ≠ stop)).drop 1)

theorem cut_append {α : Type} [DecidableEq α] {stop : α} {items : List α} (h : stop ∉ items)
    (rest : List α) : cut stop (items ++ stop :: rest) = (items, rest) := by
  obtain ⟨htake, hdrop⟩ := span_word h (.inr ⟨rest, rfl⟩)
  rw [cut, htake, hdrop, List.drop_one, List.tail_cons]

theorem cut_of_not_mem {α : Type} [DecidableEq α] {stop : α} {items : List α} (h : stop ∉ items) :
    cut stop items = (items, []) := by
  obtain ⟨htake, hdrop⟩ := span_word h (.inl rfl)
  rw [List.append_nil] at htake hdrop
  rw [cut, htake, hdrop, List.drop_nil]

/-- What starts otherwise does not start with the prefix. -/
theorem dropPrefix?_eq_none {start text : List Char} (h : ¬ start <+: text ∧ ¬ text <+: start)
    (rest : List Char) : (start ++ rest).dropPrefix? text = none := by
  rw [Option.eq_none_iff_forall_ne_some]
  intro s hs
  obtain ⟨text', happend, htext⟩ := List.dropPrefix?_eq_some_iff.1 hs
  obtain rfl := eq_of_beq htext
  rcases List.prefix_or_prefix_of_prefix ⟨rest, rfl⟩ ⟨s, happend.symm⟩ with hprefix | hprefix
  · exact h.1 hprefix
  · exact h.2 hprefix

end Text

/-! ## Numbers -/

theorem toList_toString (n : Nat) : (toString n).toList = Nat.toDigits 10 n := Nat.toList_repr

theorem not_mem_toString {n : Nat} {c : Char} (hc : c.isDigit = false) :
    c ∉ (toString n).toList := by
  intro hmem
  rw [toList_toString] at hmem
  rw [Nat.isDigit_of_mem_toDigits (by decide) (by decide) hmem] at hc
  cases hc

theorem singleLine_toString (n : Nat) : SingleLine (toString n) := not_mem_toString (by decide)

theorem toString_injective : Function.Injective fun n : Nat => toString n := by
  intro n n' h
  have h : (toString n).toList = (toString n').toList := congrArg String.toList h
  rw [toList_toString, toList_toString] at h
  rw [← Nat.ofDigitChars_ten_toDigits (n := n), h, Nat.ofDigitChars_ten_toDigits]

end ArtifactTree
