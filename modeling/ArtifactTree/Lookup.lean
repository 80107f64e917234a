/-!
# Looking up keys in lists of pairs

Tables are lists of pairs, and `List.lookup` gives the first value of a key. Here is what dropping,
replacing and appending a key does to the look-up of that key and of all others.
-/

namespace ArtifactTree.Lookup

variable {α β : Type} [BEq α] [LawfulBEq α]

/-- The table with another value at every occurrence of a key. -/
def replaced (key : α) (value : β) (table : List (α × β)) : List (α × β) :=
  table.map fun entry => if entry.1 == key then (key, value) else entry

theorem lookup_filter_ne {key other : α} (h : other ≠ key) (table : List (α × β)) :
    (table.filter (·.1 != key)).lookup other = table.lookup other := by
  induction table with
  | nil => rfl
  | cons entry table ih =>
    obtain ⟨k, v⟩ := entry
    by_cases hk : k = key
    · have hne : (other == k) = false := beq_eq_false_iff_ne.2 (hk ▸ h)
      simp [hk, List.lookup_cons, ih, hk ▸ hne]
    · cases hc : other == k <;> simp [hk, List.lookup_cons, ih, hc]

theorem lookup_replaced_self {key : α} {value : β} {table : List (α × β)}
    (h : (table.lookup key).isSome) : (replaced key value table).lookup key = some value := by
  induction table with
  | nil => simp at h
  | cons entry table ih =>
    obtain ⟨k, v⟩ := entry
    by_cases hk : k = key
    · simp [replaced, hk]
    · have hne : (key == k) = false := beq_eq_false_iff_ne.2 (Ne.symm hk)
      simp only [List.lookup_cons, hne] at h
      simpa [replaced, hk, List.lookup_cons, hne] using ih h

theorem lookup_replaced_of_ne {key other : α} (value : β) (h : other ≠ key)
    (table : List (α × β)) : (replaced key value table).lookup other = table.lookup other := by
  have hne : (other == key) = false := beq_eq_false_iff_ne.2 h
  induction table with
  | nil => rfl
  | cons entry table ih =>
    obtain ⟨k, v⟩ := entry
    simp only [replaced, List.map_cons] at ih ⊢
    by_cases hk : k = key
    · subst hk
      simp [List.lookup_cons, hne, ih]
    · cases hc : other == k <;> simp [hk, List.lookup_cons, hc, ih]

end ArtifactTree.Lookup
