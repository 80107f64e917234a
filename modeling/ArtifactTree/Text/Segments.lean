/-!
# Texts cut at a separator

`segments` cuts a text at every occurrence of a separator and `joined` puts the separator back.
The main statement is `joined_segments`: nothing is lost. A text without the separator is its own
only segment, so there is always at least one.
-/

namespace ArtifactTree.Text

/-- The pieces between the occurrences of `sep`. -/
def segments (sep : Char) : List Char → List (List Char)
  | [] => [[]]
  | c :: rest =>
    if c = sep then [] :: segments sep rest
    else
      match segments sep rest with
      | [] => [[c]]
      | piece :: pieces => (c :: piece) :: pieces

/-- The pieces with `sep` between each two. -/
def joined (sep : Char) : List (List Char) → List Char
  | [] => []
  | [piece] => piece
  | piece :: pieces => piece ++ sep :: joined sep pieces

/-- The separator stands in front of all pieces but the first. -/
theorem joined_cons (sep : Char) (piece : List Char) (pieces : List (List Char)) :
    joined sep (piece :: pieces) = piece ++ (pieces.map (sep :: ·)).flatten := by
  induction pieces generalizing piece with
  | nil => simp [joined]
  | cons next pieces ih => simp [joined, ih]

theorem segments_ne_nil (sep : Char) (text : List Char) : segments sep text ≠ [] := by
  induction text with
  | nil => simp [segments]
  | cons c rest ih =>
    simp only [segments]
    split
    · simp
    · split <;> simp

theorem joined_segments (sep : Char) (text : List Char) :
    joined sep (segments sep text) = text := by
  induction text with
  | nil => rfl
  | cons c rest ih =>
    simp only [segments]
    split
    next h =>
      cases hs : segments sep rest with
      | nil => exact absurd hs (segments_ne_nil sep rest)
      | cons piece pieces => rw [hs] at ih; simp [joined, h, ih]
    next h =>
      cases hs : segments sep rest with
      | nil => exact absurd hs (segments_ne_nil sep rest)
      | cons piece pieces =>
        rw [hs] at ih
        cases pieces <;> simp_all [joined]

end ArtifactTree.Text
