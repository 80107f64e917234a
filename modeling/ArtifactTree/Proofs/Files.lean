import ArtifactTree.FileTree

/-!
# Writing a file and reading it

A write that succeeds puts a file at the place to which the path leads. On the way there are only
directories, and no file takes the place of a directory, so the path leads to the same place
afterwards and the text is read back (`read_of_write`). Whether a write succeeds is decided without a
look at the text (`exists_write`).
-/

namespace ArtifactTree.FileTree

variable {t : FileTree} {p : Path} {place : Place}

/-- A place without a directory is not one of those that are always there. -/
theorem isAnchor_eq_false (h : t.find? place ≠ some .directory) : isAnchor place = false := by
  rw [← Bool.not_eq_true]
  exact fun hanchor => h (by rw [find?, if_pos hanchor])

/-- A change of what is no directory does not change where a path leads. -/
theorem follow_assign (hplace : t.find? place ≠ some .directory) (entry : FileEntry)
    {start target : Place} {steps : List String} (h : t.follow start steps = .ok target) :
    (t.assign place entry).follow start steps = .ok target := by
  induction steps generalizing start with
  | nil => exact h
  | cons step steps ih =>
    rw [follow] at h ⊢
    cases hstart : t.find? start with
    | none => rw [hstart] at h; cases h
    | some found =>
      cases found with
      | file content => rw [hstart] at h; cases h
      | directory =>
        have hne : start ≠ place := fun heq => hplace (heq ▸ hstart)
        rw [find?_assign_of_ne t entry hne, hstart]
        rw [hstart] at h
        dsimp only at h ⊢
        split at h
        next hup => rw [if_pos hup]; exact ih h
        next hup =>
          split at h
          next => cases h
          next hlength => rw [if_neg hup, if_neg hlength]; exact ih h

theorem locate_eq_ok :
    t.locate p = .ok place ↔ checkPath p = .ok () ∧ t.follow (anchor p) p.steps = .ok place := by
  rw [locate]
  cases checkPath p with
  | error fault => simp [bind, Except.bind]
  | ok _ => simp [bind, Except.bind]

theorem locate_assign (hplace : t.find? place ≠ some .directory) (entry : FileEntry)
    (h : t.locate p = .ok place) : (t.assign place entry).locate p = .ok place := by
  obtain ⟨hcheck, hfollow⟩ := locate_eq_ok.1 h
  exact locate_eq_ok.2 ⟨hcheck, follow_assign hplace entry hfollow⟩

theorem write_eq_ok {text : String} {t' : FileTree} :
    t.write p text = .ok t' ↔
      p.ending = .step ∧ ∃ place, t.locate p = .ok place ∧ t.find? place ≠ some .directory ∧
        t' = t.assign place (.file text.toUTF8) := by
  rw [write]
  cases hending : p.ending with
  | slashed =>
    simp only [reduceCtorEq, false_and, iff_false]
    cases checkPath p with
    | error _ => exact fun h => nomatch h
    | ok _ =>
      cases t.follow (anchor p) p.steps.dropLast with
      | error _ => simp [bind, Except.bind]
      | ok start => cases henter : t.enter start <;> simp [henter, bind, Except.bind]
  | idle =>
    simp only [reduceCtorEq, false_and, iff_false]
    cases t.entry p <;> exact fun h => nomatch h
  | step =>
    simp only [true_and]
    cases hlocate : t.locate p with
    | error _ => simp [bind, Except.bind]
    | ok place =>
      simp only [bind, Except.bind, Except.ok.injEq, exists_eq_left']
      cases hfound : t.find? place with
      | none => simp [pure, Except.pure, eq_comm]
      | some found => cases found <;> simp [pure, Except.pure, eq_comm]

theorem fromUTF8?_toUTF8 (text : String) : String.fromUTF8? text.toUTF8 = some text := by
  have hvalid : text.toUTF8.IsValidUTF8 := text.isValidUTF8
  rw [String.fromUTF8?, dif_pos hvalid]
  rfl

/-- What was written is read. -/
theorem read_of_write {text : String} {t' : FileTree} (h : t.write p text = .ok t') :
    t'.read p = .ok text := by
  obtain ⟨hending, place, hlocate, hplace, rfl⟩ := write_eq_ok.1 h
  have hnames : p.namesDirectory = false := by rw [Path.namesDirectory, hending]; rfl
  have hentry : (t.assign place (.file text.toUTF8)).entry p = .ok (.file text.toUTF8) := by
    rw [entry, locate_assign hplace _ hlocate]
    simp [bind, Except.bind, find?_assign_self t _ (isAnchor_eq_false hplace), hnames, pure,
      Except.pure]
  rw [read, hentry]
  simp only [bind, Except.bind, fromUTF8?_toUTF8]
  rfl

/-- Where one text can be written, every text can. -/
theorem exists_write {text : String} {t' : FileTree} (h : t.write p text = .ok t') (text' : String) :
    ∃ t'', t.write p text' = .ok t'' := by
  obtain ⟨hending, place, hlocate, hplace, -⟩ := write_eq_ok.1 h
  exact ⟨_, write_eq_ok.2 ⟨hending, place, hlocate, hplace, rfl⟩⟩

end ArtifactTree.FileTree
