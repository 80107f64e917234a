import ArtifactTree.Proofs.Rendering.Document

/-!
# Entities, written and read

Escaping looks at one character at a time (`Render.escapeXml`). Substituting an entity for each marked
character in the whole text, one character after the other, comes to the same as long as the ampersand
goes first: the entities themselves start with one. Reading goes the other way, the ampersand last, or
`&amp;lt;` would come back as `<`.

What holds between two substitutions is that some of the marked characters are written as entities and
the others as they are (`Graphml.escapeOnly`). Each substitution moves one character from the one side to
the other, and the ampersand is an entity as long as any other is.

Main statement: `Graphml.lossless`.
-/

namespace ArtifactTree

/-! ## Substitution in a text -/

namespace Text

/-- A text with `new` for each occurrence of `old`, found from left to right; the first `skip` characters
belong to an occurrence that is written already. -/
def replaceFrom (old new : List Char) : Nat → List Char → List Char
  | _, [] => []
  | skip + 1, _ :: text => replaceFrom old new skip text
  | 0, c :: text =>
    if old.isPrefixOf (c :: text) then new ++ replaceFrom old new (old.length - 1) text
    else c :: replaceFrom old new 0 text

/-- A text with `new` for each occurrence of `old`, which is not empty. Occurrences do not overlap. -/
def replaceAll (old new text : List Char) : List Char := replaceFrom old new 0 text

variable {old new text : List Char}

theorem replaceFrom_append (done : List Char) :
    replaceFrom old new done.length (done ++ text) = replaceAll old new text := by
  induction done with
  | nil => rfl
  | cons c done ih => exact ih

theorem replaceAll_occurrence (first : Char) (more : List Char) :
    replaceAll (first :: more) new (first :: more ++ text) =
      new ++ replaceAll (first :: more) new text := by
  have hfound : (first :: more).isPrefixOf (first :: (more ++ text)) :=
    List.isPrefixOf_iff_prefix.2 (List.prefix_append (first :: more) text)
  unfold replaceAll
  rw [List.cons_append, replaceFrom, if_pos hfound]
  exact congrArg (new ++ ·) (replaceFrom_append more)

theorem replaceAll_cons {c : Char} (h : ¬ old <+: c :: text) :
    replaceAll old new (c :: text) = c :: replaceAll old new text := by
  unfold replaceAll
  rw [replaceFrom, if_neg (mt List.isPrefixOf_iff_prefix.1 h)]

/-- No occurrence starts where its first character does not stand. -/
theorem replaceAll_append {first : Char} {more done : List Char} (h : first ∉ done) :
    replaceAll (first :: more) new (done ++ text) =
      done ++ replaceAll (first :: more) new text := by
  induction done with
  | nil => rfl
  | cons c done ih =>
    obtain ⟨hne, hdone⟩ := not_or.1 (mt List.mem_cons.2 h)
    have hfound : ¬ first :: more <+: c :: (done ++ text) :=
      fun hfound => hne (List.cons_prefix_cons.1 hfound).1
    rw [List.cons_append, replaceAll_cons hfound, ih hdone, List.cons_append]

/-- To replace a character is to look at each character alone. -/
theorem replaceAll_singleton (c : Char) :
    replaceAll [c] new text = text.flatMap fun d => if d = c then new else [d] := by
  induction text with
  | nil => rfl
  | cons d text ih =>
    rw [List.flatMap_cons, ← ih]
    split
    · next heq => exact heq ▸ replaceAll_occurrence c []
    · next hne =>
      have hfound : ¬ [c] <+: d :: text :=
        fun hfound => hne (List.cons_prefix_cons.1 hfound).1.symm
      exact replaceAll_cons hfound

end Text

namespace Graphml

open Text

/-! ## The marked characters -/

/-- The characters that have an entity, with their entities, in the order in which they are replaced. -/
def marks : List (Char × String) := ['&', '<', '>', '"', '\''].zip entities

/-- The characters that have an entity. -/
def marked : List Char := marks.map Prod.fst

theorem xmlChar_of_mem_marks : ∀ mark ∈ marks, Render.xmlChar mark.1 = mark.2.toList := by decide

theorem xmlChar_of_not_mem_marked {c : Char} (h : c ∉ marked) : Render.xmlChar c = [c] := by
  simp only [marked, marks, entities, List.zip_cons_cons, List.zip_nil_right, List.map_cons,
    List.map_nil, List.mem_cons, List.not_mem_nil, or_false, not_or] at h
  unfold Render.xmlChar
  rw [if_neg h.1, if_neg h.2.1, if_neg h.2.2.1, if_neg h.2.2.2.1, if_neg h.2.2.2.2]

/-- Only the first character of an entity is an ampersand. -/
theorem xmlChar_eq_cons : ∀ c ∈ marked,
    ∃ more, Render.xmlChar c = '&' :: more ∧ '&' ∉ more := by
  have hstart : ∀ mark ∈ marks, Render.xmlChar mark.1 = '&' :: (Render.xmlChar mark.1).tail ∧
      '&' ∉ (Render.xmlChar mark.1).tail := by decide
  exact List.forall_mem_map.2 fun mark hmark => ⟨_, hstart mark hmark⟩

/-- No entity is the start of another one. -/
theorem xmlChar_prefixFree : ∀ c ∈ marked, ∀ d ∈ marked,
    Render.xmlChar c <+: Render.xmlChar d → c = d := by
  have hpairs : ∀ mark ∈ marks, ∀ mark' ∈ marks,
      Render.xmlChar mark.1 <+: Render.xmlChar mark'.1 → mark.1 = mark'.1 := by decide
  exact List.forall_mem_map.2 fun mark hmark => List.forall_mem_map.2 (hpairs mark hmark)

/-! ## One character after the other -/

/-- A text with the marked characters replaced by their entities, one after the other. -/
def escapeInTurn (text : List Char) : List Char :=
  marks.foldl (fun text mark => replaceAll [mark.1] mark.2.toList text) text

/-- A text with the entities replaced by their characters, one after the other, the ampersand last. -/
def unescapeInTurn (text : List Char) : List Char :=
  (marks.rotate 1).foldl (fun text mark => replaceAll mark.2.toList [mark.1] text) text

/-- A character as text of an element where only some characters are escaped. -/
def escapeOnly (done : List Char) (c : Char) : List Char :=
  if c ∈ done then Render.xmlChar c else [c]

/-- Another character is escaped, the first one or one that is markup. -/
theorem replaceAll_escapeOnly {done : List Char} {c : Char}
    (hc : done = [] ∨ c ∈ ['<', '>', '"', '\'']) (text : List Char) :
    replaceAll [c] (Render.xmlChar c) (text.flatMap (escapeOnly done)) =
      text.flatMap (escapeOnly (done ++ [c])) := by
  rw [replaceAll_singleton, List.flatMap_assoc]
  refine List.flatMap_congr fun d _ => ?_
  by_cases hd : d ∈ done
  · have hfree : c ∉ Render.xmlChar d :=
      not_mem_xmlChar (hc.resolve_left (List.ne_nil_of_mem hd)) d
    have hkept : ∀ e ∈ Render.xmlChar d, (if e = c then Render.xmlChar c else [e]) = [e] :=
      fun e he => if_neg (ne_of_mem_of_not_mem he hfree)
    rw [escapeOnly, escapeOnly, if_pos hd, if_pos (List.mem_append_left _ hd),
      List.flatMap_congr hkept, List.flatMap_singleton']
  · have hmem : d ∈ done ++ [c] ↔ d = c := by simp [hd]
    rw [escapeOnly, escapeOnly, if_neg hd, List.flatMap_singleton]
    simp only [hmem]
    split
    · next heq => rw [heq]
    · rfl

/-- Another character is read back, before the ampersand. -/
theorem replaceAll_xmlChar_escapeOnly {done : List Char} {c : Char} (hdone : ∀ d ∈ done, d ∈ marked)
    (hamp : '&' ∈ c :: done) (hc : c ∈ marked) (hnew : c ∉ done) (text : List Char) :
    replaceAll (Render.xmlChar c) [c] (text.flatMap (escapeOnly (c :: done))) =
      text.flatMap (escapeOnly done) := by
  obtain ⟨more, hentity, -⟩ := xmlChar_eq_cons c hc
  rw [hentity]
  induction text with
  | nil => rfl
  | cons d text ih =>
    rw [List.flatMap_cons, List.flatMap_cons, ← ih, escapeOnly, escapeOnly]
    by_cases hd : d = c
    · rw [if_pos (hd ▸ List.mem_cons_self), if_neg (hd ▸ hnew), hd, hentity]
      exact replaceAll_occurrence '&' more
    have hmem : d ∈ c :: done ↔ d ∈ done := by simp [hd]
    simp only [hmem]
    split
    · next hd' =>
      obtain ⟨more', hentity', hfree⟩ := xmlChar_eq_cons d (hdone d hd')
      have hfound : ¬ '&' :: more <+: '&' :: (more' ++ text.flatMap (escapeOnly (c :: done))) := by
        intro hfound
        rw [← List.cons_append, ← hentity, ← hentity'] at hfound
        have hd'' := hdone d hd'
        rcases List.prefix_or_prefix_of_prefix hfound (List.prefix_append _ _) with hpre | hpre
        · exact hd (xmlChar_prefixFree c hc d hd'' hpre).symm
        · exact hd (xmlChar_prefixFree d hd'' c hc hpre)
      rw [hentity', List.cons_append, replaceAll_cons hfound, replaceAll_append hfree,
        List.cons_append]
    · next hd' =>
      have hfree : '&' ∉ [d] := fun hmem' =>
        (mt hmem.1 hd') (List.mem_singleton.1 hmem' ▸ hamp)
      exact replaceAll_append hfree

/-- The marks behind the ampersand are escaped one after the other. -/
theorem foldl_escapeOnly {todo : List (Char × String)} {done : List Char}
    (htodo : ∀ mark ∈ todo, mark ∈ marks ∧ mark.1 ∈ ['<', '>', '"', '\'']) (text : List Char) :
    todo.foldl (fun text mark => replaceAll [mark.1] mark.2.toList text)
        (text.flatMap (escapeOnly done)) =
      text.flatMap (escapeOnly (done ++ todo.map Prod.fst)) := by
  induction todo generalizing done with
  | nil => rw [List.foldl_nil, List.map_nil, List.append_nil]
  | cons mark todo ih =>
    obtain ⟨⟨hmark, hmarkup⟩, htodo⟩ := List.forall_mem_cons.1 htodo
    rw [List.foldl_cons, ← xmlChar_of_mem_marks mark hmark, replaceAll_escapeOnly (.inr hmarkup),
      ih htodo, List.append_assoc, List.map_cons, List.singleton_append]

/-- The marks behind the ampersand are read back one after the other. -/
theorem foldl_unescapeOnly {todo : List (Char × String)} {done : List Char}
    (htodo : ∀ mark ∈ todo, mark ∈ marks) (hnew : (todo.map Prod.fst ++ done).Nodup)
    (hdone : ∀ d ∈ done, d ∈ marked) (hamp : '&' ∈ done) (text : List Char) :
    todo.foldl (fun text mark => replaceAll mark.2.toList [mark.1] text)
        (text.flatMap (escapeOnly (todo.map Prod.fst ++ done))) =
      text.flatMap (escapeOnly done) := by
  induction todo with
  | nil => rfl
  | cons mark todo ih =>
    obtain ⟨hmark, htodo⟩ := List.forall_mem_cons.1 htodo
    obtain ⟨hmark', hnew⟩ := List.nodup_cons.1 hnew
    have hrest : ∀ d ∈ todo.map Prod.fst ++ done, d ∈ marked :=
      List.forall_mem_append.2
        ⟨List.forall_mem_map.2 fun mark' h => List.mem_map_of_mem (htodo mark' h), hdone⟩
    have hamp' : '&' ∈ mark.1 :: (todo.map Prod.fst ++ done) :=
      List.mem_cons_of_mem _ (List.mem_append_right _ hamp)
    rw [List.foldl_cons, ← xmlChar_of_mem_marks mark hmark, List.map_cons, List.cons_append,
      replaceAll_xmlChar_escapeOnly hrest hamp' (List.mem_map_of_mem hmark) hmark', ih htodo hnew]

/-- With all marked characters escaped nothing is left to do. -/
theorem flatMap_escapeOnly {done : List Char} (h : marked ⊆ done) (text : List Char) :
    text.flatMap (escapeOnly done) = text.flatMap Render.xmlChar := by
  refine List.flatMap_congr fun c _ => ?_
  unfold escapeOnly
  split
  · rfl
  · next hc => exact (xmlChar_of_not_mem_marked (mt (fun hmem => h hmem) hc)).symm

theorem escapeInTurn_eq (text : List Char) : escapeInTurn text = text.flatMap Render.xmlChar := by
  have htail : ∀ mark ∈ marks.tail, mark ∈ marks ∧ mark.1 ∈ ['<', '>', '"', '\''] := by decide
  have hstart : text.flatMap (escapeOnly []) = text := List.flatMap_singleton' text
  have hamp : replaceAll ['&'] "&amp;".toList text = text.flatMap (escapeOnly ['&']) := by
    conv_lhs => rw [← hstart]
    exact replaceAll_escapeOnly (.inl rfl) text
  have hrest : marks.tail.foldl (fun text mark => replaceAll [mark.1] mark.2.toList text)
      (text.flatMap (escapeOnly ['&'])) = text.flatMap (escapeOnly marked) :=
    foldl_escapeOnly htail text
  calc escapeInTurn text
    _ = marks.tail.foldl (fun text mark => replaceAll [mark.1] mark.2.toList text)
          (replaceAll ['&'] "&amp;".toList text) := rfl
    _ = text.flatMap (escapeOnly marked) := by rw [hamp, hrest]
    _ = text.flatMap Render.xmlChar := flatMap_escapeOnly (List.Subset.refl _) text

theorem unescapeInTurn_flatMap (text : List Char) :
    unescapeInTurn (text.flatMap Render.xmlChar) = text := by
  have hall : marked ⊆ marks.tail.map Prod.fst ++ ['&'] := by decide
  have hrest : marks.tail.foldl (fun text mark => replaceAll mark.2.toList [mark.1] text)
      (text.flatMap (escapeOnly (marks.tail.map Prod.fst ++ ['&']))) =
        text.flatMap (escapeOnly ['&']) :=
    foldl_unescapeOnly (by decide) (by decide) (List.forall_mem_singleton.2 (by decide)) (by decide)
      text
  have hamp : replaceAll (Render.xmlChar '&') ['&'] (text.flatMap (escapeOnly ['&'])) =
      text.flatMap (escapeOnly []) :=
    replaceAll_xmlChar_escapeOnly (List.forall_mem_nil _) (by decide) (by decide)
      List.not_mem_nil text
  calc unescapeInTurn (text.flatMap Render.xmlChar)
    _ = replaceAll (Render.xmlChar '&') ['&'] (marks.tail.foldl
          (fun text mark => replaceAll mark.2.toList [mark.1] text)
          (text.flatMap Render.xmlChar)) := rfl
    _ = text.flatMap (escapeOnly []) := by rw [← flatMap_escapeOnly hall, hrest, hamp]
    _ = text := List.flatMap_singleton' text

/-! ## Escaping -/

theorem escapeXml_append (text text' : String) :
    Render.escapeXml (text ++ text') = Render.escapeXml text ++ Render.escapeXml text' := by
  refine String.toList_inj.1 ?_
  rw [toList_escapeXml, String.toList_append, String.toList_append, List.flatMap_append,
    toList_escapeXml, toList_escapeXml]

/-- What escaping keeps of a text, and what it takes out. -/
structure Lossless (text : String) : Prop where
  markup : ∀ c ∈ ['<', '>', '"', '\''], c ∉ (Render.escapeXml text).toList
  entity : ∀ before after, (Render.escapeXml text).toList = before ++ '&' :: after →
    ∃ entity ∈ entities, entity.toList <+: '&' :: after
  /-- Five substitutions in the whole text, the ampersand first. -/
  escaped_in_turn : (Render.escapeXml text).toList = escapeInTurn text.toList
  /-- Read in one pass from left to right. -/
  unescaped : unescapeXml (Render.escapeXml text).toList = text.toList
  /-- Read by five substitutions, the ampersand last. -/
  unescaped_in_turn : unescapeInTurn (Render.escapeXml text).toList = text.toList
  append : ∀ more, Render.escapeXml (text ++ more) = Render.escapeXml text ++ Render.escapeXml more

theorem lossless (text : String) : Lossless text where
  markup _ hc := not_mem_escapeXml hc text
  entity := (elementText_escapeXml text).entity
  escaped_in_turn := by rw [toList_escapeXml, escapeInTurn_eq]
  unescaped := by rw [toList_escapeXml, unescapeXml_flatMap]
  unescaped_in_turn := by rw [toList_escapeXml, unescapeInTurn_flatMap]
  append := escapeXml_append text

/-- With the ampersand first, a text that looks like an entity comes back as another one. -/
example : marks.foldl (fun text mark => replaceAll mark.2.toList [mark.1] text) "&amp;lt;".toList =
    "<".toList ∧ unescapeInTurn "&amp;lt;".toList = "&lt;".toList := by decide

end Graphml

end ArtifactTree
