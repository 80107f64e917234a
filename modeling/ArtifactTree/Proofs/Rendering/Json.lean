import ArtifactTree.Json
import Mathlib.Data.List.Basic

/-!
# Reading JSON

A reader for the values of `Json`, which is all that a record needs: strings, booleans, lists and
objects, with blanks and line breaks between them. It reads the text of every value back
(`read?_text`). A value may stand before any other text, so the reader gives what follows as well.

The reader may take as many steps as the text has characters, and every step takes one away.
-/

namespace ArtifactTree.Json

/-- Induction over values: what holds of all items of a list holds of the list, and the same for the
values of the members of an object. -/
theorem induction_on {motive : Json → Prop} (string : ∀ text, motive (.string text))
    (boolean : ∀ value, motive (.boolean value))
    (list : ∀ items, (∀ item ∈ items, motive item) → motive (.list items))
    (object : ∀ members, (∀ member ∈ members, motive member.2) → motive (.object members)) :
    ∀ value, motive value
  | .string text => string text
  | .boolean value => boolean value
  | .list items => list items fun item hitem =>
      have : sizeOf item < sizeOf items := List.sizeOf_lt_of_mem hitem
      induction_on string boolean list object item
  | .object members => object members fun member hmember =>
      have : sizeOf member < sizeOf members := List.sizeOf_lt_of_mem hmember
      have : sizeOf member.2 < sizeOf member := by cases member; simp only [Prod.mk.sizeOf_spec]; omega
      induction_on string boolean list object member.2
termination_by value => sizeOf value

/-! ## The reader -/

/-- A text without the blanks and line breaks it starts with. -/
def skip (text : List Char) : List Char :=
  text.dropWhile fun c => c = ' ' || c = '\n' || c = '\r' || c = '\t'

def hexDigit? (c : Char) : Option Nat := (List.range 16).find? fun n => Nat.digitChar n = c

/-- The character that a letter behind a backslash stands for. -/
def escaped? : Char → Option Char
  | '"' => some '"'
  | '\\' => some '\\'
  | '/' => some '/'
  | 'b' => some '\x08'
  | 'f' => some '\x0c'
  | 'n' => some '\n'
  | 'r' => some '\r'
  | 't' => some '\t'
  | _ => none

/-- The text up to the closing quote, and what follows the quote. -/
def readString : List Char → Option (List Char × List Char)
  | '"' :: rest => some ([], rest)
  | '\\' :: 'u' :: a :: b :: c :: d :: rest => do
    let code := 4096 * (← hexDigit? a) + 256 * (← hexDigit? b) + 16 * (← hexDigit? c) +
      (← hexDigit? d)
    let (text, rest) ← readString rest
    return (Char.ofNat code :: text, rest)
  | '\\' :: letter :: rest => do
    let c ← escaped? letter
    let (text, rest) ← readString rest
    return (c :: text, rest)
  | c :: rest => do
    let (text, rest) ← readString rest
    return (c :: text, rest)
  | [] => none

mutual

/-- Reads a value in at most `limit` steps. -/
def readValue : (limit : Nat) → List Char → Option (Json × List Char)
  | 0, _ => none
  | limit + 1, text =>
    match skip text with
    | '"' :: rest => do
      let (text, rest) ← readString rest
      return (.string (.ofList text), rest)
    | 't' :: 'r' :: 'u' :: 'e' :: rest => some (.boolean true, rest)
    | 'f' :: 'a' :: 'l' :: 's' :: 'e' :: rest => some (.boolean false, rest)
    | '[' :: rest =>
      match skip rest with
      | ']' :: rest => some (.list [], rest)
      | _ => do
        let (items, rest) ← readItems limit rest
        return (.list items, rest)
    | '\x7b' :: rest =>
      match skip rest with
      | '\x7d' :: rest => some (.object [], rest)
      | _ => do
        let (members, rest) ← readMembers limit rest
        return (.object members, rest)
    | _ => none

/-- Reads one or more items and the end of their list. -/
def readItems : (limit : Nat) → List Char → Option (List Json × List Char)
  | 0, _ => none
  | limit + 1, text => do
    let (item, rest) ← readValue limit text
    match skip rest with
    | ']' :: rest => return ([item], rest)
    | ',' :: rest =>
      let (items, rest) ← readItems limit rest
      return (item :: items, rest)
    | _ => none

/-- Reads one or more members and the end of their object. -/
def readMembers : (limit : Nat) → List Char → Option (List (String × Json) × List Char)
  | 0, _ => none
  | limit + 1, text =>
    match skip text with
    | '"' :: rest => do
      let (key, rest) ← readString rest
      match skip rest with
      | ':' :: rest =>
        let (value, rest) ← readValue limit rest
        match skip rest with
        | '\x7d' :: rest => return ([(.ofList key, value)], rest)
        | ',' :: rest =>
          let (members, rest) ← readMembers limit rest
          return ((.ofList key, value) :: members, rest)
        | _ => none
      | _ => none
    | _ => none

end

/-- Reads a text that is a value and nothing else. -/
def read? (text : String) : Option Json := do
  let (value, rest) ← readValue text.length text.toList
  guard (skip rest = [])
  return value

/-! ## Strings -/

theorem hexDigit?_digitChar : ∀ n < 16, hexDigit? (Nat.digitChar n) = some n := by decide

theorem readString_cons {c : Char} (hquote : c ≠ '"') (hslash : c ≠ '\\') (rest : List Char) :
    readString (c :: rest) = (readString rest).map fun (text, after) => (c :: text, after) := by
  rw [readString, Option.map_eq_bind]
  · rfl
  · exact hquote
  · exact fun _ _ _ _ _ h => absurd h hslash
  · exact fun _ _ h => absurd h hslash

theorem readString_letter {letter c : Char} (h : escaped? letter = some c) (rest : List Char) :
    readString ('\\' :: letter :: rest) =
      (readString rest).map fun (text, after) => (c :: text, after) := by
  have hu : letter ≠ 'u' := by
    rintro rfl
    cases h
  rw [readString, h]
  · rw [Option.map_eq_bind]
    rfl
  · intro _ _ _ _ _ heq
    exact absurd heq hu

theorem readString_code {code : Nat} (hcode : code < 256) (rest : List Char) :
    readString ('\\' :: 'u' :: '0' :: '0' :: Nat.digitChar (code / 16) ::
        Nat.digitChar (code % 16) :: rest) =
      (readString rest).map fun (text, after) => (Char.ofNat code :: text, after) := by
  have hzero : hexDigit? '0' = some 0 := by decide
  have hhigh := hexDigit?_digitChar (code / 16) (by omega)
  have hlow := hexDigit?_digitChar (code % 16) (by omega)
  have hsum : 4096 * 0 + 256 * 0 + 16 * (code / 16) + code % 16 = code := by omega
  simp only [readString, hzero, hhigh, hlow, Option.bind_eq_bind, Option.bind_some, hsum,
    Option.map_eq_bind]
  rfl

/-- A character is read from the way it is written. -/
theorem readString_stringChar (c : Char) (rest : List Char) :
    readString (stringChar c ++ rest) =
      (readString rest).map fun (text, after) => (c :: text, after) := by
  unfold stringChar
  split_ifs with hquote hslash h8 hc hn hr ht hcontrol
  · subst hquote
    exact readString_letter rfl rest
  · subst hslash
    exact readString_letter rfl rest
  · exact h8 ▸ readString_letter rfl rest
  · exact hc ▸ readString_letter rfl rest
  · exact hn ▸ readString_letter rfl rest
  · exact hr ▸ readString_letter rfl rest
  · exact ht ▸ readString_letter rfl rest
  · have hcode : c.toNat < 256 := Nat.lt_trans (show c.toNat < 32 from hcontrol) (by decide)
    have h := readString_code hcode rest
    rw [Char.ofNat_toNat] at h
    exact h
  · exact readString_cons hquote hslash rest

theorem readString_flatMap (text rest : List Char) :
    readString (text.flatMap stringChar ++ '"' :: rest) = some (text, rest) := by
  induction text with
  | nil => rfl
  | cons c text ih =>
    rw [List.flatMap_cons, List.append_assoc, readString_stringChar, ih]
    rfl

theorem toList_stringText (text : String) :
    (stringText text).toList = '"' :: (text.toList.flatMap stringChar ++ ['"']) := by
  simp [stringText]

/-! ## Blanks -/

theorem skip_cons {c : Char} (h : c ∉ [' ', '\n', '\r', '\t']) (rest : List Char) :
    skip (c :: rest) = c :: rest := by
  simp only [List.mem_cons, List.not_mem_nil, or_false, not_or] at h
  simp [skip, h]

theorem skip_lineStart (level : Nat) (text : List Char) :
    skip ((lineStart level).toList ++ text) = skip text := by
  have hblanks : ∀ n, skip (List.replicate n ' ' ++ text) = skip text := by
    intro n
    induction n with
    | zero => rfl
    | succ n ih => rw [List.replicate_succ, List.cons_append, ← ih]; rfl
  have htext : (lineStart level).toList = '\n' :: List.replicate (2 * level) ' ' := by
    rw [lineStart, String.toList_append]
    exact congrArg ('\n' :: ·) String.toList_ofList
  rw [htext, ← hblanks (2 * level)]
  rfl

theorem readValue_congr {text text' : List Char} (h : skip text = skip text') (limit : Nat) :
    readValue limit text = readValue limit text' := by
  cases limit with
  | zero => rfl
  | succ limit => simp only [readValue, h]

theorem readItems_congr {text text' : List Char} (h : skip text = skip text') (limit : Nat) :
    readItems limit text = readItems limit text' := by
  cases limit with
  | zero => rfl
  | succ limit => simp only [readItems, readValue_congr h]

theorem readMembers_congr {text text' : List Char} (h : skip text = skip text') (limit : Nat) :
    readMembers limit text = readMembers limit text' := by
  cases limit with
  | zero => rfl
  | succ limit => simp only [readMembers, h]

/-! ## The texts of values -/

theorem toList_render_list (level : Nat) (item : Json) (items : List Json) :
    ((list (item :: items)).render level).toList =
      '[' :: ((lineStart (level + 1)).toList ++ ((item.render (level + 1)).toList ++
        ((renderItems (level + 1) items).toList ++ ((lineStart level).toList ++ [']'])))) := by
  rw [render]
  simp only [String.toList_append, List.append_assoc]
  rfl

theorem toList_renderItems_cons (level : Nat) (item : Json) (items : List Json) :
    (renderItems level (item :: items)).toList =
      ',' :: ((lineStart level).toList ++ ((item.render level).toList ++
        (renderItems level items).toList)) := by
  rw [renderItems]
  simp only [String.toList_append, List.append_assoc]
  rfl

theorem toList_render_object (level : Nat) (key : String) (value : Json)
    (members : List (String × Json)) :
    ((object ((key, value) :: members)).render level).toList =
      '\x7b' :: ((lineStart (level + 1)).toList ++ ((stringText key).toList ++ (':' :: ' ' ::
        ((value.render (level + 1)).toList ++ ((renderMembers (level + 1) members).toList ++
          ((lineStart level).toList ++ ['\x7d'])))))) := by
  rw [render]
  simp only [String.toList_append, List.append_assoc]
  rfl

theorem toList_renderMembers_cons (level : Nat) (key : String) (value : Json)
    (members : List (String × Json)) :
    (renderMembers level ((key, value) :: members)).toList =
      ',' :: ((lineStart level).toList ++ ((stringText key).toList ++ (':' :: ' ' ::
        ((value.render level).toList ++ (renderMembers level members).toList)))) := by
  rw [renderMembers]
  simp only [String.toList_append, List.append_assoc]
  rfl

/-- The text of a value starts with what the value is, and not with the end of a list. -/
theorem exists_cons_render (value : Json) (level : Nat) :
    ∃ c rest, (value.render level).toList = c :: rest ∧ c ∉ [' ', '\n', '\r', '\t'] ∧ c ≠ ']' := by
  match value with
  | .string text => exact ⟨'"', _, by rw [render, toList_stringText], by decide, by decide⟩
  | .boolean true => exact ⟨'t', _, by rw [render]; rfl, by decide, by decide⟩
  | .boolean false => exact ⟨'f', _, by rw [render]; rfl, by decide, by decide⟩
  | .list [] => exact ⟨'[', _, by rw [render]; rfl, by decide, by decide⟩
  | .list (item :: items) => exact ⟨'[', _, toList_render_list .., by decide, by decide⟩
  | .object [] => exact ⟨'\x7b', _, by rw [render]; rfl, by decide, by decide⟩
  | .object ((key, member) :: members) =>
    exact ⟨'\x7b', _, toList_render_object .., by decide, by decide⟩

/-! ## Steps of the reader -/

section Steps

variable {limit : Nat} {text rest after : List Char}

theorem readValue_string :
    readValue (limit + 1) ('"' :: rest) =
      (readString rest).map fun (text, after) => (.string (.ofList text), after) := by
  rw [readValue, skip_cons (by decide), Option.map_eq_bind]
  rfl

theorem readValue_list (h : ∀ r, skip rest ≠ ']' :: r) :
    readValue (limit + 1) ('[' :: rest) =
      (readItems limit rest).map fun (items, after) => (.list items, after) := by
  rw [readValue, skip_cons (by decide), Option.map_eq_bind]
  simp only
  rfl

theorem readValue_object (h : ∀ r, skip rest ≠ '\x7d' :: r) :
    readValue (limit + 1) ('\x7b' :: rest) =
      (readMembers limit rest).map fun (members, after) => (.object members, after) := by
  rw [readValue, skip_cons (by decide), Option.map_eq_bind]
  simp only
  rfl

theorem readItems_last {item : Json} (hitem : readValue limit text = some (item, after))
    (hafter : skip after = ']' :: rest) : readItems (limit + 1) text = some ([item], rest) := by
  rw [readItems, hitem, Option.bind_eq_bind, Option.bind_some]
  simp only [hafter]
  rfl

theorem readItems_next {item : Json} {items : List Json} {final : List Char}
    (hitem : readValue limit text = some (item, after)) (hafter : skip after = ',' :: rest)
    (hitems : readItems limit rest = some (items, final)) :
    readItems (limit + 1) text = some (item :: items, final) := by
  rw [readItems, hitem, Option.bind_eq_bind, Option.bind_some]
  simp only [hafter, hitems]
  rfl

theorem readMembers_key (key : String) :
    readMembers (limit + 1) ((stringText key).toList ++ ':' :: rest) =
      (do
        let (value, rest) ← readValue limit rest
        match skip rest with
        | '\x7d' :: rest => return ([(key, value)], rest)
        | ',' :: rest =>
          let (members, rest) ← readMembers limit rest
          return ((key, value) :: members, rest)
        | _ => none) := by
  rw [toList_stringText, readMembers, List.cons_append, skip_cons (by decide)]
  simp only [List.append_assoc, List.singleton_append, readString_flatMap, Option.bind_eq_bind,
    Option.bind_some]
  rw [skip_cons (by decide), String.ofList_toList]
  rfl

theorem readMembers_last {key : String} {value : Json}
    (hvalue : readValue limit text = some (value, after)) (hafter : skip after = '\x7d' :: rest) :
    readMembers (limit + 1) ((stringText key).toList ++ ':' :: text) =
      some ([(key, value)], rest) := by
  rw [readMembers_key, hvalue, Option.bind_eq_bind, Option.bind_some]
  simp only [hafter]
  rfl

theorem readMembers_next {key : String} {value : Json} {members : List (String × Json)}
    {final : List Char} (hvalue : readValue limit text = some (value, after))
    (hafter : skip after = ',' :: rest) (hmembers : readMembers limit rest = some (members, final)) :
    readMembers (limit + 1) ((stringText key).toList ++ ':' :: text) =
      some ((key, value) :: members, final) := by
  rw [readMembers_key, hvalue, Option.bind_eq_bind, Option.bind_some]
  simp only [hafter, hmembers]
  rfl

end Steps

/-! ## Values -/

/-- A value is read back from its text at any level, whatever follows. -/
def ReadsBack (value : Json) : Prop :=
  ∀ (level limit : Nat) (rest : List Char), (value.render level).toList.length ≤ limit →
    readValue limit ((value.render level).toList ++ rest) = some (value, rest)

theorem readsBack_string (text : String) : ReadsBack (.string text) := by
  intro level limit rest hlimit
  rw [render, toList_stringText] at hlimit ⊢
  cases limit with
  | zero => cases hlimit
  | succ limit =>
    rw [List.cons_append, List.append_assoc, List.singleton_append, readValue_string,
      readString_flatMap, Option.map_some]
    simp only [String.ofList_toList]

theorem readsBack_boolean (value : Bool) : ReadsBack (.boolean value) := by
  intro level limit rest hlimit
  cases limit with
  | zero => cases value <;> simp [render] at hlimit
  | succ limit => cases value <;> simp [render, readValue, skip_cons]

/-- Items that are read back one by one are read back up to the end of their list. -/
theorem readItems_render {items : List Json} (hitems : ∀ item ∈ items, ReadsBack item)
    {item : Json} (hitem : ReadsBack item) (level outer limit : Nat) (rest : List Char)
    (hlimit : (item.render level).toList.length + (renderItems level items).toList.length < limit) :
    readItems limit ((item.render level).toList ++ ((renderItems level items).toList ++
      ((lineStart outer).toList ++ ']' :: rest))) = some (item :: items, rest) := by
  induction items generalizing item limit with
  | nil =>
    cases limit with
    | zero => cases hlimit
    | succ limit =>
      apply readItems_last (hitem level limit _ (by omega))
      rw [renderItems, String.toList_empty, List.nil_append, skip_lineStart, skip_cons (by decide)]
  | cons next items ih =>
    obtain ⟨hnext, hitems⟩ := List.forall_mem_cons.1 hitems
    -- the comma pays for the step to the next item
    rw [toList_renderItems_cons] at hlimit ⊢
    simp only [List.length_cons, List.length_append] at hlimit
    cases limit with
    | zero => cases hlimit
    | succ limit =>
      apply readItems_next (hitem level limit _ (by omega))
      · rw [List.cons_append, skip_cons (by decide)]
      · simp only [List.append_assoc]
        rw [readItems_congr (skip_lineStart level _)]
        exact ih hitems hnext limit (by omega)

/-- After a colon there is a blank. -/
theorem ReadsBack.blank {value : Json} (hvalue : ReadsBack value) {level limit : Nat}
    (hlimit : (value.render level).toList.length ≤ limit) (rest : List Char) :
    readValue limit (' ' :: ((value.render level).toList ++ rest)) = some (value, rest) := by
  rw [← hvalue level limit rest hlimit]
  apply readValue_congr
  rfl

theorem readMembers_render {members : List (String × Json)}
    (hmembers : ∀ member ∈ members, ReadsBack member.2) (key : String) {value : Json}
    (hvalue : ReadsBack value) (level outer limit : Nat) (rest : List Char)
    (hlimit : (value.render level).toList.length +
      (renderMembers level members).toList.length < limit) :
    readMembers limit ((stringText key).toList ++ (':' :: ' ' :: ((value.render level).toList ++
      ((renderMembers level members).toList ++ ((lineStart outer).toList ++ '\x7d' :: rest))))) =
        some ((key, value) :: members, rest) := by
  induction members generalizing key value limit with
  | nil =>
    cases limit with
    | zero => cases hlimit
    | succ limit =>
      apply readMembers_last (hvalue.blank (by omega) _)
      rw [renderMembers, String.toList_empty, List.nil_append, skip_lineStart,
        skip_cons (by decide)]
  | cons next members ih =>
    obtain ⟨hnext, hmembers⟩ := List.forall_mem_cons.1 hmembers
    rw [toList_renderMembers_cons] at hlimit ⊢
    simp only [List.length_cons, List.length_append] at hlimit
    cases limit with
    | zero => cases hlimit
    | succ limit =>
      apply readMembers_next (hvalue.blank (by omega) _)
      · rw [List.cons_append, skip_cons (by decide)]
      · simp only [List.append_assoc, List.cons_append]
        rw [readMembers_congr (skip_lineStart level _)]
        exact ih hmembers _ hnext limit (by omega)

theorem readsBack_list {items : List Json} (hitems : ∀ item ∈ items, ReadsBack item) :
    ReadsBack (.list items) := by
  intro level limit rest hlimit
  cases items with
  | nil =>
    cases limit with
    | zero => simp [render] at hlimit
    | succ limit => simp [render, readValue, skip_cons]
  | cons item items =>
    obtain ⟨hitem, hitems⟩ := List.forall_mem_cons.1 hitems
    rw [toList_render_list] at hlimit ⊢
    simp only [List.length_cons, List.length_append] at hlimit
    cases limit with
    | zero => cases hlimit
    | succ limit =>
      have hread := readItems_render hitems hitem (level + 1) level limit rest (by omega)
      obtain ⟨c, text, htext, hblank, hend⟩ := exists_cons_render item (level + 1)
      simp only [List.cons_append, List.append_assoc, List.nil_append]
      rw [readValue_list, readItems_congr (skip_lineStart _ _), hread]
      · rfl
      · -- the list is not taken for an empty one
        intro r
        rw [skip_lineStart, htext, List.cons_append, skip_cons hblank]
        exact fun h => hend (List.cons.inj h).1

theorem readsBack_object {members : List (String × Json)}
    (hmembers : ∀ member ∈ members, ReadsBack member.2) : ReadsBack (.object members) := by
  intro level limit rest hlimit
  cases members with
  | nil =>
    cases limit with
    | zero => simp [render] at hlimit
    | succ limit => simp [render, readValue, skip_cons]
  | cons member members =>
    obtain ⟨hmember, hmembers⟩ := List.forall_mem_cons.1 hmembers
    rw [toList_render_object] at hlimit ⊢
    simp only [List.length_cons, List.length_append] at hlimit
    cases limit with
    | zero => cases hlimit
    | succ limit =>
      have hread :=
        readMembers_render hmembers member.1 hmember (level + 1) level limit rest (by omega)
      simp only [List.cons_append, List.append_assoc, List.nil_append]
      rw [readValue_object, readMembers_congr (skip_lineStart _ _), hread]
      · rfl
      · intro r
        rw [skip_lineStart, toList_stringText, List.cons_append, skip_cons (by decide)]
        exact fun h => absurd (List.cons.inj h).1 (by decide)

/-- **Every value is read back from its text.** -/
theorem readsBack (value : Json) : ReadsBack value := by
  induction value using induction_on with
  | string text => exact readsBack_string text
  | boolean value => exact readsBack_boolean value
  | list items hitems => exact readsBack_list hitems
  | object members hmembers => exact readsBack_object hmembers

theorem read?_text (value : Json) : read? value.text = some value := by
  have htext : value.text.toList = (value.render 0).toList ++ ['\n'] := String.toList_append
  have hlimit : (value.render 0).toList.length ≤ value.text.length := by
    rw [← String.length_toList, htext, List.length_append]
    exact Nat.le_add_right _ _
  rw [read?, htext, readsBack value 0 _ _ hlimit, Option.bind_eq_bind, Option.bind_some]
  rfl

end ArtifactTree.Json
