import ArtifactTree.Proofs.Conversion
import ArtifactTree.Proofs.Patterns
import ArtifactTree.Proofs.Rendering.Labels

/-!
# The grammar of manifests

What the texts of a section may look like: dots cut a group into words, names, types and classifiers
are words that may have dots, versions have no blanks and no colons, and scopes have one of five
names. Groups and tokens are also the texts in which an anchored pattern occurs
(`occurs_groupPattern_iff`, `occurs_tokenPattern_iff`). For groups that is where a repetition of words
behind dots meets the cutting at dots (`mem_separated_iff`).

Main statement: `Validation.accepts_exactly`. A section is accepted exactly if it follows the grammar.
So no character too much at an end of a text is overlooked, not even a line break. Exclusions only
have to have a colon, and what stands around it is free.
-/

namespace ArtifactTree

open Accepted Validation

/-- `long` is `short` with the character `c` put at one of its ends. -/
def Text.Padded (c : Char) (short long : String) : Prop :=
  long = short.push c ∨ long = String.singleton c ++ short

theorem Text.Padded.mem {c : Char} {short long : String} (h : Text.Padded c short long) :
    c ∈ long.toList := by
  rcases h with rfl | rfl <;> simp

namespace Grammar

/-! ## Characters -/

/-- The characters of `[A-Za-z0-9_-]`. -/
def segmentClass : CharClass := ⟨[('A', 'Z'), ('a', 'z'), ('0', '9'), ('_', '_'), ('-', '-')]⟩

/-- The characters of `[A-Za-z0-9_.-]`. -/
def tokenClass : CharClass :=
  ⟨[('A', 'Z'), ('a', 'z'), ('0', '9'), ('_', '_'), ('.', '.'), ('-', '-')]⟩

def dotClass : CharClass := ⟨[('.', '.')]⟩

theorem mem_range_self_iff {a c : Char} : a ≤ c ∧ c ≤ a ↔ c = a := by
  constructor
  · rintro ⟨hlow, hhigh⟩
    exact Char.le_antisymm hhigh hlow
  · rintro rfl
    exact ⟨Char.le_refl c, Char.le_refl c⟩

theorem mem_dotClass {c : Char} : c ∈ dotClass ↔ c = '.' := by
  simp only [CharClass.mem_iff, dotClass, List.mem_singleton, exists_eq_left, mem_range_self_iff]

theorem isAlphanum_iff {c : Char} :
    c.isAlphanum = true ↔ 'A' ≤ c ∧ c ≤ 'Z' ∨ 'a' ≤ c ∧ c ≤ 'z' ∨ '0' ≤ c ∧ c ≤ '9' := by
  unfold Char.isAlphanum Char.isAlpha Char.isUpper Char.isLower Char.isDigit
  simp only [Bool.or_eq_true, Bool.and_eq_true, decide_eq_true_eq, Char.le_def, ge_iff_le, or_assoc]

theorem isSegmentChar_iff {c : Char} : isSegmentChar c = true ↔ c ∈ segmentClass := by
  simp only [isSegmentChar, CharClass.mem_iff, segmentClass, Bool.or_eq_true, decide_eq_true_eq,
    isAlphanum_iff, List.mem_cons, List.not_mem_nil, or_false, exists_eq_or_imp, exists_eq_left,
    mem_range_self_iff, or_assoc]

theorem isTokenChar_iff {c : Char} : isTokenChar c = true ↔ c ∈ tokenClass := by
  simp only [isTokenChar, isSegmentChar, CharClass.mem_iff, tokenClass, Bool.or_eq_true,
    decide_eq_true_eq, isAlphanum_iff, List.mem_cons, List.not_mem_nil, or_false, exists_eq_or_imp,
    exists_eq_left, mem_range_self_iff, or_assoc]
  tauto

/-! ## Texts -/

/-- Dots cut the text into words of letters, digits, `_` and `-`. There is always at least one piece,
so this does not hold of the empty text. -/
def GroupText (text : String) : Prop :=
  ∀ word ∈ Text.segments '.' text.toList, word ≠ [] ∧ ∀ c ∈ word, c ∈ segmentClass

/-- A word of letters, digits, `_`, `.` and `-`. -/
def TokenText (text : String) : Prop := text ≠ "" ∧ ∀ c ∈ text.toList, c ∈ tokenClass

/-- Not empty, and without white space and colons. -/
def VersionText (text : String) : Prop :=
  text ≠ "" ∧ ∀ c ∈ text.toList, Text.isBlank c = false ∧ c ≠ ':'

def scopeNames : List String := ["compile", "provided", "runtime", "test", "system"]

variable {text : String}

theorem isGroup_iff : isGroup text = true ↔ GroupText text := by
  simp only [isGroup_eq, List.all_eq_true, isSegment, Bool.and_eq_true, Bool.not_eq_true',
    List.isEmpty_eq_false_iff, isSegmentChar_iff, GroupText]

theorem isToken_iff : isToken text = true ↔ TokenText text := by
  simp only [isToken, Bool.and_eq_true, Bool.not_eq_true', List.isEmpty_eq_false_iff, List.all_eq_true,
    isTokenChar_iff, TokenText, ne_eq, String.toList_eq_nil_iff]

theorem isVersion_iff : isVersion text = true ↔ VersionText text := by
  simp only [isVersion, Bool.and_eq_true, Bool.not_eq_true', List.isEmpty_eq_false_iff,
    List.all_eq_true, bne_iff_ne, VersionText, ne_eq, String.toList_eq_nil_iff]

theorem mem_scopeNames_iff : text ∈ scopeNames ↔ ∃ scope : Scope, scope.name = text := by
  constructor
  · intro h
    have hnames : scopeNames = Scope.all.map Scope.name := rfl
    obtain ⟨scope, -, hname⟩ := List.mem_map.1 (hnames ▸ h)
    exact ⟨scope, hname⟩
  · rintro ⟨scope, rfl⟩
    cases scope <;> simp [scopeNames, Scope.name]

/-- Reading a scope succeeds for the five names only. -/
theorem exists_parse_ok_iff : (∃ scope, Scope.parse text = .ok scope) ↔ text ∈ scopeNames := by
  rw [mem_scopeNames_iff]
  unfold Scope.parse
  constructor
  · rintro ⟨scope, h⟩
    cases hfound : Scope.ofName? text with
    | none =>
      rw [hfound] at h
      cases h
    | some found => exact ⟨found, Scope.name_of_ofName? hfound⟩
  · rintro ⟨scope, rfl⟩
    exact ⟨scope, by rw [Scope.ofName?_name]⟩

/-! ## Patterns -/

/-- The pattern `^[A-Za-z0-9_-]+(\.[A-Za-z0-9_-]+)*$`. -/
def groupPattern : Pattern :=
  let word := (Pattern.oneOf segmentClass).oneOrMore
  (word.followedBy ((Pattern.oneOf dotClass).followedBy word).anyNumber).anchored

/-- The pattern `^[A-Za-z0-9_.-]+$`. -/
def tokenPattern : Pattern := (Pattern.oneOf tokenClass).oneOrMore.anchored

open Computability in
/-- A word and any number of separators with a word behind each: the texts that the separator cuts into
words. -/
theorem mem_separated_iff {sep : Char} {seps words : Language Char} {text : List Char}
    (hseps : ∀ piece, piece ∈ seps ↔ piece = [sep]) (hwords : ∀ word ∈ words, sep ∉ word) :
    text ∈ words * (seps * words)∗ ↔ ∀ word ∈ Text.segments sep text, word ∈ words := by
  constructor
  · intro h
    obtain ⟨word, hword, _, hrest, rfl⟩ := Language.mem_mul.1 h
    obtain ⟨pieces, rfl, hpieces⟩ := Language.mem_kstar.1 hrest
    clear h hrest
    -- What stands behind a separator is again a word with pieces behind it, so the word has to vary.
    induction pieces generalizing word with
    | nil =>
      rw [List.flatten_nil, List.append_nil, Text.segments_of_not_mem (hwords word hword)]
      exact List.forall_mem_singleton.2 hword
    | cons piece pieces ih =>
      obtain ⟨hpiece, hrest⟩ := List.forall_mem_cons.1 hpieces
      obtain ⟨mark, hmark, next, hnext, rfl⟩ := Language.mem_mul.1 hpiece
      obtain rfl := (hseps mark).1 hmark
      rw [List.flatten_cons, List.append_assoc, List.singleton_append,
        Text.segments_append (hwords word hword)]
      exact List.forall_mem_cons.2 ⟨hword, ih next hnext hrest⟩
  · intro h
    rw [← Text.joined_segments sep text]
    cases hcut : Text.segments sep text with
    | nil => exact absurd hcut (Text.segments_ne_nil sep text)
    | cons word rest =>
      rw [hcut] at h
      obtain ⟨hword, hrest⟩ := List.forall_mem_cons.1 h
      rw [Text.joined_cons]
      refine Language.append_mem_mul hword (Language.join_mem_kstar fun piece hpiece => ?_)
      obtain ⟨next, hnext, rfl⟩ := List.mem_map.1 hpiece
      exact Language.append_mem_mul ((hseps [sep]).2 rfl) (hrest next hnext)

theorem mem_letters_dotClass {piece : List Char} : piece ∈ dotClass.letters ↔ piece = ['.'] := by
  simp only [CharClass.mem_letters, mem_dotClass, exists_eq_left]

theorem occurs_groupPattern_iff : groupPattern.Occurs text ↔ GroupText text := by
  have hword := Pattern.Denotes.words segmentClass
  have hrest := ((Pattern.Denotes.oneOf dotClass).followedBy hword).anyNumber
  have hdot : ∀ word ∈ segmentClass.words, '.' ∉ word := fun word hword hmem =>
    absurd (hword.2 '.' hmem) (by decide)
  rw [groupPattern, (hword.followedBy hrest).occurs_anchored_iff]
  exact mem_separated_iff (fun _ => mem_letters_dotClass) hdot

theorem occurs_tokenPattern_iff : tokenPattern.Occurs text ↔ TokenText text := by
  rw [tokenPattern, (Pattern.Denotes.words tokenClass).occurs_anchored_iff, CharClass.mem_words,
    TokenText, ne_eq, String.toList_eq_nil_iff]

/-- A text without blanks is empty exactly if nothing is left of it when it is trimmed. -/
theorem versionText_iff :
    VersionText text ↔ Text.trimmed text.toList ≠ [] ∧ NoBlank text ∧ ColonFree text := by
  constructor
  · rintro ⟨hne, hall⟩
    have hblank : NoBlank text := fun c hc => (hall c hc).1
    rw [Text.trimmed_eq_self hblank, ne_eq, String.toList_eq_nil_iff]
    exact ⟨hne, hblank, fun hcolon => (hall ':' hcolon).2 rfl⟩
  · rintro ⟨hne, hblank, hcolon⟩
    rw [Text.trimmed_eq_self hblank, ne_eq, String.toList_eq_nil_iff] at hne
    exact ⟨hne, fun c hc => ⟨hblank c hc, fun heq => hcolon (heq ▸ hc)⟩⟩

/-! ## Ends of texts -/

theorem isSegmentChar_of_isGroupRest_concat {inside : Bool} {text : List Char} {c : Char}
    (h : isGroupRest inside (text ++ [c])) : isSegmentChar c := by
  induction text generalizing inside with
  | nil =>
    rw [List.nil_append, isGroupRest] at h
    by_contra hc
    simp [hc, isGroupRest] at h
  | cons first rest ih =>
    rw [List.cons_append, isGroupRest] at h
    split at h
    · exact ih h
    · exact ih (Bool.and_eq_true_iff.1 h).2

/-- Both ends of a group belong to words. -/
theorem GroupText.mem_of_padded {c : Char} {short long : String} (h : GroupText long)
    (hlong : Text.Padded c short long) : c ∈ segmentClass := by
  rw [← isGroup_iff] at h
  rw [← isSegmentChar_iff]
  rcases hlong with rfl | rfl
  · rw [isGroup, String.toList_push] at h
    exact isSegmentChar_of_isGroupRest_concat h
  · obtain ⟨first, rest, htext, hfirst⟩ := exists_cons_of_isGroup h
    rw [String.toList_append, String.toList_singleton, List.singleton_append] at htext
    exact (List.cons.inj htext).1 ▸ hfirst

/-- No name of a scope is that of another with a character more. -/
theorem not_padded_scopeName {c : Char} {scope scope' : Scope} :
    ¬ Text.Padded c scope.name scope'.name := by
  rintro (h | h)
  all_goals
    have htext := congrArg String.toList h
    cases scope <;> cases scope' <;> simp [Scope.name] at htext

theorem GroupText.noBlank (h : GroupText text) : NoBlank text :=
  noBlank_of_isTokenChar (isTokenChar_of_isGroup (isGroup_iff.2 h))

theorem TokenText.noBlank (h : TokenText text) : NoBlank text :=
  noBlank_of_isTokenChar (isTokenChar_of_isToken (isToken_iff.2 h))

theorem noBlank_of_mem_scopeNames (h : text ∈ scopeNames) : NoBlank text := by
  obtain ⟨scope, rfl⟩ := mem_scopeNames_iff.1 h
  exact scope.noBlank_name

end Grammar

open Grammar

/-! ## Sections -/

/-- The texts of a section, by the rule that they have to follow. -/
structure Wording where
  group : String
  tokens : List String
  versions : List String
  scopes : List String

namespace Wording

variable {w : Wording}

def texts (w : Wording) : List String := w.group :: w.tokens ++ w.versions ++ w.scopes

/-- All texts are as the grammar has them. -/
structure InGrammar (w : Wording) : Prop where
  group : GroupText w.group
  token : ∀ text ∈ w.tokens, TokenText text
  version : ∀ text ∈ w.versions, VersionText text
  scope : ∀ text ∈ w.scopes, text ∈ scopeNames

/-- Some text has a character too much, at its start or at its end: a blank, or one that texts of its
kind do not have there. At the name of a scope any character is too much. -/
inductive HasExtra (w : Wording) : Prop
  | blank {c short text} (htext : text ∈ w.texts) (h : Text.Padded c short text)
      (hc : Text.isBlank c = true)
  | group {c short} (h : Text.Padded c short w.group) (hc : c ∉ segmentClass)
  | token {c short text} (htext : text ∈ w.tokens) (h : Text.Padded c short text)
      (hc : c ∉ tokenClass)
  | version {short text} (htext : text ∈ w.versions) (h : Text.Padded ':' short text)
  | scope {c text} {scope : Scope} (htext : text ∈ w.scopes) (h : Text.Padded c scope.name text)

theorem InGrammar.noBlank (h : w.InGrammar) : ∀ text ∈ w.texts, NoBlank text := by
  intro text htext
  simp only [texts, List.cons_append, List.mem_cons, List.mem_append] at htext
  rcases htext with rfl | (htext | htext) | htext
  · exact h.group.noBlank
  · exact (h.token text htext).noBlank
  · exact fun c hc => ((h.version text htext).2 c hc).1
  · exact noBlank_of_mem_scopeNames (h.scope text htext)

theorem HasExtra.not_inGrammar (hextra : w.HasExtra) : ¬ w.InGrammar := by
  intro h
  cases hextra with
  | blank htext hpadded hc => exact absurd hc (by simp [h.noBlank _ htext _ hpadded.mem])
  | group hpadded hc => exact hc (h.group.mem_of_padded hpadded)
  | token htext hpadded hc => exact hc ((h.token _ htext).2 _ hpadded.mem)
  | version htext hpadded => exact ((h.version _ htext).2 _ hpadded.mem).2 rfl
  | scope htext hpadded =>
    obtain ⟨scope', rfl⟩ := mem_scopeNames_iff.1 (h.scope _ htext)
    exact not_padded_scopeName hpadded

/-- The check passes exactly if the wording is in the grammar and what `others` says holds too, and it
fails wherever there is a character too much. -/
structure Decides (w : Wording) (check : Check) (others : Prop) : Prop where
  eq_ok_iff : check = .ok () ↔ w.InGrammar ∧ others
  refused : w.HasExtra → ∃ fault, check = .error fault

theorem decides_of_iff {check : Check} {others : Prop} (h : check = .ok () ↔ w.InGrammar ∧ others) :
    w.Decides check others := by
  refine ⟨h, fun hextra => ?_⟩
  cases hcheck : check with
  | error fault => exact ⟨fault, rfl⟩
  | ok _ => exact absurd (h.1 hcheck).1 hextra.not_inGrammar

end Wording

def ProjectSection.wording (s : ProjectSection) : Wording where
  group := s.group
  tokens := [s.name, s.type] ++ s.classifier.toList
  versions := [s.version]
  scopes := []

def DependencySection.wording (s : DependencySection) : Wording where
  group := s.group
  tokens := [s.name, s.type] ++ s.classifier.toList
  versions := [s.version]
  scopes := s.scope.toList

def ManagementSection.wording (s : ManagementSection) : Wording where
  group := s.group
  tokens := [s.name, s.type] ++ s.classifier.toList
  versions := s.version.toList
  scopes := s.scope.toList

theorem forall_mem_tokens_iff {P : String → Prop} {name type : String} {classifier : Option String} :
    (∀ text ∈ [name, type] ++ classifier.toList, P text) ↔
      P name ∧ P type ∧ ∀ text ∈ classifier, P text := by
  simp only [List.cons_append, List.nil_append, List.forall_mem_cons, Option.mem_toList,
    Option.mem_def]

theorem Coordinate.valid_iff {c : Coordinate} :
    c.Valid ↔ GroupText c.group ∧ (∀ text ∈ [c.name, c.type] ++ c.classifier.toList, TokenText text) ∧
      VersionText c.version := by
  rw [forall_mem_tokens_iff]
  simp only [← isGroup_iff, ← isToken_iff, ← isVersion_iff]
  constructor
  · rintro ⟨hgroup, hname, htype, hversion, hclassifier⟩
    exact ⟨hgroup, ⟨hname, htype, hclassifier⟩, hversion⟩
  · rintro ⟨hgroup, ⟨hname, htype, hclassifier⟩, hversion⟩
    exact ⟨hgroup, hname, htype, hversion, hclassifier⟩

namespace ProjectSection

theorem validate_iff_inGrammar {s : ProjectSection} : s.validate = .ok () ↔ s.wording.InGrammar := by
  have hvalid : s.validate = .ok () ↔ s.coordinate.Valid := by
    refine ⟨valid_of_validate, fun ⟨hgroup, hname, htype, hversion, hclassifier⟩ => ?_⟩
    simp only [validate, bind_eq_ok, checkGroup_eq_ok, checkToken_eq_ok, checkVersion_eq_ok,
      checkToken?_eq_ok, exists_const]
    exact ⟨hgroup, hname, htype, hversion, hclassifier⟩
  rw [hvalid, Coordinate.valid_iff]
  constructor
  · rintro ⟨hgroup, htokens, hversion⟩
    exact ⟨hgroup, htokens, List.forall_mem_singleton.2 hversion, List.forall_mem_nil _⟩
  · rintro ⟨hgroup, htokens, hversions, -⟩
    exact ⟨hgroup, htokens, List.forall_mem_singleton.1 hversions⟩

end ProjectSection

namespace DependencySection

variable {s : DependencySection}

theorem exists_parseScope_iff :
    (∃ scope, s.parseScope = .ok scope) ↔ ∀ text ∈ s.scope.toList, text ∈ scopeNames := by
  unfold parseScope
  cases s.scope with
  | none => simp
  | some name => simpa using exists_parse_ok_iff

theorem validate_iff_inGrammar :
    s.validate = .ok () ↔ s.wording.InGrammar ∧ ∀ text ∈ s.exclusions, ':' ∈ text.toList := by
  rw [validate_eq_ok_iff, exists_parseScope_iff, Coordinate.valid_iff, ← and_assoc]
  refine and_congr_left fun _ => ?_
  constructor
  · rintro ⟨⟨hgroup, htokens, hversion⟩, hscopes⟩
    exact ⟨hgroup, htokens, List.forall_mem_singleton.2 hversion, hscopes⟩
  · rintro ⟨hgroup, htokens, hversions, hscopes⟩
    exact ⟨⟨hgroup, htokens, List.forall_mem_singleton.1 hversions⟩, hscopes⟩

end DependencySection

namespace ManagementSection

variable {s : ManagementSection}

theorem exists_parseScope_iff :
    (∃ scope, s.parseScope = .ok scope) ↔ ∀ text ∈ s.scope.toList, text ∈ scopeNames := by
  unfold parseScope
  cases s.scope with
  | none => simp
  | some name => simpa using exists_parse_ok_iff

theorem validate_eq_ok_iff :
    s.validate = .ok () ↔ s.WellNamed ∧ ∃ scope, s.parseScope = .ok scope := by
  have hread (hs : s.WellNamed) : s.validate = .ok () ↔ ∃ scope, s.parseScope = .ok scope := by
    rw [validate_eq_of_wellNamed hs]
    simp only [bind_eq_ok, mapError_eq_ok, and_true]
  constructor
  · intro h
    have hs := wellNamed_of_validate h
    exact ⟨hs, (hread hs).1 h⟩
  · rintro ⟨hs, h⟩
    exact (hread hs).2 h

theorem validate_iff_inGrammar :
    s.validate = .ok () ↔ s.wording.InGrammar ∧ (s.version.isSome ∨ s.scope.isSome) := by
  rw [validate_eq_ok_iff, exists_parseScope_iff]
  constructor
  · rintro ⟨⟨hgroup, hname, htype, hclassifier, hversion, heffect⟩, hscopes⟩
    refine ⟨⟨isGroup_iff.1 hgroup, forall_mem_tokens_iff.2 ⟨?_, ?_, ?_⟩, ?_, hscopes⟩, ?_⟩
    · exact isToken_iff.1 hname
    · exact isToken_iff.1 htype
    · exact fun text htext => isToken_iff.1 (hclassifier text htext)
    · exact fun text htext => isVersion_iff.1 (hversion text (Option.mem_toList.1 htext))
    · exact Bool.or_eq_true_iff.1 heffect
  · rintro ⟨⟨hgroup, htokens, hversions, hscopes⟩, heffect⟩
    obtain ⟨hname, htype, hclassifier⟩ := forall_mem_tokens_iff.1 htokens
    refine ⟨⟨isGroup_iff.2 hgroup, isToken_iff.2 hname, isToken_iff.2 htype, ?_, ?_, ?_⟩, hscopes⟩
    · exact fun text htext => isToken_iff.2 (hclassifier text htext)
    · exact fun text htext => isVersion_iff.2 (hversions text (Option.mem_toList.2 htext))
    · exact Bool.or_eq_true_iff.2 heffect

end ManagementSection

namespace Validation

/-- What the checks of single texts look for: a group and a token for their pattern, and a version for
something that is left of it when it is trimmed, for no blank and for no colon. -/
structure SearchesTexts : Prop where
  group (text : String) : checkGroup text = .ok () ↔ groupPattern.Occurs text
  token (field text : String) : checkToken field text = .ok () ↔ tokenPattern.Occurs text
  version (text : String) : checkVersion text = .ok () ↔
    Text.trimmed text.toList ≠ [] ∧ NoBlank text ∧ ColonFree text

theorem searchesTexts : SearchesTexts where
  group text := by rw [checkGroup_eq_ok, isGroup_iff, occurs_groupPattern_iff]
  token field text := by rw [checkToken_eq_ok, isToken_iff, occurs_tokenPattern_iff]
  version text := by rw [checkVersion_eq_ok, isVersion_iff, versionText_iff]

/-- **Validation accepts exactly its grammar.** The checks of texts look for anchored patterns, and
sections pass exactly if all their texts follow the rules of their kind, if exclusions have colons,
and if a management section has something to override. Nothing is accepted with a character too much
at an end. -/
theorem accepts_exactly :
    SearchesTexts ∧
      (∀ s : ProjectSection, s.wording.Decides s.validate True) ∧
      (∀ s : DependencySection,
        s.wording.Decides s.validate (∀ text ∈ s.exclusions, ':' ∈ text.toList)) ∧
      ∀ s : ManagementSection, s.wording.Decides s.validate (s.version.isSome ∨ s.scope.isSome) := by
  refine ⟨searchesTexts, fun s => ?_, fun s => ?_, fun s => ?_⟩
  · apply Wording.decides_of_iff
    rw [s.validate_iff_inGrammar, and_true]
  · exact Wording.decides_of_iff s.validate_iff_inGrammar
  · exact Wording.decides_of_iff s.validate_iff_inGrammar

/-- A dependency on an artifact of the group. -/
def dependingOn (group : String) : DependencySection :=
  { group, name := "left", version := "1.0", scope := some "test", exclusions := ["a:b"] }

/-- A group with a line break behind it, or with a dot in front of it, is refused. -/
theorem accepts_dependingOn :
    (dependingOn "org.apache").wording.InGrammar ∧
      (dependingOn "org.apache\n").wording.HasExtra ∧
      (∃ fault, (dependingOn "org.apache\n").validate = .error fault) ∧
      (dependingOn ".org").wording.HasExtra ∧
      ∃ fault, (dependingOn ".org").validate = .error fault := by
  obtain ⟨-, -, hdependency, -⟩ := accepts_exactly
  have hbreak : (dependingOn "org.apache\n").wording.HasExtra :=
    .blank List.mem_cons_self (.inl rfl : Text.Padded '\n' "org.apache" _) (by decide)
  have hdot : (dependingOn ".org").wording.HasExtra :=
    .group (.inr rfl : Text.Padded '.' "org" _) (by decide)
  refine ⟨?_, hbreak, (hdependency _).refused hbreak, hdot, (hdependency _).refused hdot⟩
  exact ((hdependency (dependingOn "org.apache")).eq_ok_iff.1 rfl).1

end Validation

end ArtifactTree
