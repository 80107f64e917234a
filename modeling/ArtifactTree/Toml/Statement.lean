import ArtifactTree.Toml.Quotation

/-!
# TOML statements

A document is a list of statements: headers that open a table or one more element of an array of
tables, and assignments to keys. Reading them is a matter of form alone; whether they fit together
is decided when the document is put together.

Arrays and braces may nest 79 levels deep, and a dotted key may have 79 parts.
-/

namespace ArtifactTree.Toml

/-- One step of a document. -/
inductive Statement where
  /-- `[path]` -/
  | table (path : List String)
  /-- `[[path]]` -/
  | element (path : List String)
  /-- `path = value`, where the path ends in `key` -/
  | assign (path : List String) (key : String) (value : Value)

/-- Reads something from the front of a text. -/
abbrev Reader (α : Type) := List Char → Option (α × List Char)

/-- A blank inside a line. -/
def isLineBlank (c : Char) : Bool := c = ' ' || c = '\t'

/-- Goes past blanks inside a line. -/
def skipBlanks (text : List Char) : List Char := text.dropWhile isLineBlank

/-- Goes past a comment up to the end of its line. -/
def skipComment : List Char → List Char
  | '#' :: rest => rest.dropWhile Quotation.isPrintable
  | rest => rest

/-- Goes past blanks, line breaks and comments. It stops inside a comment at a character that may
not stand there, and nothing that may follow a gap starts with such a character. -/
def skipGap : (comment : Bool) → List Char → List Char
  | _, [] => []
  | true, c :: rest =>
    if c = '\n' then skipGap false rest
    else if Quotation.isPrintable c then skipGap true rest
    else c :: rest
  | false, c :: rest =>
    if isLineBlank c || c = '\n' then skipGap false rest
    else if c = '#' then skipGap true rest
    else c :: rest

/-- Goes past the rest of a line, which may hold a comment. -/
def afterLine (text : List Char) : Option (List Char) :=
  match skipComment (skipBlanks text) with
  | [] => some []
  | '\n' :: rest => some rest
  | _ => none

def isKeyChar (c : Char) : Bool := c.isAlphanum || c = '_' || c = '-'

/-- One part of a key: bare, or a string on one line. -/
def simpleKey : Reader String
  | '"' :: rest => Quotation.read?.finish (Quotation.basic false .text rest)
  | '\'' :: rest => Quotation.read?.finish (Quotation.literal rest)
  | text =>
    let bare := text.takeWhile isKeyChar
    if bare.isEmpty then none else some (.ofList bare, text.dropWhile isKeyChar)

/-- The parts of a key with points between them: those before the last one, and the last one. -/
def dottedKey : (limit : Nat) → Reader (List String × String)
  | 0, _ => none
  | limit + 1, text => do
    let (part, rest) ← simpleKey (skipBlanks text)
    match skipBlanks rest with
    | '.' :: rest =>
      let ((path, key), rest) ← dottedKey limit rest
      return ((part :: path, key), rest)
    | rest => return (([], part), rest)

/-- The greatest number of parts of a key, and of levels that a value nests. -/
def nestingLimit : Nat := 79

/-- `key = ` and a value, with blanks around both. -/
def assignment (value : Reader Value) : Reader (List String × String × Value) := fun text => do
  let ((path, key), rest) ← dottedKey nestingLimit text
  let (value, rest) ← value (skipBlanks (← Scalar.after '=' rest))
  return ((path, key, value), skipBlanks rest)

/-- The items of an array up to its closing bracket; a comma may follow the last one. -/
def arrayItems (value : Reader Value) : (limit : Nat) → Reader (List Value)
  | 0, _ => none
  | limit + 1, text =>
    match skipGap false text with
    | ']' :: rest => some ([], rest)
    | text => do
      let (item, rest) ← value text
      match skipGap false rest with
      | ',' :: rest => do
        let (items, rest) ← arrayItems value limit rest
        return (item :: items, rest)
      | ']' :: rest => return ([item], rest)
      | _ => none

/-- The assignments of a table between braces up to its closing brace, at least one. -/
def inlineAssignments (value : Reader Value) :
    (limit : Nat) → Reader (List (List String × String × Value))
  | 0, _ => none
  | limit + 1, text => do
    let (first, rest) ← assignment value text
    match rest with
    | ',' :: rest =>
      let (more, rest) ← inlineAssignments value limit rest
      return (first :: more, rest)
    | '\x7d' :: rest => return ([first], rest)
    | _ => none

/-- Changes the entries that `path` leads to from a table. A table that is not there yet is made as
`made`. The path leads through the last element of an array of tables; it leads through no table
between braces and, if it is a dotted key, through no table with a header of its own. -/
def within (made : TableKind) (change : TableKind → Entries → Option Entries) :
    (path : List String) → TableKind → Entries → Option Entries
  | [], kind, entries => change kind entries
  | key :: path, _, entries =>
    match entries.lookup key with
    | none => do
      let sub ← within made change path made []
      return entries ++ [(key, .table made sub)]
    | some (.table kind sub) => do
      guard (kind != .inline && !(made = .dotted && kind = .header))
      let sub ← within made change path kind sub
      return entries.assign key (.table kind sub)
    | some (.array .header elements) =>
      match elements.getLast? with
      | some (.table kind sub) => do
        let sub ← within made change path kind sub
        return entries.assign key (.array .header (elements.dropLast ++ [.table kind sub]))
      | _ => none
    | some _ => none

/-- Assigns a value to a key that is not there yet. A dotted key adds only to tables that dotted
keys made. -/
def place (path : List String) (key : String) (value : Value) (entries : Entries) :
    Option Entries :=
  within .dotted (fun kind entries => do
    guard (path.isEmpty || kind = .dotted)
    guard (entries.lookup key).isNone
    return entries ++ [(key, value)]) path .header entries

def placeAll (assignments : List (List String × String × Value)) : Option Entries :=
  assignments.foldlM (fun entries (path, key, value) => place path key value entries) []

/-- A scalar: a string, or a token up to the next blank, line break, comment, comma or closing
bracket. A date goes on behind one blank if a time of day follows. -/
def scalar : Reader Value := fun text =>
  match text with
  | '"' :: _ => string text
  | '\'' :: _ => string text
  | _ =>
    let token := text.takeWhile inToken
    let rest := text.dropWhile inToken
    match rest with
    | ' ' :: more =>
      let joint := token ++ ' ' :: more.takeWhile inToken
      if Scalar.isMoment joint then some (.moment, more.dropWhile inToken)
      else (Scalar.ofToken? token).map (·, rest)
    | _ => (Scalar.ofToken? token).map (·, rest)
where
  string : Reader Value := fun text =>
    (Quotation.read? text).map fun (text, rest) => (.string text, rest)
  inToken (c : Char) : Bool :=
    !(isLineBlank c || c = '\n' || c = '#' || c = ',' || c = ']' || c = '\x7d')

/-- A value that nests at most `levels` deep. -/
def value : (levels : Nat) → Reader Value
  | 0, text => scalar text
  | levels + 1, text =>
    match text with
    | '[' :: rest => (arrayItems (value levels) rest.length rest).map fun (items, rest) =>
        (.array .inline items, rest)
    | '\x7b' :: rest =>
      match skipBlanks rest with
      | '\x7d' :: rest => some (.table .inline [], rest)
      | rest => do
        let (assignments, rest) ← inlineAssignments (value levels) rest.length rest
        return (.table .inline (← placeAll assignments), rest)
    | _ => scalar text

/-- The statements of a text of at most `limit` lines. -/
def statements : (limit : Nat) → List Char → Option (List Statement)
  | 0, _ => none
  | limit + 1, text =>
    match skipBlanks text with
    | [] => some []
    | '[' :: '[' :: rest => do
      let ((path, key), rest) ← dottedKey nestingLimit rest
      let rest ← Scalar.after ']' (← Scalar.after ']' rest)
      return .element (path ++ [key]) :: (← statements limit (← afterLine rest))
    | '[' :: rest => do
      let ((path, key), rest) ← dottedKey nestingLimit rest
      let rest ← Scalar.after ']' rest
      return .table (path ++ [key]) :: (← statements limit (← afterLine rest))
    | c :: rest =>
      if c = '\n' || c = '#' then do statements limit (← afterLine (c :: rest))
      else do
        let ((path, key, value), rest) ← assignment (value nestingLimit) (c :: rest)
        return .assign path key value :: (← statements limit (← afterLine rest))

end ArtifactTree.Toml
