import ArtifactTree.Toml.Scalar

/-!
# TOML strings

The four forms of a string, each read from behind its opening quotes up to the end of its closing
ones. Line breaks are line feeds here. Between double quotes a backslash escapes; inside three
double quotes it also swallows a line break together with the blanks around it.
-/

namespace ArtifactTree.Toml.Quotation

/-- What may stand in a comment: a tab and all but the control characters of ASCII. -/
def isPrintable (c : Char) : Bool := c = '\t' || ' ' ≤ c && c != '\x7f'

/-- The character that a letter after a backslash stands for. -/
def escaped? (c : Char) : Option Char :=
  if c = 'b' then some '\x08'
  else if c = 't' then some '\t'
  else if c = 'n' then some '\n'
  else if c = 'f' then some '\x0c'
  else if c = 'r' then some '\r'
  else if c = '"' then some '"'
  else if c = '\\' then some '\\'
  else none

/-- Where a reader between double quotes stands. -/
inductive Stance where
  | text
  | escape
  /-- Inside a code point of which `left` digits are missing. -/
  | code (left value : Nat)
  /-- Behind a backslash and blanks, before the line break that they need. -/
  | lineEnd
  /-- Behind a swallowed line break. -/
  | margin
deriving DecidableEq

/-- Puts a character in front of what is read after it. -/
def emit (c : Char) (read : Option (List Char × List Char)) : Option (List Char × List Char) :=
  read.map fun (text, rest) => (c :: text, rest)

def ofCode? (value : Nat) : Option Char :=
  if h : value.isValidChar then some (Char.ofNatAux value h) else none

/-- Up to two more quotes belong to the text that three quotes end. -/
def closing : List Char → List Char × List Char
  | '"' :: '"' :: rest => (['"', '"'], rest)
  | '"' :: rest => (['"'], rest)
  | rest => ([], rest)

/-- Reads on between double quotes: the text up to the closing ones, and what follows them. With
`many` the string is one between three quotes. -/
def basic (many : Bool) : Stance → List Char → Option (List Char × List Char)
  | _, [] => none
  | .escape, c :: rest =>
    if c = 'u' then basic many (.code 4 0) rest
    else if c = 'U' then basic many (.code 8 0) rest
    else if many && (c = ' ' || c = '\t') then basic many .lineEnd rest
    else if many && c = '\n' then basic many .margin rest
    else (escaped? c).bind fun e => emit e (basic many .text rest)
  | .code left value, c :: rest =>
    (Scalar.digitValue? 16 c).bind fun digit =>
      let value := value * 16 + digit
      if left ≤ 1 then (ofCode? value).bind fun e => emit e (basic many .text rest)
      else basic many (.code (left - 1) value) rest
  | .lineEnd, c :: rest =>
    if c = ' ' || c = '\t' then basic many .lineEnd rest
    else if c = '\n' then basic many .margin rest
    else none
  | stance, c :: rest =>
    if stance = .margin && (c = ' ' || c = '\t' || c = '\n') then basic many .margin rest
    else if c = '\\' then basic many .escape rest
    else if c = '"' then
      if many then
        match rest with
        | '"' :: '"' :: rest => some (closing rest)
        | _ => emit c (basic many .text rest)
      else some ([], rest)
    else if isPrintable c || many && c = '\n' then emit c (basic many .text rest)
    else none

/-- Reads on between single quotes: the text up to the closing one, and what follows it. -/
def literal : List Char → Option (List Char × List Char)
  | [] => none
  | c :: rest =>
    if c = '\'' then some ([], rest)
    else if isPrintable c then emit c (literal rest)
    else none

def longLiteral : List Char → Option (List Char × List Char)
  | [] => none
  | c :: rest =>
    if c = '\'' then
      match rest with
      | '\'' :: '\'' :: '\'' :: '\'' :: rest => some (['\'', '\''], rest)
      | '\'' :: '\'' :: '\'' :: rest => some (['\''], rest)
      | '\'' :: '\'' :: rest => some ([], rest)
      | _ => emit c (longLiteral rest)
    else if isPrintable c || c = '\n' then emit c (longLiteral rest)
    else none

/-- A line break right behind three opening quotes does not count. -/
def skipFirstBreak : List Char → List Char
  | '\n' :: rest => rest
  | rest => rest

/-- Reads a string of any of the four forms from the front. -/
def read? : List Char → Option (String × List Char)
  | '"' :: '"' :: '"' :: rest => finish (basic true .text (skipFirstBreak rest))
  | '"' :: rest => finish (basic false .text rest)
  | '\'' :: '\'' :: '\'' :: rest => finish (longLiteral (skipFirstBreak rest))
  | '\'' :: rest => finish (literal rest)
  | _ => none
where
  /-- Makes a string of the characters that were read. -/
  finish (read : Option (List Char × List Char)) : Option (String × List Char) :=
    read.map fun (text, rest) => (.ofList text, rest)

end ArtifactTree.Toml.Quotation
