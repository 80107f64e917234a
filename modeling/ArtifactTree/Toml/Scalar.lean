import ArtifactTree.Toml.Value

/-!
# TOML scalars

Numbers, booleans, dates and times, each read from the whole of one token. Digits may be grouped by
single underscores, a number fits into 64 bits with sign, and dates are those of the calendar.
-/

namespace ArtifactTree.Toml.Scalar

def isDigit (c : Char) : Bool := '0' ≤ c && c ≤ '9'

/-- The value of a digit of a base up to sixteen, in either case. -/
def digitValue? (base : Nat) (c : Char) : Option Nat :=
  let value :=
    if isDigit c then c.toNat - '0'.toNat
    else if 'a' ≤ c && c ≤ 'f' then c.toNat - 'a'.toNat + 10
    else if 'A' ≤ c && c ≤ 'F' then c.toNat - 'A'.toNat + 10
    else base
  if value < base then some value else none

/-- The values of one or more digits, with single underscores between them allowed. -/
def grouped (base : Nat) : List Char → Option (List Nat)
  | [] => none
  | [c] => (digitValue? base c).map ([·])
  | c :: '_' :: rest => do return (← digitValue? base c) :: (← grouped base rest)
  | c :: rest => do return (← digitValue? base c) :: (← grouped base rest)

def ofDigits (base : Nat) (digits : List Nat) : Nat :=
  digits.foldl (fun number digit => number * base + digit) 0

/-- Takes off a sign, and tells whether it is a minus. -/
def signed : List Char → Bool × List Char
  | '+' :: rest => (false, rest)
  | '-' :: rest => (true, rest)
  | token => (false, token)

/-- Digits of a decimal whole number: none but zero itself starts with a zero. -/
def wholeDigits (token : List Char) : Option (List Nat) :=
  match token with
  | ['0'] => some [0]
  | '0' :: _ => none
  | _ => grouped 10 token

/-- A whole number, if it fits into 64 bits with sign. -/
def inRange (negative : Bool) (magnitude : Nat) : Option Value :=
  if magnitude < Nat.pow 2 63 || negative && magnitude = Nat.pow 2 63 then
    some (.integer (if negative then -magnitude else magnitude))
  else none

/-- A whole number, in decimal with an optional sign, or without one in base 16, 8 or 2. -/
def integer? (token : List Char) : Option Value :=
  match token with
  | '0' :: 'x' :: rest => (grouped 16 rest).bind (inRange false <| ofDigits 16 ·)
  | '0' :: 'o' :: rest => (grouped 8 rest).bind (inRange false <| ofDigits 8 ·)
  | '0' :: 'b' :: rest => (grouped 2 rest).bind (inRange false <| ofDigits 2 ·)
  | _ =>
    let (negative, digits) := signed token
    (wholeDigits digits).bind (inRange negative <| ofDigits 10 ·)

/-- The two sides of the first character that satisfies `cut`, if there is one. -/
def splitAt? (cut : Char → Bool) (token : List Char) : Option (List Char × List Char) :=
  match token.span (!cut ·) with
  | (before, _ :: after) => some (before, after)
  | (_, []) => none

/-- The exponent after the letter `e`: decimal digits with an optional sign. -/
def exponent? (token : List Char) : Option Int := do
  let (negative, digits) := signed token
  let magnitude := ofDigits 10 (← grouped 10 digits)
  return if negative then -magnitude else magnitude

/-- A number with a fraction, an exponent or both. One too large for any positive number of double
precision is refused; one too large on the negative side is infinite. -/
def decimal? (token : List Char) : Option Decimal.Binary := do
  let (negative, body) := signed token
  let (mantissa, power) ← match splitAt? (fun c => c = 'e' || c = 'E') body with
    | some (mantissa, power) => do pure (mantissa, some (← exponent? power))
    | none => pure (body, none)
  let (whole, fraction) ← match splitAt? (· = '.') mantissa with
    | some (whole, fraction) => do pure (← wholeDigits whole, some (← grouped 10 fraction))
    | none => do pure (← wholeDigits mantissa, none)
  guard (power.isSome || fraction.isSome)
  let places := fraction.getD []
  let number := Decimal.Binary.nearest negative (ofDigits 10 (whole ++ places))
    (power.getD 0 - places.length)
  guard (number != .infinite false)
  return number

/-- Infinity or a value that is no number, with an optional sign. -/
def special? (token : List Char) : Option Value :=
  let (negative, body) := signed token
  if body = "inf".toList then some (.float (.infinite negative))
  else if body = "nan".toList then some (.float .notANumber)
  else none

def fixed : (count : Nat) → List Char → Option (Nat × List Char)
  | 0, rest => some (0, rest)
  | _ + 1, [] => none
  | count + 1, c :: rest => do
    let digit ← digitValue? 10 c
    let (number, rest) ← fixed count rest
    return (digit * Nat.pow 10 count + number, rest)

def after (expected : Char) : List Char → Option (List Char)
  | c :: rest => if c = expected then some rest else none
  | [] => none

def daysIn (year month : Nat) : Nat :=
  if month = 2 then
    if year % 4 = 0 && year % 100 != 0 || year % 400 = 0 then 29 else 28
  else if month = 4 || month = 6 || month = 9 || month = 11 then 30
  else 31

def afterDate (token : List Char) : Option (List Char) := do
  let (year, rest) ← fixed 4 token
  let (month, rest) ← fixed 2 (← after '-' rest)
  let (day, rest) ← fixed 2 (← after '-' rest)
  guard (1 ≤ month && month ≤ 12 && 1 ≤ day && day ≤ daysIn year month)
  return rest

def afterMinute (token : List Char) : Option (List Char) := do
  let (hour, rest) ← fixed 2 token
  let (minute, rest) ← fixed 2 (← after ':' rest)
  guard (hour ≤ 23 && minute ≤ 59)
  return rest

/-- Goes on after a time of day with seconds, which may have a fraction and may be a leap second. -/
def afterTime (token : List Char) : Option (List Char) := do
  let (second, rest) ← fixed 2 (← after ':' (← afterMinute token))
  guard (second ≤ 60)
  match rest with
  | '.' :: rest =>
    guard (rest.takeWhile isDigit ≠ [])
    return rest.dropWhile isDigit
  | rest => return rest

/-- Whether the text is an offset from universal time, or nothing. -/
def isOffset : List Char → Bool
  | [] => true
  | ['Z'] => true
  | ['z'] => true
  | '+' :: rest => afterMinute rest = some []
  | '-' :: rest => afterMinute rest = some []
  | _ => false

/-- Whether the text is a date, a time of day, or a date, a letter `t` or a space, and a time of day
with an optional offset. -/
def isMoment (token : List Char) : Bool :=
  match afterDate token with
  | some [] => true
  | some (c :: rest) => (c = 'T' || c = 't' || c = ' ') && (afterTime rest).any isOffset
  | none => afterTime token = some []

def ofToken? (token : List Char) : Option Value :=
  if token = "true".toList then some (.boolean true)
  else if token = "false".toList then some (.boolean false)
  else if isMoment token then some .moment
  else (decimal? token).map .float <|> special? token <|> integer? token

end ArtifactTree.Toml.Scalar
