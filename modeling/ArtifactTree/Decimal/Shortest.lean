import ArtifactTree.Decimal.Binary

/-!
# The shortest decimal of a binary number

`shortest` gives the fewest decimal digits that read back as the same number, and of those the
closest, the upper one halfway between two. `Binary.text` writes them positionally, with at least
one digit on each side of the point.
-/

namespace ArtifactTree.Decimal

/-- The decimals that read back as `significand * 2 ^ exponent`, as an interval of quarters of
`2 ^ exponent`: the two ends, and whether they belong to it. -/
structure Interval where
  low : Nat
  high : Nat
  closed : Bool

/-- Half a unit to either side; only a quarter below a power of two, where the spacing halves. The
ends round to the number itself when its significand is even. -/
def Interval.around (significand : Nat) (exponent : Int) : Interval :=
  let narrow := significand = Nat.pow 2 52 && Binary.leastExponent < exponent
  { low := if narrow then 4 * significand - 1 else 4 * significand - 2
    high := 4 * significand + 2
    closed := significand % 2 = 0 }

def Interval.holds (i : Interval) (fraction : Nat × Nat) : Bool :=
  let (n, d) := fraction
  if i.closed then i.low * d ≤ n && n ≤ i.high * d else i.low * d < n && n < i.high * d

/-- `digits * 10 ^ power` in quarters of `2 ^ exponent`. -/
def inQuarters (digits : Nat) (power exponent : Int) : Nat × Nat :=
  let fraction : Nat × Nat :=
    match power with
    | .ofNat p => (4 * digits * Nat.pow 10 p, 1)
    | .negSucc p => (4 * digits, Nat.pow 10 (p + 1))
  shifted fraction exponent

/-- The exponent of the leading decimal digit of a positive fraction. -/
def leadingPower (n d : Nat) : Int :=
  let k : Int := digitCount n - digitCount d
  let reaches : Bool := match k with
    | .ofNat p => d * Nat.pow 10 p ≤ n
    | .negSucc p => d ≤ n * Nat.pow 10 (p + 1)
  if reaches then k else k - 1

/-- The two decimals on the grid `10 ^ power` next to a fraction, the closer one first. Halfway
between them it is the upper one. -/
def neighbours (n d : Nat) (power : Int) : Nat × Nat :=
  let (n, d) := match power with
    | .ofNat p => (n, d * Nat.pow 10 p)
    | .negSucc p => (n * Nat.pow 10 (p + 1), d)
  let below := n / d
  if 2 * (n % d) < d then (below, below + 1) else (below + 1, below)

/-- The first grid, from coarse to fine, on which a neighbour of `significand * 2 ^ exponent` reads
back. -/
def firstHit (significand : Nat) (exponent : Int) (interval : Interval) (fraction : Nat × Nat) :
    List Int → Nat × Int
  | [] => (0, 0)
  | power :: finer =>
    let (closer, farther) := neighbours fraction.1 fraction.2 power
    if interval.holds (inQuarters closer power exponent) then (closer, power)
    else if interval.holds (inQuarters farther power exponent) then (farther, power)
    else firstHit significand exponent interval fraction finer

/-- Digits and the power of ten of their last place: the shortest decimal that reads back as the
positive number `significand * 2 ^ exponent`. Seventeen digits always do. A neighbour just above a
number can be ten units of its leading digit, which is one unit of the place before. -/
def shortest (significand : Nat) (exponent : Int) : Nat × Int :=
  let fraction : Nat × Nat := match exponent with
    | .ofNat e => (significand * Nat.pow 2 e, 1)
    | .negSucc e => (significand, Nat.pow 2 (e + 1))
  let leading := leadingPower fraction.1 fraction.2
  let (digits, power) := firstHit significand exponent (.around significand exponent) fraction
    ((List.range 18).map fun (place : Nat) => leading - (place : Int))
  if digits % 10 = 0 then (digits / 10, power + 1) else (digits, power)

/-- `digits * 10 ^ power` in positional notation, with a digit on each side of the point. -/
def positional (digits : Nat) (power : Int) : String :=
  match power with
  | .ofNat p => String.ofList (Nat.toDigits 10 (digits * Nat.pow 10 p)) ++ ".0"
  | .negSucc p =>
    let places := p + 1
    let written := Nat.toDigits 10 digits
    let padded := List.replicate (places + 1 - written.length) '0' ++ written
    let whole := padded.length - places
    .ofList (padded.take whole ++ '.' :: padded.drop whole)

/-- The number as it is shown: never with an exponent. -/
def Binary.text : Binary → String
  | finite negative significand exponent =>
    let magnitude :=
      if significand = 0 then "0.0"
      else
        let (digits, power) := shortest significand exponent
        positional digits power
    if negative then "-" ++ magnitude else magnitude
  | infinite negative => if negative then "-inf" else "inf"
  | notANumber => "NaN"

example : (Binary.nearest false 1 (-1)).text = "0.1" ∧
    (Binary.nearest false 1000 0).text = "1000.0" ∧
    (Binary.nearest true 0 0).text = "-0.0" ∧ (Binary.nearest false 15 (-1)).text = "1.5" ∧
    (Binary.nearest false 1 (-7)).text = "0.0000001" ∧
    (Binary.nearest false 3 22).text = "30000000000000000000000.0" := by decide +kernel

end ArtifactTree.Decimal
