/-!
# Binary floating-point numbers

A finite number of double precision is a whole multiple of a power of two. `Binary.nearest` finds
the one closest to a decimal, a tie going to the even multiple, in exact arithmetic.
-/

namespace ArtifactTree.Decimal

inductive Binary where
  /-- `significand * 2 ^ exponent`, with the given sign also on zero. -/
  | finite (negative : Bool) (significand : Nat) (exponent : Int)
  | infinite (negative : Bool)
  | notANumber
deriving DecidableEq

/-- The quotient rounded to the nearest whole number, a tie to the even one. -/
def roundDiv (numerator denominator : Nat) : Nat :=
  let quotient := numerator / denominator
  let twice := 2 * (numerator % denominator)
  if twice < denominator then quotient
  else if twice = denominator then quotient + quotient % 2
  else quotient + 1

/-- A fraction divided by a power of two, again as a fraction. -/
def shifted (fraction : Nat × Nat) (exponent : Int) : Nat × Nat :=
  match exponent with
  | .ofNat e => (fraction.1, fraction.2 * Nat.pow 2 e)
  | .negSucc e => (fraction.1 * Nat.pow 2 (e + 1), fraction.2)

def digitCount (n : Nat) : Nat := (Nat.toDigits 10 n).length

namespace Binary

/-- A significand is below this. -/
def significandBound : Nat := Nat.pow 2 53

def leastExponent : Int := -1074

def greatestExponent : Int := 971

/-- The number closest to the positive fraction. The exponent is the least for which the
significand stays below its bound. -/
def nearestFraction (negative : Bool) (fraction : Nat × Nat) : Binary :=
  let estimate : Int := fraction.1.log2 - fraction.2.log2 - 53
  let start := max estimate leastExponent
  let fits (e : Int) : Bool :=
    let (n, d) := shifted fraction e
    n / d < significandBound
  let exponent := if fits start then start else if fits (start + 1) then start + 1 else start + 2
  let (n, d) := shifted fraction exponent
  let significand := roundDiv n d
  let (significand, exponent) :=
    if significand = significandBound then (significand / 2, exponent + 1)
    else (significand, exponent)
  if exponent > greatestExponent then infinite negative
  else finite negative significand exponent

/-- The number closest to `digits * 10 ^ power`. Beyond 400 decimal places on either side it is
infinite or zero. -/
def nearest (negative : Bool) (digits : Nat) (power : Int) : Binary :=
  let magnitude := power + digitCount digits
  if digits = 0 || magnitude < -400 then finite negative 0 leastExponent
  else if magnitude > 400 then infinite negative
  else
    nearestFraction negative <|
      match power with
      | .ofNat p => (digits * Nat.pow 10 p, 1)
      | .negSucc p => (digits, Nat.pow 10 (p + 1))

example : nearest false 1 (-1) = finite false 7205759403792794 (-56) ∧
    nearest false 1 0 = finite false (2 ^ 52) (-52) ∧
    nearest true 5 (-324) = finite true 1 (-1074) ∧
    nearest false 17976931348623157 292 = finite false (2 ^ 53 - 1) 971 ∧
    nearest false 2 308 = infinite false := by decide +kernel

end Binary

end ArtifactTree.Decimal
