/-!
# Binary floating point by exact integers

Reads the magnitude off the bits of a double and, in the other direction, rounds an exact fraction to
the nearest double, a tie going to the even significand.
-/
namespace HostScript.Number

/-- The magnitude `significand * 2 ^ exponent` of a finite double. -/
structure Magnitude where
  significand : Nat
  exponent : Int
deriving Repr, DecidableEq

def twoTo (n : Nat) : Nat := Nat.pow 2 n

def tenTo (n : Nat) : Nat := Nat.pow 10 n

/-- The exponent of the smallest positive double, below which no magnitude goes. -/
def leastExponent : Int := -1074

/-- The least significand of a normal double. -/
def normalSignificand : Nat := twoTo 52

/-- The bits of positive infinity; every larger finite pattern is rounded to it. -/
def infinityBits : Nat := 0x7FF0000000000000

/-- Whether the sign bit is set, which tells `-0` from `0`. -/
def isNegative (x : Float) : Bool := x.toBits.toNat ≥ twoTo 63

/-- The magnitude of a finite double, subnormal numbers and zero included. -/
def magnitude (x : Float) : Magnitude :=
  let bits := x.toBits.toNat
  let fraction := bits % normalSignificand
  let field := bits / normalSignificand % twoTo 11
  if field = 0 then ⟨fraction, leastExponent⟩
  else ⟨fraction + normalSignificand, leastExponent + (field - 1 : Nat)⟩

/-- The quotient rounded to the nearest integer, a tie going to the even one. -/
def divNearest (num den : Nat) : Nat :=
  let quotient := num / den
  let remainder := num % den
  if 2 * remainder < den then quotient
  else if den < 2 * remainder then quotient + 1
  else quotient + quotient % 2

/-- Numerator and denominator of `num / den / 2 ^ exponent`. -/
def scaleDown (num den : Nat) (exponent : Int) : Nat × Nat :=
  if 0 ≤ exponent then (num, den * twoTo exponent.toNat) else (num * twoTo (-exponent).toNat, den)

/-- The exponent at which a fraction has a significand of 53 bits, but not below the least one. -/
def exponentOf (num den : Nat) : Int :=
  let guess : Int := (num.log2 : Int) - (den.log2 : Int) - 52
  let scaled := scaleDown num den guess
  max (if scaled.1 / scaled.2 < normalSignificand then guess - 1 else guess) leastExponent

/-- The double nearest to a nonnegative fraction, which may be infinity. -/
def ofRatio (num den : Nat) : Float :=
  if num = 0 then 0
  else
    let exponent := exponentOf num den
    let scaled := scaleDown num den exponent
    let significand := divNearest scaled.1 scaled.2
    let bits :=
      if significand < normalSignificand then significand
      else (exponent - leastExponent + 1).toNat * normalSignificand
        + (significand - normalSignificand)
    Float.ofBits (min bits infinityBits).toUInt64

def ofMagnitude (m : Magnitude) : Float :=
  if 0 ≤ m.exponent then ofRatio (m.significand * twoTo m.exponent.toNat) 1
  else ofRatio m.significand (twoTo (-m.exponent).toNat)

/-- Gives a nonnegative double a sign. -/
def withSign (negative : Bool) (x : Float) : Float := if negative then -x else x

end HostScript.Number
