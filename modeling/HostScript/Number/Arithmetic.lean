import HostScript.Number.Rounding

/-! # Operations on doubles -/
namespace HostScript.Number

/-- The significand over the power `2 ^ exponent`, which must not be finer than its own. -/
def Magnitude.over (m : Magnitude) (exponent : Int) : Nat :=
  m.significand * twoTo (m.exponent - exponent).toNat

/-- The exact remainder, with the sign of the dividend also when it is zero. -/
def remainder (a b : Float) : Float :=
  if a.isNaN || b.isNaN || a.isInf || b == 0 then 0 / 0
  else if b.isInf then a
  else
    let m := magnitude a
    let n := magnitude b
    let exponent := min m.exponent n.exponent
    withSign (isNegative a) (ofMagnitude ⟨m.over exponent % n.over exponent, exponent⟩)

/-- The product `a * b` as a signed integer over `2 ^ exponent`, for finite operands. -/
def exactProduct (a b : Float) : Int × Int :=
  let m := magnitude a
  let n := magnitude b
  let product : Int := (m.significand * n.significand : Nat)
  (if isNegative a == isNegative b then product else -product, m.exponent + n.exponent)

def multiplyAdd (a b c : Float) : Float :=
  if !(a.isFinite && b.isFinite) || a == 0 || b == 0 then a * b + c
  else if !c.isFinite then c
  else
    let product := exactProduct a b
    let addend := magnitude c
    let exponent := min product.2 addend.exponent
    let shifted : Int := addend.over exponent
    let sum := product.1 * (twoTo (product.2 - exponent).toNat : Int)
      + (if isNegative c then -shifted else shifted)
    withSign (sum < 0) (ofMagnitude ⟨sum.natAbs, exponent⟩)

/-- An operand that is not a number is ignored, and of two equal ones the first is taken. -/
def larger (a b : Float) : Float := if a.isNaN then b else if a < b then b else a

/-- The smaller operand, with the same conventions. -/
def smaller (a b : Float) : Float := if a.isNaN then b else if b < a then b else a

def truncate (x : Float) : Float := if x < 0 then x.ceil else x.floor

/-- The truth value that a number stands for. Only exactly `1` and `0` stand for one. -/
def truth? (x : Float) : Option Bool :=
  if x == 1 then some true else if x == 0 then some false else none

end HostScript.Number
