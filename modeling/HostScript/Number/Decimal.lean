import HostScript.Text.Basic
import HostScript.Number.Rounding

/-!
# Reading decimal text

Script literals are digits with at most one point and an optional leading minus. Text that a host
supplies may also carry a plus sign, an exponent, or one of the words `inf`, `infinity` and `nan` in any
case. Both denote the double nearest to the exact decimal value.
-/
namespace HostScript.Number

open Text

inductive ReadError where
  | empty
  | malformed
deriving Repr, DecidableEq

def ReadError.message : ReadError → String
  | .empty => "cannot parse float from empty string"
  | .malformed => "invalid float literal"

/-- The natural number that the digits of `n` and one more decimal digit denote. -/
def appendDigit (n : Nat) (c : Char) : Nat := n * 10 + (c.toNat - '0'.toNat)

def ofDigits (digits : List Char) : Nat := digits.foldl appendDigit 0

/-- The double nearest to `digits * 10 ^ exponent`. Far beyond the range of doubles no power of ten is
computed. -/
def ofDecimal (digits : List Char) (exponent : Int) : Float :=
  let significant := digits.dropWhile (· == '0')
  let top : Int := (significant.length : Int) + exponent
  let n := ofDigits significant
  if n = 0 then 0
  else if top > 310 then Float.ofBits infinityBits.toUInt64
  else if top < -326 then 0
  else if 0 ≤ exponent then ofRatio (n * tenTo exponent.toNat) 1
  else ofRatio n (tenTo (-exponent).toNat)

/-- The exponent after its mark: an optional sign and at least one digit, and nothing more. -/
def readExponent (cs : List Char) : Option Int :=
  let unsigned (ds : List Char) : Option Int :=
    if ds.isEmpty || !ds.all Char.isDigit then none else some (ofDigits ds : Int)
  match cs with
  | '-' :: ds => (unsigned ds).map (- ·)
  | '+' :: ds => unsigned ds
  | ds => unsigned ds

/-- At least one digit must stand before the exponent, on either side of the point. -/
def readDecimal (cs : List Char) : Option Float :=
  let whole := cs.takeWhile Char.isDigit
  let afterWhole := cs.dropWhile Char.isDigit
  let fraction := match afterWhole with
    | '.' :: ds => ds.takeWhile Char.isDigit
    | _ => []
  let rest := match afterWhole with
    | '.' :: ds => ds.dropWhile Char.isDigit
    | ds => ds
  if whole.isEmpty && fraction.isEmpty then none
  else match rest with
    | [] => some (ofDecimal (whole ++ fraction) (-(fraction.length : Int)))
    | mark :: ds =>
      if mark == 'e' || mark == 'E' then
        (readExponent ds).map fun e => ofDecimal (whole ++ fraction) (e - (fraction.length : Int))
      else none

/-- The named values, in any case. -/
def readWord (cs : List Char) : Option Float :=
  let word := cs.map Char.toLower
  if word = "inf".toList || word = "infinity".toList then some (Float.ofBits infinityBits.toUInt64)
  else if word = "nan".toList then some (0 / 0)
  else none

/-- Reads a number that a host supplies as text. -/
def read (cs : List Char) : Except ReadError Float :=
  let unsigned (ds : List Char) : Option Float := readDecimal ds <|> readWord ds
  let value := match cs with
    | '-' :: ds => (unsigned ds).map (- ·)
    | '+' :: ds => unsigned ds
    | ds => unsigned ds
  match cs, value with
  | [], _ => .error .empty
  | _, none => .error .malformed
  | _, some x => .ok x

/-- Reads a script literal: an optional minus, then digits with at most one point among them. -/
def readLiteral (cs : List Char) : Option Float :=
  let negative := cs.head? == some '-'
  let digits := if negative then cs.tail else cs
  if digits.isEmpty || digits = ['.'] then none
  else if digits.count '.' > 1 || !digits.all isNumberChar then none
  else (readDecimal digits).map (withSign negative)

end HostScript.Number
