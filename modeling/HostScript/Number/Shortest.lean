import HostScript.Number.Rounding

/-!
# Writing a double with the fewest digits

A finite double is written with the fewest decimal digits that read back to it. Of two equally short
candidates the nearer one is written, and of two equally near ones the larger.
-/
namespace HostScript.Number

/-- The point of the decimal grid `10 ^ exponent` that reads back to `m`. The reals that round to `m`
reach half a gap to both sides, a quarter below where the gap below is the smaller one, and include the
ends if the significand is even. -/
def gridPoint? (m : Magnitude) (exponent : Int) : Option Nat :=
  let binary := m.exponent - 2
  let scale := twoTo binary.toNat * tenTo (-exponent).toNat
  let unit := twoTo (-binary).toNat * tenTo exponent.toNat
  let value := 4 * m.significand * scale
  let narrow := m.significand = normalSignificand ∧ leastExponent < m.exponent
  let low := if narrow then value - scale else value - 2 * scale
  let high := value + 2 * scale
  let inside (n : Nat) : Bool :=
    if m.significand % 2 = 0 then low ≤ n * unit && n * unit ≤ high
    else low < n * unit && n * unit < high
  let below := value / unit
  match inside below, inside (below + 1) with
  | true, true => some (if 2 * (value - below * unit) < unit then below else below + 1)
  | true, false => some below
  | false, true => some (below + 1)
  | false, false => none

/-- Tries ever finer grids, from `10 ^ exponent` on. -/
def coarsestPoint (m : Magnitude) : Nat → Int → Nat × Int
  | 0, exponent => (0, exponent)
  | fuel + 1, exponent =>
    match gridPoint? m exponent with
    | some n => (n, exponent)
    | none => coarsestPoint m fuel (exponent - 1)

/-- The fewest digits, as `digits * 10 ^ exponent`. The search starts above the magnitude, and twenty
grids further down every double is told apart from its neighbours. -/
def shortest (m : Magnitude) : Nat × Int :=
  let bits : Int := (m.significand.log2 : Int) + 1 + m.exponent
  coarsestPoint m 24 (bits * 30103 / 100000 + 1)

/-- Writes `digits * 10 ^ exponent` without an exponent mark. -/
def positional (digits : Nat) (exponent : Int) : List Char :=
  let written := Nat.toDigits 10 digits
  if 0 ≤ exponent then written ++ List.replicate exponent.toNat '0'
  else
    let places := (-exponent).toNat
    let padded := List.replicate (places + 1 - written.length) '0' ++ written
    let whole := padded.take (padded.length - places)
    let fraction := ((padded.drop (padded.length - places)).reverse.dropWhile (· == '0')).reverse
    if fraction.isEmpty then whole else whole ++ '.' :: fraction

/-- The text of a number. Negative zero keeps its sign, and a number that is not one has none. -/
def render (x : Float) : String :=
  if x.isNaN then "NaN"
  else
    let m := magnitude x
    let body :=
      if x.isInf then ['i', 'n', 'f']
      else if m.significand = 0 then ['0']
      else
        let d := shortest m
        positional d.1 d.2
    String.ofList (if isNegative x then '-' :: body else body)

end HostScript.Number
