import HostScript.Host
import HostScript.Proofs.Expr.Printer
import Mathlib.Data.List.TakeWhile

/-!
# Arithmetic

Trees of decimal numerals and binary operators, with the words that they are written in: every operation
below the root stands in parentheses, and numerals stand by themselves. What a tree denotes is computed
from the left to the right, without any of the text.
-/
namespace HostScript

open Text

/-- A decimal numeral: digits with at most one point among them, and perhaps a minus in front. -/
structure Numeral where
  negative : Bool
  digits : List Char
  wellFormed : digits.all isNumberChar
  points : digits.count '.' ≤ 1
  hasDigit : digits.any Char.isDigit

namespace Numeral

def characters (n : Numeral) : List Char := if n.negative then '-' :: n.digits else n.digits

def token (n : Numeral) : Token := ⟨.number, String.ofList n.characters⟩

theorem isNumber (n : Numeral) : ∀ c ∈ n.digits, isNumberChar c := List.all_eq_true.mp n.wellFormed

theorem nonempty (n : Numeral) : ∃ c ∈ n.digits, c.isDigit := List.any_eq_true.mp n.hasDigit

theorem isDigit_of_ne_point (n : Numeral) {c : Char} (hc : c ∈ n.digits) (hpoint : c ≠ '.') :
    c.isDigit := by
  have hnumber := n.isNumber c hc
  simpa [isNumberChar, hpoint] using hnumber

/-- Behind the leading digits a numeral has nothing more, or a point and further digits. -/
theorem dropWhile_isDigit (n : Numeral) :
    n.digits.dropWhile Char.isDigit = [] ∨
      ∃ ds, n.digits.dropWhile Char.isDigit = '.' :: ds ∧ ∀ c ∈ ds, c.isDigit := by
  cases hdrop : n.digits.dropWhile Char.isDigit with
  | nil => exact .inl rfl
  | cons c ds =>
    have hsuffix : c :: ds <:+ n.digits := hdrop ▸ List.dropWhile_suffix _
    have hc : c.isDigit = false := by
      have hhead := List.head?_dropWhile_not Char.isDigit n.digits
      rw [hdrop] at hhead
      simpa using hhead
    have hpoint : c = '.' := by
      have hnumber := n.isNumber c (hsuffix.subset List.mem_cons_self)
      simpa [isNumberChar, hc] using hnumber
    subst hpoint
    refine .inr ⟨ds, rfl, fun d hd => ?_⟩
    refine n.isDigit_of_ne_point (hsuffix.subset (List.mem_cons_of_mem _ hd)) ?_
    rintro rfl
    have hcount := (hsuffix.sublist.count_le '.').trans n.points
    have hpos := List.count_pos_iff.mpr hd
    rw [List.count_cons_self] at hcount
    omega

/-- The number that a numeral denotes without its sign: that of its digits, with as many of them behind the
point as stand there. -/
def magnitude (n : Numeral) : Float :=
  Number.ofDecimal (n.digits.filter Char.isDigit) (-((n.digits.dropWhile Char.isDigit).tail.length : Int))

theorem readDecimal_digits (n : Numeral) : Number.readDecimal n.digits = some n.magnitude := by
  have hsplit : n.digits.takeWhile Char.isDigit ++ n.digits.dropWhile Char.isDigit = n.digits :=
    List.takeWhile_append_dropWhile
  have hwhole : (n.digits.takeWhile Char.isDigit).filter Char.isDigit = n.digits.takeWhile Char.isDigit :=
    List.filter_eq_self.mpr (List.all_eq_true.mp List.all_takeWhile)
  obtain ⟨d, hd, hdigit⟩ := n.nonempty
  unfold Number.readDecimal magnitude
  rcases n.dropWhile_isDigit with hnone | ⟨ds, hpoint, hdigits⟩
  · rw [hnone, List.append_nil] at hsplit
    rw [hsplit] at hwhole
    have hne : n.digits ≠ [] := List.ne_nil_of_mem hd
    simp [hnone, hsplit, hwhole, hne]
  · have hfraction : ds.takeWhile Char.isDigit = ds := List.takeWhile_eq_self_iff.mpr hdigits
    have hrest : ds.dropWhile Char.isDigit = [] := List.dropWhile_eq_nil_iff.mpr hdigits
    have hfilter : n.digits.filter Char.isDigit = n.digits.takeWhile Char.isDigit ++ ds := by
      conv_lhs => rw [← hsplit, hpoint]
      rw [List.filter_append, hwhole, List.filter_cons_of_neg (by decide), List.filter_eq_self.mpr hdigits]
    have hne : ((n.digits.takeWhile Char.isDigit).isEmpty && ds.isEmpty) = false := by
      have hmem : d ∈ n.digits.takeWhile Char.isDigit ++ ds := hfilter ▸ List.mem_filter.mpr ⟨hd, hdigit⟩
      simpa using List.ne_nil_of_mem hmem
    simp only [hpoint, hfraction, hrest, hfilter, hne]
    rfl

theorem head?_digits_ne_minus (n : Numeral) : n.digits.head? ≠ some '-' := by
  intro hhead
  have hnumber := n.isNumber '-' (List.mem_of_mem_head? hhead)
  cases hnumber

/-- Every numeral is a literal of the script language. -/
theorem readLiteral_characters (n : Numeral) :
    Number.readLiteral n.characters = some (Number.withSign n.negative n.magnitude) := by
  obtain ⟨d, hd, hdigit⟩ := n.nonempty
  have hne : n.digits ≠ [] := List.ne_nil_of_mem hd
  have hpoint : n.digits ≠ ['.'] := by
    intro heq
    rw [heq, List.mem_singleton] at hd
    subst hd
    cases hdigit
  have hpoints : ¬1 < n.digits.count '.' := Nat.not_lt.mpr n.points
  unfold Number.readLiteral characters
  cases n.negative with
  | true => simp [hne, hpoint, n.wellFormed, hpoints, n.readDecimal_digits]
  | false =>
    have hminus : (n.digits.head? == some '-') = false := beq_eq_false_iff_ne.mpr n.head?_digits_ne_minus
    simp [hminus, hne, hpoint, n.wellFormed, hpoints, n.readDecimal_digits]

theorem isSome_readLiteral (n : Numeral) : (Number.readLiteral n.characters).isSome := by
  rw [n.readLiteral_characters]
  rfl

/-- The number that a numeral denotes. -/
def value (n : Numeral) : Float := (Number.readLiteral n.characters).get n.isSome_readLiteral

end Numeral

/-- A tree of operations on numerals. -/
inductive Arithmetic where
  | literal (n : Numeral)
  | binary (op : Operator) (left right : Arithmetic)

namespace Arithmetic

/-- The tokens of a tree below the root. An operation stands in parentheses. -/
def operand : Arithmetic → List Token
  | .literal n => [n.token]
  | .binary op left right => parens (left.operand ++ op.kind.token :: right.operand)

def print : Arithmetic → List Token
  | .literal n => [n.token]
  | .binary op left right => left.operand ++ op.kind.token :: right.operand

/-- The expression that a tree stands for. -/
def expr : Arithmetic → Expr
  | .literal n => .literal (.number n.value)
  | .binary op left right => .binary op left.expr right.expr

/-- What a tree denotes: the operands are computed from left to right, then the operation is applied. -/
def value {σ : Type} [Host σ] : Arithmetic → HostM σ Value
  | .literal n => return .number n.value
  | .binary op left right => do
    let a ← left.value
    let b ← right.value
    applyBinary op a b

end Arithmetic

/-- A text that is written in the given words, with any white space before, between and behind them. -/
inductive Spaced : List String → List Char → Prop where
  | done (gap : List Char) (hgap : gap.all isBlank) : Spaced [] gap
  | word (gap : List Char) (word : String) {words : List String} {rest : List Char}
    (hgap : gap.all isBlank) (hrest : Spaced words rest) :
    Spaced (word :: words) (gap ++ (word.toList ++ rest))

end HostScript
