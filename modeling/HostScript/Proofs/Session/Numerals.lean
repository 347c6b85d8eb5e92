import HostScript.Proofs.Arithmetic.Syntax
import HostScript.Proofs.Expr.Outcome
import HostScript.Proofs.Session.Kept
import HostScript.Proofs.Token.Names

/-!
# Number literals

The scan takes any run of digits and points for a number, with or without a minus in front of it, and it
is the parser that refuses a run which denotes nothing. The literals that it accepts are the decimal
numerals, and the text reader of a host takes the same digits for the same number.
-/
namespace HostScript

open Text

/-- Digits and at most one point have a digit among them, unless they are nothing or a point by itself. -/
theorem Number.any_isDigit {cs : List Char} (hnumber : cs.all isNumberChar) (hpoints : cs.count '.' ≤ 1)
    (hne : cs ≠ []) (hpoint : cs ≠ ['.']) : cs.any Char.isDigit := by
  by_contra hnone
  have honly : ∀ c ∈ cs, c = '.' := by
    intro c hc
    have hdigit : c.isDigit = false := by
      simpa using fun h => hnone (List.any_eq_true.mpr ⟨c, hc, h⟩)
    have hcharacter := List.all_eq_true.mp hnumber c hc
    simpa [isNumberChar, hdigit] using hcharacter
  have hreplicate : cs = List.replicate cs.length '.' := List.eq_replicate_iff.mpr ⟨rfl, honly⟩
  rw [hreplicate, List.count_replicate_self] at hpoints
  have hlength : cs.length = 0 ∨ cs.length = 1 := by omega
  rcases hlength with hlength | hlength
  · exact hne (List.length_eq_zero_iff.mp hlength)
  · rw [hlength] at hreplicate
    exact hpoint hreplicate

/-- The literals of the script language are the decimal numerals. -/
theorem Number.isSome_readLiteral_iff {cs : List Char} :
    (Number.readLiteral cs).isSome ↔ ∃ n : Numeral, n.characters = cs := by
  refine ⟨fun h => ?_, ?_⟩
  · unfold Number.readLiteral at h
    extract_lets negative digits at h
    split at h
    · cases h
    rename_i hlong
    split at h
    · cases h
    rename_i hshape
    obtain ⟨hne, hpoint⟩ : digits ≠ [] ∧ digits ≠ ['.'] := by simpa using hlong
    obtain ⟨hpoints, hnumber⟩ : digits.count '.' ≤ 1 ∧ digits.all isNumberChar := by simpa using hshape
    refine ⟨⟨negative, digits, hnumber, hpoints, any_isDigit hnumber hpoints hne hpoint⟩, ?_⟩
    by_cases hminus : cs.head? = some '-'
    · obtain ⟨ds, rfl⟩ := List.head?_eq_some_iff.mp hminus
      rfl
    · have hnegative : negative = false := beq_eq_false_iff_ne.mpr hminus
      simp [Numeral.characters, digits, hnegative]
  · rintro ⟨n, rfl⟩
    exact n.isSome_readLiteral

namespace Numeral

theorem value_eq (n : Numeral) : n.value = if n.negative then -n.magnitude else n.magnitude := by
  simp only [value, n.readLiteral_characters, Option.get_some]
  rfl

/-- The text reader of a host takes the digits of a numeral for the same number. -/
theorem read_digits (n : Numeral) : Number.read n.digits = .ok n.magnitude := by
  have hdecimal := n.readDecimal_digits
  obtain ⟨d, hd, -⟩ := n.nonempty
  unfold Number.read
  cases hdigits : n.digits with
  | nil =>
    rw [hdigits] at hd
    cases hd
  | cons c cs =>
    have hc : isNumberChar c := n.isNumber c (hdigits ▸ List.mem_cons_self)
    rw [hdigits] at hdecimal
    split
    · cases ‹c :: cs = _›
      cases hc
    · cases ‹c :: cs = _›
      cases hc
    · dsimp only
      rw [hdecimal]
      rfl

end Numeral

theorem numberLiteral_eq_ok {text : String} {x : Float} :
    numberLiteral text = .ok x ↔ ∃ n : Numeral, n.characters = text.toList ∧ n.value = x := by
  unfold numberLiteral
  refine ⟨fun h => ?_, ?_⟩
  · cases hread : Number.readLiteral text.toList with
    | none => simp [hread] at h
    | some y =>
      rw [hread] at h
      cases h
      obtain ⟨n, hn⟩ := Number.isSome_readLiteral_iff.mp (Option.isSome_of_eq_some hread)
      refine ⟨n, hn, ?_⟩
      simp only [Numeral.value, hn, hread, Option.get_some]
  · rintro ⟨n, hn, rfl⟩
    rw [← hn, ← Option.some_get n.isSome_readLiteral]
    rfl

/-- The text of a number token is a run of digits and points, perhaps behind a minus. -/
theorem tokenize_number {builtins : List String} {source : String} {t : Token}
    (ht : t ∈ (tokenize builtins source).tokens) (hkind : t.kind = .number) :
    ∃ digits, digits ≠ [] ∧ (∀ c ∈ digits, isNumberChar c) ∧
      (t.text.toList = digits ∨ t.text.toList = '-' :: digits) := by
  obtain ⟨pre, post, hsplit⟩ := List.append_of_mem ht
  obtain ⟨input, m, l, hnext, rfl⟩ := (tokenize_cuts builtins source).read hsplit
  exact m.scan_number (Scanner.scan_of_next? hnext) hkind

/-- A run of digits and points that is no literal has two points, or it has no digit. -/
theorem two_points_or_no_digit {literal digits : List Char} (hread : Number.readLiteral literal = none)
    (hnumber : ∀ c ∈ digits, isNumberChar c) (hliteral : literal = digits ∨ literal = '-' :: digits) :
    2 ≤ literal.count '.' ∨ ∀ c ∈ literal, c.isDigit = false := by
  by_contra! hwell
  obtain ⟨hpoints, d, hd, hdigit⟩ := hwell
  have hrun : literal.count '.' = digits.count '.' ∧ d ∈ digits := by
    rcases hliteral with rfl | rfl
    · exact ⟨rfl, hd⟩
    · refine ⟨List.count_cons_of_ne (by decide), (List.mem_cons.mp hd).resolve_left ?_⟩
      rintro rfl
      exact hdigit rfl
  obtain ⟨hcount, hmem⟩ := hrun
  have hall : digits.all isNumberChar := List.all_eq_true.mpr hnumber
  have hany : digits.any Char.isDigit := List.any_eq_true.mpr ⟨d, hmem, by simpa using hdigit⟩
  rw [hcount] at hpoints
  have hnumeral : ∃ n : Numeral, n.characters = literal := by
    rcases hliteral with rfl | rfl
    · exact ⟨⟨false, literal, hall, Nat.lt_succ_iff.mp hpoints, hany⟩, rfl⟩
    · exact ⟨⟨true, digits, hall, Nat.lt_succ_iff.mp hpoints, hany⟩, rfl⟩
  rw [← Number.isSome_readLiteral_iff, hread] at hnumeral
  cases hnumeral

/-- The literal that a compilation fails for is the text of a number token of its script. -/
theorem Session.compile_malformedNumber {σ : Type} {s t : Session σ} {source : String} {debug : Bool}
    {literal : String} (h : compile source debug s = (.error (.parse (.malformedNumber literal)), t)) :
    ⟨.number, literal⟩ ∈ (tokenize s.builtins.names source).tokens ∧
      Number.readLiteral literal.toList = none := by
  have hobtains := compile_obtains source debug s
  rw [h] at hobtains
  cases hobtains with
  | refused _ _ he =>
    obtain ⟨hmem, hread⟩ := parse_error_concerns he
    refine ⟨?_, hread⟩
    have hkind : (⟨.number, literal⟩ : Token).kind ≠ .semicolon := nofun
    rw [← List.count_pos_iff, ← group_count hkind]
    exact List.count_pos_iff.mpr hmem

/-- Number literals are the decimal numerals. A text is read as a number literal if and only if it is an
optional minus and digits with at most one point and at least one digit among them, and it denotes the
number that the text reader of a host takes its digits for, negated if the minus is there. Every number
token of a script is a run of digits and points, perhaps behind a minus. A script does not compile for a
malformed number only if that is one of its number tokens, and has two points or more or no digit. -/
theorem number_literals {σ : Type} :
    (∀ text x, numberLiteral text = .ok x ↔
      ∃ n : Numeral, n.characters = text.toList ∧ (if n.negative then -n.magnitude else n.magnitude) = x) ∧
    (∀ n : Numeral, Number.read n.digits = .ok n.magnitude) ∧
    (∀ builtins source, ∀ t ∈ (tokenize builtins source).tokens, t.kind = .number →
      ∃ digits, digits ≠ [] ∧ (∀ c ∈ digits, isNumberChar c) ∧
        (t.text.toList = digits ∨ t.text.toList = '-' :: digits)) ∧
    ∀ (s t : Session σ) source debug literal,
      Session.compile source debug s = (.error (.parse (.malformedNumber literal)), t) →
        ⟨.number, literal⟩ ∈ (tokenize s.builtins.names source).tokens ∧
          (2 ≤ literal.toList.count '.' ∨ ∀ c ∈ literal.toList, c.isDigit = false) := by
  refine ⟨fun text x => ?_, Numeral.read_digits, fun _ _ t ht hkind => tokenize_number ht hkind, ?_⟩
  · simp only [numberLiteral_eq_ok, Numeral.value_eq]
  · intro s t source debug literal h
    obtain ⟨hmem, hread⟩ := Session.compile_malformedNumber h
    obtain ⟨digits, -, hnumber, hliteral⟩ := tokenize_number hmem rfl
    exact ⟨hmem, two_points_or_no_digit hread hnumber hliteral⟩

example : (match parseSource [] "2 - -." with
    | .error e => e == .malformedNumber "-."
    | .ok _ => false) = true := by decide +kernel

end HostScript
