import HostScript.Proofs.Arithmetic.Scan
import HostScript.Proofs.Token.Names

/-!
# Signs of numbers

A number takes a minus as its sign only where no operand ends right before it. Behind an operand the same
characters are read as a subtraction and a number without that sign. What counts as right before is the
token that was read last, so characters that were skipped since then make no difference.
-/
namespace HostScript

namespace Matcher

variable {s : Scanner} {input : List Char}

/-- Behind the sign of a number comes the symbol of a number without it. -/
theorem first?_number_minus {digits : List Char}
    (h : Symbol.first? input = some (.number, '-' :: digits)) :
    ∃ rest, input = '-' :: rest ∧ Symbol.first? rest = some (.number, digits) := by
  cases input with
  | nil => cases h
  | cons c cs =>
    simp only [Symbol.first?] at h
    split at h
    · rename_i hc
      cases h
      cases hc
    split at h
    · cases h
    split at h
    · subst c
      refine ⟨cs, rfl, ?_⟩
      unfold Symbol.minus at h
      split at h
      · cases h
      · cases h
      · dsimp only at h
        split at h
        · cases h
        · rename_i hdigits
          cases h
          cases cs with
          | nil => exact absurd rfl hdigits
          | cons d ds =>
            by_cases hd : Text.isNumberChar d
            · rw [List.takeWhile_cons_of_pos hd]
              exact if_pos hd
            · rw [List.takeWhile_cons_of_neg hd] at hdigits
              exact absurd rfl hdigits
    split at h
    · unfold Symbol.plus at h
      split at h
      all_goals cases h
    · obtain ⟨kind, hkind, heq⟩ := Option.map_eq_some_iff.mp h
      cases heq
      cases hkind

end Matcher

/-- Behind an operand no number is read with a sign. -/
theorem Scanner.head?_ne_minus {s : Scanner} {input : List Char} {m : Matcher} {l : Lexeme}
    (hafter : s.afterOperand = true) (h : s.next? input = some (m, l)) (hkind : l.token.kind = .number) :
    l.token.text.toList.head? ≠ some '-' := by
  intro hhead
  obtain ⟨digits, htext⟩ := List.head?_eq_some_iff.mp hhead
  have hfirst := m.first?_of_scan_number (scan_of_next? h) hkind
  rw [htext] at hfirst
  obtain ⟨rest, rfl, hrest⟩ := Matcher.first?_number_minus hfirst
  have hsubtraction := next?_subtraction hafter hrest
  cases hsubtraction.symm.trans h
  cases hkind

/-- The state behind a token is one behind an operand if the token ends one. -/
theorem Scanner.afterOperand_foldl_commit (s : Scanner) {ts : List Token} {t : Token}
    (ht : ts.getLast? = some t) : (ts.foldl commit s).afterOperand = t.kind.endsOperand := by
  obtain ⟨before, rfl⟩ := List.getLast?_eq_some_iff.mp ht
  rw [List.foldl_append]
  rfl

/-- No number with a sign follows an operand. Among the tokens of a script, no number that begins with a
minus comes right behind a token that ends an operand, however many characters were skipped between the
two. Where the text goes on behind such a token, and behind any skipped characters, with a minus and a
number, the next token is that minus by itself, and the number is not read with it. -/
theorem no_sign_after_operand (builtins : List String) (source : String) :
    (∀ pre t u post, (tokenize builtins source).tokens = pre ++ t :: u :: post → t.kind.endsOperand →
      u.kind = .number → u.text.toList.head? ≠ some '-') ∧
      ∀ before after t rest literal, (tokenize builtins source).pieces = before ++ after →
        (before.filterMap Piece.token?).getLast? = some t → t.kind.endsOperand →
        after.flatMap Piece.spelling = '-' :: rest → Symbol.first? rest = some (.number, literal) →
        ∃ later, after = .token .subtraction ⟨⟨.minus, "-"⟩, ['-']⟩ :: later ∧
          later.flatMap Piece.spelling = rest := by
  have hcuts := tokenize_cuts builtins source
  refine ⟨fun pre t u post htokens ht hu => ?_, fun before after t rest literal hpieces hlast ht hafter hrest => ?_⟩
  · have hsplit : (tokenize builtins source).pieces.filterMap Piece.token? = (pre ++ [t]) ++ u :: post := by
      rw [List.append_assoc]
      exact htokens
    obtain ⟨input, m, l, hnext, rfl⟩ := hcuts.read hsplit
    refine Scanner.head?_ne_minus ?_ hnext hu
    rw [Scanner.afterOperand_foldl_commit _ List.getLast?_concat]
    exact ht
  · rw [hpieces] at hcuts
    obtain ⟨s, c, rfl, hs, hcuts, -⟩ := hcuts.split .start
    have hunread := hcuts.flatMap_spelling hs
    rw [hafter] at hunread
    have hnext := Scanner.next?_subtraction
      ((Scanner.afterOperand_foldl_commit (Scanner.start builtins) hlast).trans ht) hrest
    rw [hunread] at hnext
    cases hcuts with
    | done hnil =>
      rw [hnil] at hunread
      cases hunread
    | token hread _ =>
      cases hnext.symm.trans hread
      exact ⟨_, rfl, (List.cons.inj hafter).2⟩
    | skipped _ hnone _ => cases hnext.symm.trans hnone

example : (tokenize [] "1 @ -2").tokens = [⟨.number, "1"⟩, ⟨.minus, "-"⟩, ⟨.number, "2"⟩] := by decide +kernel

end HostScript
