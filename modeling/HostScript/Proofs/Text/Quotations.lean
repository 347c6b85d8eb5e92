import HostScript.Text.Basic

/-!
# Quotations

The double quotes of a text cut it into segments, and every second segment is quoted. Removal of white
space keeps quoted segments apart from the others by a flag that each quote flips, so what it leaves has
the same quotations, and it finds nothing more to remove.
-/
namespace HostScript.Text

/-- Every second member of a list, from the first one on if `keep` holds and from the second one on if
not. -/
def everyOther {α : Type} : (keep : Bool) → List α → List α
  | _, [] => []
  | true, x :: xs => x :: everyOther false xs
  | false, _ :: xs => everyOther true xs

section

variable {α : Type} (f : α → α) (xs : List α)

theorem everyOther_false_modifyHead : everyOther false (xs.modifyHead f) = everyOther false xs := by
  cases xs <;> rfl

theorem everyOther_true_modifyHead :
    everyOther true (xs.modifyHead f) = (everyOther true xs).modifyHead f := by
  cases xs <;> rfl

end

/-- The segments of a text that stand inside double quotes, where `quoted` says whether the text begins
inside of them. Behind a last quote without a partner the text is quoted to its end. -/
def quotationsFrom (quoted : Bool) (cs : List Char) : List (List Char) :=
  everyOther quoted (cs.splitOn '"')

/-- The segments of a text between its first and second, third and fourth double quote and so on, with
the segment behind a last quote without a partner. -/
def quotations (cs : List Char) : List (List Char) := quotationsFrom false cs

variable {quoted : Bool} {c : Char} {cs ds : List Char}

theorem quotationsFrom_quote (quoted : Bool) (cs : List Char) :
    quotationsFrom quoted ('"' :: cs) = (if quoted then [[]] else []) ++ quotationsFrom (!quoted) cs := by
  have hsplit : ('"' :: cs).splitOn '"' = [] :: cs.splitOn '"' := by
    simp [List.splitOn_cons_eq_if_modifyHead]
  rw [quotationsFrom, hsplit]
  cases quoted <;> rfl

theorem splitOn_cons_of_ne (hc : c ≠ '"') :
    (c :: cs).splitOn '"' = (cs.splitOn '"').modifyHead (List.cons c) := by
  simp [List.splitOn_cons_eq_if_modifyHead, hc]

theorem quotationsFrom_false_cons (hc : c ≠ '"') :
    quotationsFrom false (c :: cs) = quotationsFrom false cs := by
  rw [quotationsFrom, splitOn_cons_of_ne hc, everyOther_false_modifyHead]
  rfl

theorem quotationsFrom_true_cons (hc : c ≠ '"') :
    quotationsFrom true (c :: cs) = (quotationsFrom true cs).modifyHead (List.cons c) := by
  rw [quotationsFrom, splitOn_cons_of_ne hc, everyOther_true_modifyHead]
  rfl

theorem quotations_append (h : '"' ∉ cs) : quotations (cs ++ ds) = quotations ds := by
  induction cs with
  | nil => rfl
  | cons c cs ih =>
    rw [List.mem_cons, not_or] at h
    obtain ⟨hc, hcs⟩ := h
    rw [List.cons_append, quotations, quotationsFrom_false_cons (Ne.symm hc)]
    exact ih hcs

theorem quotations_closed (h : '"' ∉ cs) : quotations ('"' :: cs ++ '"' :: ds) = cs :: quotations ds := by
  rw [List.cons_append, quotations, quotationsFrom_quote, quotationsFrom,
    List.splitOn_append_cons_self_of_not_mem h]
  rfl

theorem quotations_open (h : '"' ∉ cs) : quotations ('"' :: cs) = [cs] := by
  rw [quotations, quotationsFrom_quote, quotationsFrom, List.splitOn_eq_singleton h]
  rfl

theorem stripFrom_quote (quoted : Bool) (cs : List Char) :
    stripFrom quoted ('"' :: cs) = '"' :: stripFrom (!quoted) cs := by
  rw [stripFrom, if_pos rfl]

theorem stripFrom_true_cons (hc : c ≠ '"') : stripFrom true (c :: cs) = c :: stripFrom true cs := by
  rw [stripFrom, if_neg hc]
  rfl

theorem stripFrom_false_cons (hc : c ≠ '"') :
    stripFrom false (c :: cs) = if isBlank c then stripFrom false cs else c :: stripFrom false cs := by
  rw [stripFrom, if_neg hc]
  cases isBlank c <;> rfl

theorem stripFrom_blank {gap : List Char} (hgap : gap.all isBlank) (rest : List Char) :
    stripFrom false (gap ++ rest) = stripFrom false rest := by
  induction gap with
  | nil => rfl
  | cons c gap ih =>
    obtain ⟨hc, hgap⟩ := (Bool.and_eq_true _ _).mp hgap
    have hquote : c ≠ '"' := by
      rintro rfl
      cases hc
    rw [List.cons_append, stripFrom_false_cons hquote, if_pos hc, ih hgap]

/-- Removal of white space leaves what is quoted as it is. -/
theorem quotationsFrom_stripFrom (quoted : Bool) (cs : List Char) :
    quotationsFrom quoted (stripFrom quoted cs) = quotationsFrom quoted cs := by
  induction cs generalizing quoted with
  | nil => rfl
  | cons c cs ih =>
    by_cases hc : c = '"'
    · subst hc
      rw [stripFrom_quote, quotationsFrom_quote, quotationsFrom_quote, ih]
    cases quoted with
    | true => rw [stripFrom_true_cons hc, quotationsFrom_true_cons hc, quotationsFrom_true_cons hc, ih]
    | false =>
      rw [stripFrom_false_cons hc, quotationsFrom_false_cons hc]
      split
      · exact ih false
      · rw [quotationsFrom_false_cons hc, ih]

theorem quotations_stripBlanks (cs : List Char) : quotations (stripBlanks cs) = quotations cs :=
  quotationsFrom_stripFrom false cs

theorem stripFrom_stripFrom (quoted : Bool) (cs : List Char) :
    stripFrom quoted (stripFrom quoted cs) = stripFrom quoted cs := by
  induction cs generalizing quoted with
  | nil => rfl
  | cons c cs ih =>
    by_cases hc : c = '"'
    · subst hc
      rw [stripFrom_quote, stripFrom_quote, ih]
    cases quoted with
    | true => rw [stripFrom_true_cons hc, stripFrom_true_cons hc, ih]
    | false =>
      rw [stripFrom_false_cons hc]
      split
      · exact ih false
      · rename_i hblank
        rw [stripFrom_false_cons hc, if_neg hblank, ih]

theorem length_stripFrom_le (quoted : Bool) (cs : List Char) :
    (stripFrom quoted cs).length ≤ cs.length := by
  induction cs generalizing quoted with
  | nil => exact Nat.le_refl 0
  | cons c cs ih =>
    unfold stripFrom
    split
    · exact Nat.succ_le_succ (ih _)
    split
    · exact Nat.succ_le_succ (ih _)
    · exact Nat.le_succ_of_le (ih _)

/-- Whether what comes behind a text is quoted: every quote of the text flips this. -/
def quotedAfter (quoted : Bool) (cs : List Char) : Bool := quoted ^^ decide (cs.count '"' % 2 = 1)

theorem stripFrom_append (quoted : Bool) (cs ds : List Char) :
    stripFrom quoted (cs ++ ds) = stripFrom quoted cs ++ stripFrom (quotedAfter quoted cs) ds := by
  induction cs generalizing quoted with
  | nil => simp [stripFrom, quotedAfter]
  | cons c cs ih =>
    by_cases hc : c = '"'
    · subst hc
      have hflip : quotedAfter quoted ('"' :: cs) = quotedAfter (!quoted) cs := by
        unfold quotedAfter
        rw [List.count_cons_self]
        rcases Nat.mod_two_eq_zero_or_one (cs.count '"') with h | h <;> simp [Nat.add_mod, h]
      rw [List.cons_append, stripFrom_quote, stripFrom_quote, ih, hflip, List.cons_append]
    have hkeep : quotedAfter quoted (c :: cs) = quotedAfter quoted cs := by
      rw [quotedAfter, List.count_cons_of_ne hc, quotedAfter]
    rw [hkeep, List.cons_append]
    cases quoted with
    | true => rw [stripFrom_true_cons hc, stripFrom_true_cons hc, ih, List.cons_append]
    | false =>
      rw [stripFrom_false_cons hc, stripFrom_false_cons hc, ih]
      split <;> rfl

/-- White space makes no difference wherever the text around it is not quoted. -/
theorem stripBlanks_insert {front gap : List Char} (hfront : front.count '"' % 2 = 0)
    (hgap : gap.all isBlank) (back : List Char) :
    stripBlanks (front ++ gap ++ back) = stripBlanks (front ++ back) := by
  have hunquoted : quotedAfter false front = false := by simp [quotedAfter, hfront]
  rw [stripBlanks, stripBlanks, List.append_assoc, stripFrom_append false front (gap ++ back),
    stripFrom_append false front back, hunquoted, stripFrom_blank hgap]

/-- If there is nothing to remove from a text, there is nothing to remove from its end. -/
theorem stripFrom_of_append (h : stripFrom quoted (cs ++ ds) = cs ++ ds) :
    stripFrom (quotedAfter quoted cs) ds = ds := by
  rw [stripFrom_append] at h
  have hlen := congrArg List.length h
  have hcs := length_stripFrom_le quoted cs
  have hds := length_stripFrom_le (quotedAfter quoted cs) ds
  simp only [List.length_append] at hlen
  exact (List.append_inj' h (by omega)).2

end HostScript.Text
