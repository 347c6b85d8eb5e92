import HostScript.Proofs.Token.Calls

/-!
# Where name tokens come from

A variable or an assignment is read only off a name that is declared at that point of the scan. What is
declared there can be told from the tokens before it: the bindings and the imports among them, and the
parameters that their headers list for the function around the point.
-/
namespace HostScript

/-- Whether a token declares a name for what follows it: a binding of the name, or an import whose
directive begins with the name, up to a `-`. -/
def Token.Declares (t : Token) (name : String) : Prop :=
  t = ⟨.letName, name⟩ ∨ t.kind = .importName ∧ Scanner.importedName t.text.toList = name.toList

def Kind.looksUp : Kind → Bool
  | .variableName | .assign => true
  | _ => false

theorem Matcher.scan_looksUp {s : Scanner} {input : List Char} {l : Lexeme} (m : Matcher)
    (h : m.scan s input = some l) (hkind : l.token.kind.looksUp) :
    s.variableNames.contains l.token.text.toList ∨ l.token.text ∈ s.activeParameters := by
  have known {name : List Char} (hname : s.declared? input = some name) :
      s.variableNames.contains (String.ofList name).toList ∨ String.ofList name ∈ s.activeParameters := by
    rw [String.toList_ofList]
    rcases Scanner.declared?_cases hname with hmatch | ⟨p, hp, rfl, _⟩
    · exact .inl (Trie.of_longestMatch hmatch).2.2
    · rw [String.ofList_toList]
      exact .inr hp
  have hreads := reads_of_scan m h
  have hkinds : l.token.kind = .variableName ∨ l.token.kind = .assign := by
    revert hkind
    cases l.token.kind <;> simp [Kind.looksUp]
  rcases hkinds with hk | hk
  · rw [hk] at hreads
    cases m with
    | variableName =>
      obtain ⟨name, hname, rfl⟩ := Option.map_eq_some_iff.mp h
      exact known hname
    | _ => cases hreads
  · rw [hk] at hreads
    cases m with
    | assign =>
      obtain ⟨name, hname, -, rfl⟩ := scanAssign_cases h
      exact known hname
    | _ => cases hreads

namespace Scanner

/-- The function header that was read last. -/
def header? (s : Scanner) : Option Token := s.tokens.find? fun u => u.kind == .function

theorem header?_commit (s : Scanner) (t : Token) :
    (s.commit t).header? = if t.kind = .function then some t else s.header? := by
  simp only [header?, commit, List.find?_cons]
  by_cases ht : t.kind = .function
  · simp [ht]
  · rw [if_neg ht, beq_eq_false_iff_ne.mpr ht]

/-- A token adds to the known variables the name that it declares. -/
theorem variableNames_commit (s : Scanner) (t : Token) (name : String) :
    (s.commit t).variableNames.contains name.toList ↔
      t.Declares name ∨ s.variableNames.contains name.toList := by
  have unchanged (hlet : t.kind ≠ .letName) (himport : t.kind ≠ .importName)
      (heq : (s.commit t).variableNames = s.variableNames) :
      (s.commit t).variableNames.contains name.toList ↔
        t.Declares name ∨ s.variableNames.contains name.toList := by
    have hdeclares : ¬t.Declares name := by
      rintro (rfl | ⟨hkind, _⟩)
      · exact hlet rfl
      · exact himport hkind
    rw [heq]
    exact ⟨.inr, fun h => h.resolve_left hdeclares⟩
  cases hkind : t.kind with
  | letName =>
    have hdeclares : t.Declares name ↔ name.toList = t.text.toList := by
      obtain ⟨kind, text⟩ := t
      cases hkind
      simp [Token.Declares, String.toList_inj, eq_comm]
    rw [hdeclares, ← Trie.contains_insert]
    simp only [commit, learn, hkind]
  | importName =>
    have hdeclares : t.Declares name ↔ name.toList = importedName t.text.toList := by
      obtain ⟨kind, text⟩ := t
      cases hkind
      simp [Token.Declares, eq_comm]
    rw [hdeclares, ← Trie.contains_insert]
    simp only [commit, learn, hkind]
  | parameter | rightScope =>
    refine unchanged (by simp [hkind]) (by simp [hkind]) ?_
    simp only [commit, learn, hkind]
    split <;> rfl
  | _ => exact unchanged (by simp [hkind]) (by simp [hkind]) (by simp only [commit, learn, hkind])

theorem variableNames_foldl_commit (ts : List Token) (s : Scanner) (name : String) :
    (ts.foldl commit s).variableNames.contains name.toList ↔
      (∃ t ∈ ts, t.Declares name) ∨ s.variableNames.contains name.toList := by
  induction ts generalizing s with
  | nil => simp
  | cons t ts ih =>
    rw [List.foldl_cons, ih, variableNames_commit]
    simp only [List.mem_cons, exists_eq_or_imp]
    exact or_left_comm.trans or_assoc.symm

theorem getD_insert_parameters (s : Scanner) (function other : String) (names : List String) :
    (s.parameters.insert function names).getD other [] =
      if function = other then names else s.parameters.getD other [] := by
  rw [Std.ExtTreeMap.getD_insert]
  simp only [Std.LawfulEqCmp.compare_eq_iff_eq]

/-- A parameter token is recorded for the function whose header was read last. -/
theorem mem_parameters_commit (s : Scanner) (t : Token) {function name : String} :
    name ∈ (s.commit t).parameters.getD function [] ↔
      name ∈ s.parameters.getD function [] ∨
        t = ⟨.parameter, name⟩ ∧ s.header?.map Token.text = some function := by
  have unchanged (hkind : t.kind ≠ .parameter)
      (heq : (s.commit t).parameters.getD function [] = s.parameters.getD function []) :
      name ∈ (s.commit t).parameters.getD function [] ↔
        name ∈ s.parameters.getD function [] ∨
          t = ⟨.parameter, name⟩ ∧ s.header?.map Token.text = some function := by
    rw [heq]
    refine ⟨.inl, fun h => h.resolve_right ?_⟩
    rintro ⟨rfl, _⟩
    exact hkind rfl
  cases hkind : t.kind with
  | function =>
    refine unchanged (by simp [hkind]) ?_
    simp only [commit, learn, hkind, getD_insert_parameters]
    split
    · rename_i heq
      rw [heq]
    · rfl
  | parameter =>
    obtain ⟨kind, text⟩ := t
    cases hkind
    simp only [commit, learn, header?, Token.mk.injEq, true_and]
    cases s.tokens.find? fun u => u.kind == .function with
    | none => simp
    | some owner =>
      simp only [getD_insert_parameters, Option.map_some, Option.some.injEq]
      by_cases howner : owner.text = function
      · simp [howner, eq_comm]
      · simp [howner]
  | rightScope =>
    refine unchanged (by simp [hkind]) ?_
    simp only [commit, learn, hkind]
    split <;> rfl
  | _ => exact unchanged (by simp [hkind]) (by simp only [commit, learn, hkind])

theorem Reachable.declares {builtins : List String} {s : Scanner} (hs : Reachable builtins s)
    {name : String} (h : s.variableNames.contains name.toList) : ∃ t ∈ s.tokens, t.Declares name := by
  induction hs with
  | start =>
    have hempty : (Scanner.start builtins).variableNames.contains name.toList = false :=
      Trie.contains_empty _
    rw [hempty] at h
    cases h
  | commit _ _ ih =>
    rcases (variableNames_commit _ _ name).mp h with hdeclares | hold
    · exact ⟨_, List.mem_cons_self, hdeclares⟩
    · obtain ⟨t, ht, hdeclares⟩ := ih hold
      exact ⟨t, List.mem_cons_of_mem _ ht, hdeclares⟩

theorem Reachable.recorded {builtins : List String} {s : Scanner} (hs : Reachable builtins s)
    {function name : String} (h : name ∈ s.parameters.getD function []) :
    ⟨.parameter, name⟩ ∈ s.tokens := by
  induction hs with
  | start => simp [Scanner.start] at h
  | commit _ _ ih =>
    rcases (mem_parameters_commit _ _).mp h with hold | ⟨heq, _⟩
    · exact List.mem_cons_of_mem _ (ih hold)
    · exact heq ▸ List.mem_cons_self

/-- Recorded parameters stay. -/
theorem mem_parameters_foldl_commit {s : Scanner} {function name : String}
    (h : name ∈ s.parameters.getD function []) (ts : List Token) :
    name ∈ (ts.foldl commit s).parameters.getD function [] := by
  induction ts generalizing s with
  | nil => exact h
  | cons t ts ih => exact ih ((s.mem_parameters_commit t).mpr (.inl h))

/-- Every token is read in the state that the tokens before it lead to. -/
theorem Cuts.read {s : Scanner} {c : Cursor} {ps : List Piece} (h : Cuts s c ps) {pre post : List Token}
    {t : Token} (hsplit : ps.filterMap Piece.token? = pre ++ t :: post) :
    ∃ input m l, (pre.foldl commit s).next? input = some (m, l) ∧ l.token = t := by
  induction h generalizing pre with
  | done => simp at hsplit
  | @token s c m l ps hnext _ ih =>
    cases pre with
    | nil =>
      simp only [Piece.token?, List.filterMap_cons, List.nil_append, List.cons.injEq] at hsplit
      exact ⟨c.rest, m, l, hnext, hsplit.1⟩
    | cons u pre =>
      simp only [Piece.token?, List.filterMap_cons, List.cons_append, List.cons.injEq] at hsplit
      obtain ⟨rfl, hsplit⟩ := hsplit
      exact ih hsplit
  | skipped _ _ _ ih => exact ih hsplit

end Scanner

/-- The name of a token that looks it up is declared by a token before it, or it is recorded as a
parameter of the function that the scan is in. -/
theorem tokenize_looksUp {builtins : List String} {source : String} {pre post : List Token} {t : Token}
    (hsplit : (tokenize builtins source).tokens = pre ++ t :: post) (hkind : t.kind.looksUp) :
    (∃ d ∈ pre, d.Declares t.text) ∨
      ∃ function, (pre.foldl Scanner.commit (.start builtins)).scope = some function ∧
        t.text ∈ (pre.foldl Scanner.commit (.start builtins)).parameters.getD function [] := by
  obtain ⟨input, m, l, hnext, rfl⟩ := (tokenize_cuts builtins source).read hsplit
  rcases Matcher.scan_looksUp m (Scanner.scan_of_next? hnext) hkind with hvariable | hparameter
  · have hstart : (Scanner.start builtins).variableNames.contains l.token.text.toList = false :=
      Trie.contains_empty _
    rw [Scanner.variableNames_foldl_commit, hstart] at hvariable
    exact .inl (hvariable.resolve_right Bool.false_ne_true)
  · unfold Scanner.activeParameters at hparameter
    split at hparameter
    · exact .inr ⟨_, ‹_›, hparameter⟩
    · cases hparameter

end HostScript
