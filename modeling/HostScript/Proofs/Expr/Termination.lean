import HostScript.Proofs.Expr.Outcome

/-!
# The parser ends

On every tree, well-formed or not, the parser ends with a result or a parse error. Each of its loops goes
on only with less to read than before, and so does each call of the expression parser by itself. So fuel
does not run out if there is more of it than the tree has tokens, statements and regions.
-/
namespace HostScript

open ParseM

/-- A round of a loop, given by what it comes to with each number of rounds after it. It ends the loop, or
it leaves an input of size less than `k` to these rounds and finishes what they come to. -/
def Round {ι ρ : Type} (size : ι → Nat) (loop : Nat → ι → ρ) (k : Nat) (round : Nat → ρ) : Prop :=
  (∃ r, ∀ n, round n = r) ∨
    ∃ (i : ι) (finish : ρ → ρ), size i < k ∧ ∀ n, round n = finish (loop n i)

/-- A loop, given by what it comes to with each number of rounds, that goes on only with a smaller input. -/
def Descends {ι ρ : Type} (size : ι → Nat) (loop : Nat → ι → ρ) : Prop :=
  ∀ i, Round size loop (size i) fun n => loop (n + 1) i

theorem Round.bind {σ ι α β : Type} {size : ι → Nat}
    {loop : Nat → ι → Except ParseStop (β × ParserState σ)} {k : Nat} {c : ParseFrom σ α}
    {f : Nat → α → ParseFrom σ β} {s : ParserState σ}
    (hf : ∀ a t, c s = .ok (a, t) → Round size loop k fun n => f n a t) :
    Round size loop k fun n => (c >>= f n) s := by
  cases h : c s with
  | error stop =>
    have hrun (n : Nat) : (c >>= f n) s = .error stop := by rw [bind_run, h]
    exact .inl ⟨.error stop, hrun⟩
  | ok r =>
    have hrun (n : Nat) : (c >>= f n) s = f n r.1 r.2 := bind_of_ok h
    simp only [hrun]
    exact hf r.1 r.2 h

namespace TokenTree

mutual

/-- The number of statements and regions of a tree. -/
def containers : TokenTree → Nat
  | .statement _ => 1
  | .scope children => containersAll children + 1

def containersAll : List TokenTree → Nat
  | [] => 0
  | tree :: rest => tree.containers + containersAll rest

end

mutual

theorem length_statements_le (tree : TokenTree) : tree.statements.length ≤ tree.containers := by
  cases tree with
  | statement tokens => exact Nat.le_refl 1
  | scope children => exact Nat.le_succ_of_le (length_statementsAll_le children)

theorem length_statementsAll_le (trees : List TokenTree) :
    (statementsAll trees).length ≤ containersAll trees := by
  cases trees with
  | nil => exact Nat.le_refl 0
  | cons tree rest =>
    rw [statementsAll, List.length_append]
    exact Nat.add_le_add (length_statements_le tree) (length_statementsAll_le rest)

end

end TokenTree

theorem parseFuel_eq (statements : List (List Token)) :
    parseFuel statements = statements.flatten.length + statements.length + 1 := by
  induction statements with
  | nil => rfl
  | cons statement rest ih =>
    rw [parseFuel, ih, List.flatten_cons, List.length_append, List.length_cons]
    omega

/-- The fuel of the parser is linear in the size of the tree. -/
theorem parseFuel_le (tree : TokenTree) :
    parseFuel tree.statements ≤ tree.tokens.length + tree.containers + 1 := by
  rw [parseFuel_eq]
  exact Nat.succ_le_succ (Nat.add_le_add_left tree.length_statements_le _)

variable {σ : Type} [Std.Stream σ (List Token)] [Listed σ]

omit [Std.Stream σ (List Token)] [Listed σ] in
theorem ParseM.cons_run (e : Expr) (c : ParseFrom σ (List Expr)) (s : ParserState σ) :
    (do return e :: (← c) : ParseFrom σ (List Expr)) s = (c s).map fun r => (e :: r.1, r.2) := by
  rw [bind_run]
  cases c s with
  | error stop => rfl
  | ok r => rfl

theorem parameterNames_descends : Descends List.length parameterNames := by
  intro ts
  cases ts with
  | nil => exact .inl ⟨([], []), fun _ => rfl⟩
  | cons t rest =>
    by_cases ht : t.isParameter
    · cases rest with
      | nil => exact .inl ⟨([t.text], []), fun _ => if_pos ht⟩
      | cons u after =>
        by_cases hu : u.kind = .comma
        · refine .inr ⟨after, fun names => (t.text :: names.1, names.2), ?_, fun n => ?_⟩
          · exact Nat.lt_succ_of_lt (Nat.lt_succ_self _)
          · have hkind : (t.kind == .parameter || t.kind == .variableName) = true := ht
            simp [parameterNames, hkind, hu]
        · refine .inl ⟨([t.text], u :: after), fun n => ?_⟩
          have hkind : (t.kind == .parameter || t.kind == .variableName) = true := ht
          simp [parameterNames, hkind, hu]
    · exact .inl ⟨([], t :: rest), fun _ => if_neg ht⟩

/-- The expression that the members behind an operand make of it, and the tokens behind them. -/
def accesses (e : Expr) (ts : List Token) : Expr × List Token :=
  (accessChain e (ts.takeWhile (·.kind == .access)), ts.dropWhile (·.kind == .access))

theorem accesses_descends (e : Expr) (ts : List Token) :
    accesses e ts = (e, ts) ∨
      ∃ e' ts', ts'.length < ts.length ∧ accesses e ts = accesses e' ts' := by
  cases ts with
  | nil => exact .inl rfl
  | cons t ts =>
    by_cases ht : t.kind = .access
    · refine .inr ⟨.access e t.text, ts, Nat.lt_succ_self _, ?_⟩
      simp [accesses, accessChain, ht]
    · refine .inl ?_
      simp [accesses, accessChain, ht]

theorem ParseM.size_le_of_next? {s t : ParserState σ} {next : Option Token} (h : next? s = .ok (next, t)) :
    t.size ≤ s.size := by
  obtain ⟨_ | ⟨u, ts⟩, ps, fs⟩ := s
  · cases h
    exact Nat.le_refl _
  · cases h
    exact Nat.le_of_lt ParserState.size_lt_cons

theorem ParseM.size_le_of_eat {s t : ParserState σ} {kind : Kind} {found : Bool}
    (h : eat kind s = .ok (found, t)) : t.size ≤ s.size := by
  obtain ⟨_ | ⟨u, ts⟩, ps, fs⟩ := s
  · cases h
    exact Nat.le_refl _
  · rw [eat_cons] at h
    split at h
    · cases h
      exact Nat.le_of_lt ParserState.size_lt_cons
    · cases h
      exact Nat.le_refl _

theorem ParseM.size_load_lt {s t : ParserState σ} {statement : List Token}
    (h : nextStatement? s = .ok (some statement, t)) :
    ParserState.size { t with tokens := statement } < s.size := by
  cases hnext : Std.Stream.next? s.pending with
  | none => cases (nextStatement?_of_none hnext).symm.trans h
  | some p =>
    cases (nextStatement?_of_some hnext).symm.trans h
    have hstatements := Listed.statements_of_next? hnext
    exact Nat.lt_of_lt_of_le (ParserState.size_load_lt hstatements _) (Nat.le_add_left ..)

theorem parseExpr_interchangeable_self (fuel k : Nat) :
    Interchangeable (.same σ True) .parser k (parseExpr fuel) (parseExpr fuel) :=
  parseExpr_settled .refl (.inl ⟨trivial, rfl⟩)

theorem parseExpr_eats {fuel n : Nat} {s t : ParserState σ} {e : Expr}
    (h : parseExpr fuel n s = .ok (e, t)) : s.Eats t := by
  have hsettled := parseExpr_interchangeable_self fuel s.size n s (.of_size (Nat.le_refl _))
  exact .of_listed (hsettled.returns e t h).eats

theorem parseStatement_leaves {fuel : Nat} {s t : ParserState σ} {e : Expr}
    (h : parseStatement (parseExpr fuel) s = .ok (e, t)) : s.Leaves t := by
  have hinterchangeable := parseExpr_interchangeable_self (σ := σ) fuel s.size
  exact .of_listed ((parseStatement_settled hinterchangeable (.of_size (Nat.le_refl _))).returns e t h).2.leaves

theorem climb_descends (fuel strength : Nat) :
    Descends (fun p : Expr × ParserState σ => p.2.size)
      (fun n p => climb (parseExpr fuel) strength n p.1 p.2) := by
  rintro ⟨left, s⟩
  simp only [climb]
  refine .bind fun next t hnext => ?_
  cases hnext
  cases (s.tokens.head?.map Token.kind).bind Joint.ofKind? with
  | none => exact .inl ⟨_, fun _ => rfl⟩
  | some joint =>
    by_cases hweak : joint.precedence < strength
    · simp only [if_pos hweak]
      exact .inl ⟨_, fun _ => rfl⟩
    · simp only [if_neg hweak]
      refine .bind fun _ t ht => ?_
      cases joint with
      | ternary => exact .inl ⟨_, fun _ => rfl⟩
      | operator op =>
        refine .bind fun right u hu => .inr ⟨(.binary op left right, u), id, ?_, fun _ => rfl⟩
        exact Nat.lt_of_lt_of_le (parseExpr_eats hu).size_lt (size_le_of_next? ht)

theorem callArguments_descends (fuel : Nat) :
    Descends ParserState.size (callArguments (σ := σ) (parseExpr fuel)) := by
  intro s
  simp only [callArguments]
  refine .bind fun next t hnext => ?_
  cases hnext
  by_cases hclose : s.tokens.head?.map Token.kind == some Kind.rightParen
  · simp only [if_pos hclose]
    exact .inl ⟨_, fun _ => rfl⟩
  · simp only [if_neg hclose]
    refine .bind fun e u hu => .bind fun more v hv => ?_
    cases more with
    | false => exact .inl ⟨_, fun _ => rfl⟩
    | true =>
      refine .inr ⟨v, Except.map fun r => (e :: r.1, r.2), ?_, fun n => cons_run e _ v⟩
      exact Nat.lt_of_le_of_lt (size_le_of_eat hv) (parseExpr_eats hu).size_lt

theorem bodyStatements_descends (fuel : Nat) :
    Descends ParserState.size (bodyStatements (σ := σ) (parseExpr fuel)) := by
  intro s
  simp only [bodyStatements]
  refine .bind fun next t hnext => ?_
  cases next with
  | none => exact .inl ⟨_, fun _ => rfl⟩
  | some statement =>
    by_cases hclose : isClosing statement
    · simp only [if_pos hclose]
      exact .inl ⟨_, fun _ => rfl⟩
    · simp only [if_neg hclose]
      refine .bind fun _ u hu => .bind fun e v hv => ?_
      cases hu
      refine .inr ⟨v, Except.map fun r => (e :: r.1, r.2), ?_, fun n => cons_run e _ v⟩
      exact Nat.lt_of_le_of_lt (parseStatement_leaves hv).size_le (size_load_lt hnext)

/-- The expression parser calls itself only on smaller states: what it does does not depend on what the
calls would come to on others. -/
theorem parseExpr_eq_of_smaller {fuel strength : Nat} {s : ParserState σ} {recur : Nat → ParseFrom σ Expr}
    (hrec : ∀ n t, t.size < s.size → recur n t = parseExpr fuel n t) :
    (parsePrimary recur >>= climb recur strength fuel) s = parseExpr (fuel + 1) strength s := by
  obtain ⟨k, hk⟩ : ∃ k, s.size = k + 1 := Nat.exists_eq_add_one.mpr s.size_pos
  have hinterchangeable : Interchangeable (.same σ True) .parser k (parseExpr fuel) recur := by
    intro n t ht
    have hsettled := parseExpr_interchangeable_self fuel k n t ht
    have hsame : recur n t = parseExpr fuel n t := hrec n t (hk ▸ Nat.lt_succ_of_le ht.small)
    exact .of_run (by rfl) hsame hsettled
  have hs : (Comparison.same σ True).Admits (k + 1) s := .of_size (Nat.le_of_eq hk)
  exact (expression_settled hinterchangeable .refl strength hs (.inl ⟨trivial, rfl⟩)).eq.symm

/-- The parser terminates on every tree, whatever stands in it.

It ends in the same way with any fuel that is at least that of `parse`, which is linear in the number of
tokens and containers of the tree, and never for want of fuel. An expression that is read takes at least
one token off the current statement. The loops over operators, members, arguments, parameters and the
statements of a body go on only with less to read. And the parser of expressions calls itself only on
states with less to read. -/
theorem parse_terminates :
    (∀ tree : TokenTree,
      parseFuel tree.statements ≤ tree.tokens.length + tree.containers + 1 ∧
        ∀ fuel, parseFuel tree.statements ≤ fuel →
          parseStatements fuel (TreeQueue.mk [tree]) = (parse tree).mapError .failed) ∧
      (∀ fuel strength (s t : ParserState TreeQueue) e,
        parseExpr fuel strength s = .ok (e, t) → s.Eats t) ∧
      (∀ fuel strength,
        Descends (fun p : Expr × ParserState TreeQueue => p.2.size)
          fun n p => climb (parseExpr fuel) strength n p.1 p.2) ∧
      (∀ e ts, accesses e ts = (e, ts) ∨
        ∃ e' ts', ts'.length < ts.length ∧ accesses e ts = accesses e' ts') ∧
      (∀ fuel, Descends ParserState.size (callArguments (σ := TreeQueue) (parseExpr fuel))) ∧
      Descends List.length parameterNames ∧
      (∀ fuel, Descends ParserState.size (bodyStatements (σ := TreeQueue) (parseExpr fuel))) ∧
      ∀ fuel strength (s : ParserState TreeQueue) (recur : Nat → ParseFrom TreeQueue Expr),
        (∀ n t, t.size < s.size → recur n t = parseExpr fuel n t) →
          (parsePrimary recur >>= climb recur strength fuel) s = parseExpr (fuel + 1) strength s := by
  refine ⟨fun tree => ⟨parseFuel_le tree, fun fuel => parseStatements_eq_parse⟩,
    fun fuel strength s t e => parseExpr_eats, climb_descends, accesses_descends, callArguments_descends,
    parameterNames_descends, bodyStatements_descends, fun fuel strength s recur => parseExpr_eq_of_smaller⟩

end HostScript
