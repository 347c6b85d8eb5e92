import HostScript.Proofs.Expr.Runs

/-!
# The parser without fuel

On a list of statements, `parseExpression` reads an expression with just the fuel that is enough: one unit
for each token and each statement that is left, and one more. More fuel does not change what the parser
does, so `parseExpression` satisfies the equations of the grammar without any fuel in them.
-/
namespace HostScript

open ParseM

/-- Fuel enough to read an expression off a state: one unit for each unread token, each pending statement
and each of its tokens, and one more. -/
def ParserState.fuel (s : ParserState) : Nat := s.tokens.length + parseFuel s.pending

theorem ParserState.size_eq_fuel (s : ParserState) : s.size = s.fuel := rfl

theorem ParserState.fuel_pos (s : ParserState) : 0 < s.fuel := s.size_pos

theorem ParserState.fuel_cons (t : Token) (ts : List Token) (ps : List (List Token)) (fs : FunctionTable) :
    ParserState.fuel ⟨t :: ts, ps, fs⟩ = ParserState.fuel ⟨ts, ps, fs⟩ + 1 := by
  simp only [ParserState.fuel, List.length_cons]
  omega

/-- Reads an expression whose operators bind at least as tightly as `strength`, with fuel enough. -/
def parseExpression (strength : Nat) : ParseM Expr := fun s => parseExpr s.fuel strength s

/-- Joins operands to `left`, with fuel enough. -/
def climbOn (strength : Nat) (left : Expr) : ParseM Expr :=
  fun s => climb parseExpression strength s.fuel left s

theorem parseExpr_interchangeable (k : Nat) :
    Interchangeable (.same _ False) .parser k (parseExpr k) parseExpression := by
  intro n s hs
  have hstart : (Comparison.same (List (List Token)) False).Admits s.size s := .of_size (Nat.le_refl _)
  have hsettled := parseExpr_settled .refl (.inr ⟨hs.small, Nat.le_refl s.size⟩) n s hstart
  exact .of_run (by rfl) (by rfl) hsettled

/-- More fuel than enough makes no difference. -/
theorem parseExpr_eq {fuel strength : Nat} {s : ParserState} (hfuel : s.fuel ≤ fuel) :
    parseExpr fuel strength s = parseExpression strength s :=
  (parseExpr_interchangeable fuel strength s (.of_size hfuel)).eq

theorem parseExpression_interchangeable (k : Nat) :
    Interchangeable (.same _ False) .parser k parseExpression parseExpression := by
  intro n s hs
  have hsettled := parseExpr_interchangeable s.size n s (.of_size (Nat.le_refl _))
  exact .of_run (by rfl) (by rfl) hsettled

theorem parseExpression_eats {n : Nat} {s s' : ParserState} {e : Expr}
    (h : parseExpression n s = .ok (e, s')) : s.Eats s' := by
  have hsettled := parseExpression_interchangeable s.size n s (.of_size (Nat.le_refl _))
  exact .of_listed (hsettled.returns e s' h).eats

/-- An expression is an operand and what is joined to it. -/
theorem parseExpression_eq (strength : Nat) (s : ParserState) :
    parseExpression strength s = (parsePrimary parseExpression >>= climbOn strength) s := by
  obtain ⟨k, hk⟩ : ∃ k, s.size = k + 1 := Nat.exists_eq_add_one.mpr s.size_pos
  have hinterchangeable := parseExpr_interchangeable k
  have hs : (Comparison.same (List (List Token)) False).Admits (k + 1) s := .of_size (Nat.le_of_eq hk)
  have hsettled : Settled (.same _ False) (fun _ _ => True) (parseExpr (k + 1) strength)
      (parsePrimary parseExpression >>= climbOn strength) s := by
    refine (parsePrimary_settled hinterchangeable .refl hs).bind fun left t hleft => ?_
    have heats : s.Eats t := .of_listed hleft.eats_of_primary
    have hused := heats.size_lt
    have hclimb : Settled (.same _ False) _ (climb (parseExpr k) strength k left)
        (climb parseExpression strength t.size left) t :=
      climb_settled hinterchangeable strength left (hs.leaves heats.toLeaves) (.inr ⟨by omega, Nat.le_refl _⟩)
    exact .of_run (by rfl) (by rfl) (hclimb.mono fun _ _ _ => trivial)
  rw [parseExpression, ← s.size_eq_fuel, hk]
  exact hsettled.eq

section

variable {strength : Nat} {left : Expr} {t u : Token} {ts ts' : List Token} {ps ps' : List (List Token)}
  {fs fs' : FunctionTable} {s' : ParserState}

theorem climbOn_of_loose {s : ParserState} (h : Loose strength s.tokens) (left : Expr) :
    climbOn strength left s = .ok (left, s) := by
  obtain ⟨k, hk⟩ : ∃ k, s.fuel = k + 1 := Nat.exists_eq_add_one.mpr s.fuel_pos
  rw [climbOn, hk, climb, bind_of_ok (peekKind?_run s)]
  obtain ⟨_ | ⟨t, ts⟩, ps, fs⟩ := s
  · rfl
  · simp only [List.head?_cons, Option.map_some, Option.bind_some]
    cases hjoint : Joint.ofKind? t.kind with
    | none => rfl
    | some joint =>
      dsimp only
      rw [if_pos (h t rfl joint hjoint)]
      rfl

/-- An operator that joins tightly enough takes its right operand. -/
theorem climbOn_operator_eq {op : Operator} (ht : Joint.ofKind? t.kind = some (.operator op))
    (hstrength : strength ≤ op.precedence) :
    climbOn strength left ⟨t :: ts, ps, fs⟩ =
      (parseExpression (op.precedence + 1) >>= fun right => climbOn strength (.binary op left right))
        ⟨ts, ps, fs⟩ := by
  have hweak : ¬(Joint.operator op).precedence < strength := Nat.not_lt_of_le hstrength
  rw [climbOn, ParserState.fuel_cons, climb, bind_of_ok (peekKind?_run _)]
  simp only [List.head?_cons, Option.map_some, Option.bind_some, ht, hweak, if_false]
  rw [bind_of_ok (next?_cons ..), bind_run, bind_run]
  cases hright : parseExpression (op.precedence + 1) ⟨ts, ps, fs⟩ with
  | error stop => rfl
  | ok r =>
    have hused := Nat.le_of_lt (parseExpression_eats hright).size_lt
    have hinterchangeable := parseExpression_interchangeable r.2.size
    exact (climb_settled hinterchangeable strength _ (.of_size (Nat.le_succ _)) (.inr ⟨hused, Nat.le_refl _⟩)).eq

theorem climbOn_operator {op : Operator} {right : Expr}
    (ht : Joint.ofKind? t.kind = some (.operator op)) (hstrength : strength ≤ op.precedence)
    (hright : parseExpression (op.precedence + 1) ⟨ts, ps, fs⟩ = .ok (right, s')) :
    climbOn strength left ⟨t :: ts, ps, fs⟩ = climbOn strength (.binary op left right) s' := by
  rw [climbOn_operator_eq ht hstrength, bind_of_ok hright]

/-- A ternary takes two whole expressions, and nothing is joined to it. -/
theorem climbOn_ternary_eq (ht : t.kind = .question) (hstrength : strength ≤ ternaryPrecedence) :
    climbOn strength left ⟨t :: ts, ps, fs⟩ =
      (do
        let yes ← parseExpression 0
        if !(← eat .colon) then fail .missingTernaryColon
        let no ← parseExpression 0
        return .ternary left yes no : ParseM Expr) ⟨ts, ps, fs⟩ := by
  have hjoint : Joint.ofKind? .question = some .ternary := rfl
  have hweak : ¬Joint.ternary.precedence < strength := Nat.not_lt_of_le hstrength
  rw [climbOn, ParserState.fuel_cons, climb, bind_of_ok (peekKind?_run _)]
  simp only [List.head?_cons, Option.map_some, Option.bind_some, ht, hjoint, hweak, if_false]
  rw [bind_of_ok (next?_cons ..)]

theorem climbOn_ternary {yes no : Expr} (ht : t.kind = .question) (hstrength : strength ≤ ternaryPrecedence)
    (hyes : parseExpression 0 ⟨ts, ps, fs⟩ = .ok (yes, ⟨u :: ts', ps', fs'⟩)) (hu : u.kind = .colon)
    (hno : parseExpression 0 ⟨ts', ps', fs'⟩ = .ok (no, s')) :
    climbOn strength left ⟨t :: ts, ps, fs⟩ = .ok (.ternary left yes no, s') := by
  have hcolon : eat .colon ⟨u :: ts', ps', fs'⟩ = .ok (true, ⟨ts', ps', fs'⟩) := by
    rw [eat_cons, if_pos hu]
  rw [climbOn_ternary_eq ht hstrength, bind_of_ok hyes, bind_of_ok hcolon]
  exact bind_of_ok hno

end

end HostScript
