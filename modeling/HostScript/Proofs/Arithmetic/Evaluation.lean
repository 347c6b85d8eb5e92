import HostScript.Proofs.Arithmetic.Scan
import HostScript.Proofs.Expr.RoundTrip
import HostScript.Proofs.Session.Kept

/-!
# Arithmetic from text to value

The text of a tree, with any white space between its words, evaluates to what the tree denotes. The text
is scanned to the tokens of the tree, these make up one statement, the parser reads the tree back from
them, and the evaluator computes it from the left to the right.
-/
namespace HostScript

section

/-! Grouping and parsing. -/

variable {recur : Nat → ParseM Expr} {rest : List Token} {ps : List (List Token)} {fs : FunctionTable}

open ParseM

theorem Operator.collected_kind (op : Operator) : op.kind.token.kind.collected := by
  cases op <;> rfl

theorem Arithmetic.operand_inline (e : Arithmetic) : Inline e.operand := by
  induction e with
  | literal n => exact .single rfl
  | binary op left right ihleft ihright =>
    exact (ihleft.append (.cons op.collected_kind ihright)).parens

theorem Arithmetic.print_inline (e : Arithmetic) : Inline e.print := by
  cases e with
  | literal n => exact .single rfl
  | binary op left right =>
    exact left.operand_inline.append (.cons op.collected_kind right.operand_inline)

theorem Arithmetic.print_ne_nil (e : Arithmetic) : e.print ≠ [] := by
  cases e with
  | literal n => exact List.cons_ne_nil _ _
  | binary op left right => exact List.append_ne_nil_of_right_ne_nil _ (List.cons_ne_nil _ _)

/-- The tokens of a tree make up one statement. -/
theorem Arithmetic.statements_group (e : Arithmetic) : (group e.print).statements = [e.print] := by
  have hne : e.print.isEmpty = false := by
    simpa using e.print_ne_nil
  rw [group_statements, e.print_inline]
  simp [Lines.flush, hne]

theorem Numeral.numberLiteral_token (n : Numeral) : numberLiteral n.token.text = .ok n.value := by
  have htext : n.token.text.toList = n.characters := by simp [token]
  have hread : Number.readLiteral n.characters = some n.value := (Option.some_get _).symm
  rw [numberLiteral, htext, hread]

/-- Tokens that are read as an operand, whatever comes behind it that does not belong to it. -/
def ParsesOperand (fuel : Nat) (us : List Token) (e : Expr) : Prop :=
  ∀ rest (ps : List (List Token)) fs, Detached rest →
    parsePrimary (parseExpr fuel) ⟨us ++ rest, ps, fs⟩ = .ok (e, ⟨rest, ps, fs⟩)

theorem ParsesOperand.numeral (fuel : Nat) (n : Numeral) :
    ParsesOperand fuel [n.token] (.literal (.number n.value)) := by
  intro rest ps fs hrest
  refine parsePrimary_of_detached hrest ?_
  simp only [parseOperand, Numeral.token]
  have hvalue := n.numberLiteral_token
  rw [Numeral.token] at hvalue
  rw [hvalue]
  rfl

/-- Two operands with an operator between them. -/
theorem ParsesOperand.join {fuel : Nat} {us vs : List Token} {left right : Expr}
    (hleft : ParsesOperand (fuel + 2) us left) (hright : ParsesOperand (fuel + 1) vs right)
    (op : Operator) (hrest : Follows rest) :
    parseExpr (fuel + 3) 0 ⟨us ++ op.kind.token :: vs ++ rest, ps, fs⟩ =
      .ok (.binary op left right, ⟨rest, ps, fs⟩) := by
  have hdetached : Detached (op.kind.token :: (vs ++ rest)) := by
    refine .cons ?_ _
    cases op <;> decide
  have hoperand := parseExpr_of_primary (op.precedence + 1) hrest (hright rest ps fs hrest.detached)
  rw [List.append_assoc, List.cons_append, parseExpr, bind_of_ok (hleft _ _ _ hdetached),
    climb_operator hoperand]
  exact climb_of_follows hrest 0 fuel _

theorem Arithmetic.parsesOperand (e : Arithmetic) {fuel : Nat} (hfuel : e.operand.length ≤ fuel) :
    ParsesOperand fuel e.operand e.expr := by
  induction e generalizing fuel with
  | literal n => exact .numeral fuel n
  | binary op left right ihleft ihright =>
    have hlength : (binary op left right).operand.length =
        left.operand.length + right.operand.length + 3 := by
      simp [operand, parens]
      omega
    obtain ⟨fuel, rfl⟩ : ∃ n, fuel = n + 3 := ⟨fuel - 3, by omega⟩
    intro rest ps fs hrest
    have hleft : ParsesOperand (fuel + 2) left.operand left.expr := ihleft (by omega)
    have hright : ParsesOperand (fuel + 1) right.operand right.expr := ihright (by omega)
    rw [operand, parens_append]
    refine parsePrimary_of_detached hrest (parseOperand_parens ?_)
    exact hleft.join hright op (.cons rfl rest)

theorem Arithmetic.parseExpr_print (e : Arithmetic) {fuel : Nat} (hfuel : e.print.length + 2 ≤ fuel)
    (hrest : Follows rest) :
    parseExpr fuel 0 ⟨e.print ++ rest, ps, fs⟩ = .ok (e.expr, ⟨rest, ps, fs⟩) := by
  cases e with
  | literal n =>
    obtain ⟨fuel, rfl⟩ : ∃ n, fuel = n + 2 := ⟨fuel - 2, by omega⟩
    exact parseExpr_of_primary 0 hrest (ParsesOperand.numeral _ n rest ps fs hrest.detached)
  | binary op left right =>
    have hlength : (binary op left right).print.length =
        left.operand.length + right.operand.length + 1 := by
      simp [print]
      omega
    obtain ⟨fuel, rfl⟩ : ∃ n, fuel = n + 3 := ⟨fuel - 3, by omega⟩
    have hleft : ParsesOperand (fuel + 2) left.operand left.expr := left.parsesOperand (by omega)
    have hright : ParsesOperand (fuel + 1) right.operand right.expr := right.parsesOperand (by omega)
    exact hleft.join hright op hrest

theorem closing?_cons {t : Token} (ht : t.kind ≠ .rightScope) (ts : List Token) :
    closing? (t :: ts) = none := by
  cases ts with
  | nil => simp [closing?, ht]
  | cons => rfl

theorem Arithmetic.closing?_print (e : Arithmetic) : closing? e.print = none := by
  cases e with
  | literal n => exact closing?_cons (t := n.token) (by simp [Numeral.token]) _
  | binary op left right =>
    cases left with
    | literal n => exact closing?_cons (t := n.token) (by simp [Numeral.token]) _
    | binary => exact closing?_cons (t := Kind.leftParen.token) (by decide) _

/-- The statement of a tree is parsed to its expression, and no function is found. -/
theorem Arithmetic.parse_group (e : Arithmetic) : parse (group e.print) = .ok ⟨[e.expr], ∅⟩ := by
  have hparse : parseExpr (e.print.length + 2) 0 ⟨e.print ++ [], [], ∅⟩ = .ok (e.expr, ⟨[], [], ∅⟩) :=
    e.parseExpr_print (Nat.le_refl _) .nil
  rw [List.append_nil] at hparse
  have hstatement : parseStatement (parseExpr (e.print.length + 2)) ⟨e.print, [], ∅⟩ =
      .ok (e.expr, ⟨[], [], ∅⟩) := by
    unfold parseStatement
    rw [bind_of_ok hparse, get_bind]
    rfl
  have hall : parseAll (e.print.length + 2) (e.print.length + 2) ⟨[], [e.print], ∅⟩ =
      .ok ([e.expr], ⟨[], [], ∅⟩) := by
    rw [parseAll, bind_of_ok (nextStatement?_cons ..)]
    dsimp only
    rw [e.closing?_print]
    dsimp only
    rw [bind_of_ok (load_run ..), bind_of_ok hstatement]
    rfl
  have hstatements : parseStatements (parseFuel [e.print]) [e.print] = .ok ⟨[e.expr], ∅⟩ := by
    simp only [parseFuel, parseStatements, StateT.run, hall]
    rfl
  rw [parse_eq, parseScript, e.statements_group, hstatements]

end

section

/-! Evaluating. -/

variable {σ α β : Type}

theorem HostM.bind_of_ok {c : HostM σ α} {f : α → HostM σ β} {w w' : World σ} {a : α}
    (h : c w = (.ok a, w')) : (c >>= f) w = f a w' := by
  simp only [bind, ExceptT.bind, ExceptT.mk, StateT.bind, h]
  rfl

theorem HostM.bind_of_error {c : HostM σ α} {f : α → HostM σ β} {w w' : World σ} {error : RuntimeError}
    (h : c w = (.error error, w')) : (c >>= f) w = (.error error, w') := by
  simp only [bind, ExceptT.bind, ExceptT.mk, StateT.bind, h]
  rfl

theorem EvalM.ofHost_of_ok {c : HostM σ α} {m : Machine σ} {w : World σ} {a : α}
    (h : c m.world = (.ok a, w)) : EvalM.ofHost c m = (.ok a, { m with world := w }) := by
  simp only [ofHost, h]

theorem EvalM.ofHost_of_error {c : HostM σ α} {m : Machine σ} {w : World σ} {error : RuntimeError}
    (h : c m.world = (.error error, w)) :
    EvalM.ofHost c m = (.error (.failed error), { m with world := w }) := by
  simp only [ofHost, h]

theorem EvalM.ofHost_bind (c : HostM σ α) (f : α → HostM σ β) :
    EvalM.ofHost (c >>= f) = EvalM.ofHost c >>= fun a => EvalM.ofHost (f a) := by
  funext m
  rcases hcm : c m.world with ⟨r, w⟩
  cases r with
  | ok a =>
    rw [bind_of_ok (ofHost_of_ok hcm)]
    simp only [ofHost, HostM.bind_of_ok hcm]
  | error error =>
    rw [bind_of_error (ofHost_of_error hcm)]
    simp only [ofHost, HostM.bind_of_error hcm]

theorem require_ofHost (place : Operand) (c : HostM σ Value) :
    require place (some <$> EvalM.ofHost c) = EvalM.ofHost c := by
  unfold require
  rw [bind_map_left]
  exact bind_pure _

/-- What a computation of the host comes to as a statement of a program. -/
theorem Program.outcome_ofHost (c : HostM σ Value) (m : Machine σ) :
    Program.outcome ((some <$> EvalM.ofHost c : EvalM σ (Option Value)) m).1 =
      (c m.world).1.mapError .runtime := by
  rw [EvalM.map_run]
  rcases hcm : c m.world with ⟨error | v, w⟩
  · rw [EvalM.ofHost_of_error hcm]
    rfl
  · rw [EvalM.ofHost_of_ok hcm]
    rfl

variable [Host σ]

theorem Arithmetic.evalExpr_expr (ctx : Context σ) (callBody : List Expr → EvalM σ (Option Value))
    (limit : Nat) (e : Arithmetic) :
    evalExpr ctx callBody limit e.expr = some <$> EvalM.ofHost e.value := by
  induction e with
  | literal n => rfl
  | binary op left right ihleft ihright =>
    rw [expr, evalExpr, ihleft, ihright, require_ofHost, require_ofHost, value, EvalM.ofHost_bind,
      map_bind]
    simp only [EvalM.ofHost_bind, map_bind]

theorem Arithmetic.value_blind (e : Arithmetic) : HostM.Blind (e.value : HostM σ Value) := by
  induction e with
  | literal n => exact .pure _
  | binary op left right ihleft ihright =>
    exact ihleft.bind fun a => ihright.bind fun b => applyBinary_blind op a b

theorem addFallback_isOk (a b : Value) (w : World σ) : (addFallback a b w).1.isOk := by
  unfold addFallback
  cases a with
  | object id =>
    simp only [bind, ExceptT.bind, ExceptT.mk, StateT.bind, World.onHost]
    rcases Host.tryAdd id b w.host with ⟨_ | v, host⟩
    · rfl
    · rfl
  | number | text | boolean => rfl

theorem applyBinary_error {op : Operator} {a b : Value} {w : World σ} {error : RuntimeError}
    (h : (applyBinary op a b w).1 = .error error) :
    error = .operandMismatch op.symbol a.kind b.kind := by
  unfold applyBinary at h
  split at h
  · cases h
  · split at h
    · have hok := addFallback_isOk a b w
      rw [h] at hok
      cases hok
    · cases h
      rfl

/-- Arithmetic fails only where an operator does not fit its operands. -/
theorem Arithmetic.value_error (e : Arithmetic) {w : World σ} {error : RuntimeError}
    (h : (e.value w).1 = .error error) : ∃ symbol a b, error = .operandMismatch symbol a b := by
  induction e generalizing w with
  | literal n => cases h
  | binary op left right ihleft ihright =>
    rw [value] at h
    rcases hleft : left.value w with ⟨_ | a, w'⟩
    · rw [HostM.bind_of_error hleft] at h
      cases h
      exact ihleft (congrArg Prod.fst hleft)
    · rw [HostM.bind_of_ok hleft] at h
      rcases hright : right.value w' with ⟨_ | b, w''⟩
      · rw [HostM.bind_of_error hright] at h
        cases h
        exact ihright (congrArg Prod.fst hright)
      · rw [HostM.bind_of_ok hright] at h
        exact ⟨_, _, _, applyBinary_error h⟩

theorem Arithmetic.evalAll_expr (ctx : Context σ) (fuel : Nat) (e : Arithmetic) :
    evalAll ctx fuel [e.expr] = some <$> EvalM.ofHost e.value := by
  rw [evalAll, evalSequence, e.evalExpr_expr, bind_map_left]
  exact bind_pure_comp _ _

/-- A script that compiles is evaluated once by a run of its statements. -/
theorem evaluateOnce_eq {source : String} {parsed : Parsed}
    (hparsed : parseSource (Registry.standard : Registry σ).names source = .ok parsed) (fuel : Nat)
    (host : σ) :
    ∃ w : World σ, w.host = host ∧
      evaluateOnce fuel host source =
        Program.outcome (evalAll { builtins := Registry.standard, inputs := {} } fuel parsed.expressions
          ⟨{ functions := parsed.functions }, w⟩).1 := by
  have hobtains := Session.obtain_obtains source { cache := false }
    (Session.start (Registry.standard : Registry σ) host)
  unfold evaluateOnce
  rcases Session.evaluate_cases fuel source {} { cache := false }
    (Session.start (Registry.standard : Registry σ) host) with
    ⟨error, t, ht, heval⟩ | ⟨p, t, r, m, ht, hrun, heval⟩
  · rw [ht] at hobtains
    cases hobtains with
    | refused _ _ he =>
      have heq := hparsed.symm.trans he
      cases heq
  · rw [ht] at hobtains
    cases hobtains with
    | found _ hkept => cases hkept
    | @compiled parsed' world hhost _ hparsed' =>
      obtain rfl : parsed = parsed' := Except.ok.inj (hparsed.symm.trans hparsed')
      refine ⟨world, hhost, ?_⟩
      have hresult : r = (evalAll { builtins := Registry.standard, inputs := {} } fuel
          parsed.expressions ⟨{ functions := parsed.functions }, world⟩).1 := (congrArg Prod.fst hrun).symm
      rw [heval, ← hresult]
      cases Program.outcome r with
      | ok v => rfl
      | error failure => rfl

end

/-- Arithmetic from text to value. Take a tree of decimal numerals and operators, and a text that is
written in its words with any white space. Evaluating the text gives exactly what the tree denotes, which
is a value or the refusal of an operator to take its operands. -/
theorem evaluate_arithmetic {σ : Type} [Host σ] (fuel : Nat) (host : σ) (e : Arithmetic)
    (source : String) (h : Spaced (e.print.map Token.text) source.toList) :
    evaluateOnce fuel host source = (e.value { host }).1.mapError .runtime ∧
      ∀ error, (e.value { host }).1 = .error error →
        ∃ symbol a b, error = .operandMismatch symbol a b := by
  refine ⟨?_, fun error => e.value_error⟩
  have hparsed : parseSource (Registry.standard : Registry σ).names source = .ok ⟨[e.expr], ∅⟩ := by
    rw [parseSource, tokenize_arithmetic σ e h, e.parse_group]
  obtain ⟨w, hw, heval⟩ := evaluateOnce_eq hparsed fuel host
  rw [heval, e.evalAll_expr, Program.outcome_ofHost]
  exact congrArg (Except.mapError Failure.runtime) (e.value_blind w { host } hw).1

/-- A number that is left by taking away a negative numeral, times a comparison that has one on its
left. -/
def signedOperands : Arithmetic :=
  .binary .mul
    (.binary .sub (.literal ⟨false, ['1'], rfl, by decide, rfl⟩)
      (.literal ⟨true, ['.', '5'], rfl, by decide, rfl⟩))
    (.binary .less (.literal ⟨true, ['2'], rfl, by decide, rfl⟩)
      (.literal ⟨false, ['3', '.'], rfl, by decide, rfl⟩))

theorem evaluate_arithmetic_signs :
    Spaced (signedOperands.print.map Token.text) "(1- -.5) * (-2 < 3.)".toList ∧
      evaluateOnce 0 () "(1- -.5) * (-2 < 3.)" =
        .error (.runtime (.operandMismatch "*" .number .boolean)) := by
  have hwords : signedOperands.print.map Token.text =
      ["(", "1", "-", "-.5", ")", "*", "(", "-2", "<", "3.", ")"] := by decide +kernel
  have hspaced : Spaced (signedOperands.print.map Token.text) "(1- -.5) * (-2 < 3.)".toList := by
    rw [hwords]
    exact .word [] "(" rfl <| .word [] "1" rfl <| .word [] "-" rfl <|
      .word [' '] "-.5" rfl <| .word [] ")" rfl <| .word [' '] "*" rfl <|
      .word [' '] "(" rfl <| .word [] "-2" rfl <| .word [' '] "<" rfl <|
      .word [' '] "3." rfl <| .word [] ")" rfl <| .done [] rfl
  refine ⟨hspaced, ?_⟩
  rw [(evaluate_arithmetic 0 () signedOperands _ hspaced).1]
  rfl

end HostScript
