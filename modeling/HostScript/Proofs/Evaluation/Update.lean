import HostScript.Proofs.Evaluation.Basic

/-!
# Updates

An update `x += e` and the assignment `x = x + e` are evaluated along different ways, which read the old
value of the variable before they evaluate `e`, and write the new one after that. Where the update comes
to a value, so does the assignment, with the same machine. The update is the stricter one of the two: it
accepts numbers only, and fails where they are missing without having written anything.
-/
namespace HostScript

variable {σ : Type}

/-- What a name resolves to in an environment: its binding, or if it has none the value of the import that
the host supplies under the name. -/
def Context.Resolves (ctx : Context σ) (env : Environment) (name : String) (v : Value) : Prop :=
  env.get? name = some v ∨
    env.get? name = none ∧ ∃ i, ctx.inputs.imports[name]? = some i ∧ i.materialize = .ok v

/-! ## Runs of the parts -/

section

variable {ctx : Context σ} {name : String} {part : EvalM σ (Option Value)} {m m' : Machine σ}

theorem variableValue_of_resolves {v : Value} (h : ctx.Resolves m.env name v) :
    variableValue ctx name m = (.ok (some v), m) := by
  unfold variableValue
  rw [EvalM.get_bind_run]
  rcases h with hbound | ⟨hbound, i, himport, hvalue⟩
  · rw [hbound]
    rfl
  · rw [hbound, himport]
    simp only [hvalue]
    rfl

/-- A name that does not resolve has no value, or an import that cannot be read. -/
theorem variableValue_of_unresolved (h : ∀ v, ¬ctx.Resolves m.env name v) :
    variableValue ctx name m = (.ok none, m) ∨
      ∃ error, variableValue ctx name m = (.error (.failed error), m) := by
  unfold variableValue
  rw [EvalM.get_bind_run]
  cases hbound : m.env.get? name with
  | some v => exact absurd (.inl hbound) (h v)
  | none =>
    cases himport : ctx.inputs.imports[name]? with
    | none => exact .inl rfl
    | some i =>
      cases hvalue : i.materialize with
      | ok v => exact absurd (.inr ⟨hbound, i, himport, hvalue⟩) (h v)
      | error error =>
        refine .inr ⟨error, ?_⟩
        simp only [hvalue]
        rfl

/-! ## Runs of an update and of an assignment -/

theorem compound_of_numbers {a b : Float} (op : Operator) (hname : ctx.Resolves m.env name (.number a))
    (hpart : part m = (.ok (some (.number b)), m')) :
    compound ctx name op part m =
      (.ok (applyNumeric op a b), { m' with env := m'.env.set name (applyNumeric op a b) }) := by
  unfold compound
  rw [EvalM.bind_of_ok (variableValue_of_resolves hname)]
  exact EvalM.bind_of_ok (require_of_some .compoundAssignment hpart)

/-- Without two numbers an update fails, and leaves the machine as the right-hand side does. -/
theorem compound_of_resolves {current : Value} (op : Operator) (hname : ctx.Resolves m.env name current)
    (hpart : ∀ a b, current = .number a → (part m).1 ≠ .ok (some (.number b))) :
    ∃ stop, compound ctx name op part m = (.error stop, (part m).2) := by
  unfold compound
  rw [EvalM.bind_of_ok (variableValue_of_resolves hname)]
  rcases hrun : part m with ⟨stop | _ | v, m'⟩
  · exact ⟨stop, EvalM.bind_of_error (require_of_error .compoundAssignment hrun)⟩
  · exact ⟨_, EvalM.bind_of_error (require_of_none .compoundAssignment hrun)⟩
  · refine ⟨.failed (.operandMismatch op.symbol current.kind v.kind), ?_⟩
    refine (EvalM.bind_of_ok (require_of_some .compoundAssignment hrun)).trans ?_
    rw [hrun] at hpart
    cases current with
    | number a =>
      cases v with
      | number b => exact absurd rfl (hpart a b rfl)
      | text | boolean | object => rfl
    | text | boolean | object => rfl

theorem compound_of_unresolved (op : Operator) (hname : ∀ current, ¬ctx.Resolves m.env name current)
    (part : EvalM σ (Option Value)) : ∃ stop, compound ctx name op part m = (.error stop, m) := by
  unfold compound
  rcases variableValue_of_unresolved hname with hread | ⟨error, hread⟩
  · exact ⟨.failed (.undefinedReference .variableName name), EvalM.bind_of_ok hread⟩
  · exact ⟨.failed error, EvalM.bind_of_error hread⟩

variable [Host σ]

/-- The assignment of a sum or another combination of a variable with an expression reads the variable
first, and writes the outcome of the operator to it. -/
theorem eval_assign_of_numbers {fuel : Nat} {e : Expr} {a b : Float} (op : Operator)
    (hname : ctx.Resolves m.env name (.number a)) (he : eval ctx fuel e m = (.ok (some (.number b)), m')) :
    eval ctx fuel (.assign name (.binary op (.var name) e)) m =
      (.ok (some (applyNumeric op a b)), { m' with env := m'.env.set name (applyNumeric op a b) }) := by
  have hvar : eval ctx fuel (.var name) m = (.ok (some (.number a)), m) := variableValue_of_resolves hname
  have hbinary : eval ctx fuel (.binary op (.var name) e) m = (.ok (some (applyNumeric op a b)), m') := by
    refine (EvalM.bind_of_ok (require_of_some .left hvar)).trans ?_
    exact (EvalM.bind_of_ok (require_of_some .right he)).trans rfl
  have hbinding : binding name (eval ctx fuel (.binary op (.var name) e)) m =
      (.ok (applyNumeric op a b), { m' with env := m'.env.set name (applyNumeric op a b) }) :=
    EvalM.bind_of_ok (require_of_some .assignment hbinary)
  exact EvalM.bind_of_ok hbinding

theorem eval_compound (ctx : Context σ) (fuel : Nat) (name : String) (op : Operator) (e : Expr)
    (m : Machine σ) :
    eval ctx fuel (.compound name op e) m =
      ((compound ctx name op (eval ctx fuel e) m).1.map some,
        (compound ctx name op (eval ctx fuel e) m).2) :=
  EvalM.map_run some (compound ctx name op (eval ctx fuel e)) m

theorem eval_compound_of_numbers {fuel : Nat} {e : Expr} {a b : Float} (op : Operator)
    (hname : ctx.Resolves m.env name (.number a)) (he : eval ctx fuel e m = (.ok (some (.number b)), m')) :
    eval ctx fuel (.compound name op e) m =
      (.ok (some (applyNumeric op a b)), { m' with env := m'.env.set name (applyNumeric op a b) }) := by
  rw [eval_compound, compound_of_numbers op hname he]
  rfl

/-- Either both sides of an update are numbers, or it fails: where the right-hand side has left the machine
if the name resolves, and else where it was started. -/
theorem eval_compound_cases (ctx : Context σ) (fuel : Nat) (name : String) (op : Operator) (e : Expr)
    (m : Machine σ) :
    (∃ a b m', ctx.Resolves m.env name (.number a) ∧ eval ctx fuel e m = (.ok (some (.number b)), m')) ∨
      ∃ stop m', eval ctx fuel (.compound name op e) m = (.error stop, m') ∧
        ((∃ current, ctx.Resolves m.env name current) ∧ m' = (eval ctx fuel e m).2 ∨
          (∀ current, ¬ctx.Resolves m.env name current) ∧ m' = m) := by
  rw [eval_compound]
  by_cases hname : ∃ current, ctx.Resolves m.env name current
  · obtain ⟨current, hcurrent⟩ := hname
    by_cases hnumbers : ∃ a b, current = .number a ∧ (eval ctx fuel e m).1 = .ok (some (.number b))
    · obtain ⟨a, b, rfl, hb⟩ := hnumbers
      exact .inl ⟨a, b, (eval ctx fuel e m).2, hcurrent, Prod.ext hb rfl⟩
    · have hpart (a b : Float) (ha : current = .number a) :
          (eval ctx fuel e m).1 ≠ .ok (some (.number b)) := fun hb => hnumbers ⟨a, b, ha, hb⟩
      obtain ⟨stop, hstop⟩ := compound_of_resolves op hcurrent hpart
      rw [hstop]
      exact .inr ⟨stop, _, rfl, .inl ⟨⟨current, hcurrent⟩, rfl⟩⟩
  · have hnone (current : Value) : ¬ctx.Resolves m.env name current := fun h => hname ⟨current, h⟩
    obtain ⟨stop, hstop⟩ := compound_of_unresolved op hnone (eval ctx fuel e)
    rw [hstop]
    exact .inr ⟨stop, m, rfl, .inr ⟨hnone, rfl⟩⟩

end

/-- An update agrees with the assignment it is short for. It comes to a value exactly if the name resolves
to a number and the right-hand side comes to a number, and the value is then that of the operator on the two,
written to the name in the machine that the right-hand side leaves. The assignment of the operator
expression comes to the same value and leaves the same machine: variables, predicates, functions, and the
host with its events. An update that comes to no value fails and has written nothing itself: the machine is
the one that the right-hand side leaves if the name resolves, so that it is evaluated, and else the one from
the start. -/
theorem compound_agrees_with_assignment [Host σ] (ctx : Context σ) (fuel : Nat) (name : String)
    (op : Operator) (e : Expr) (m : Machine σ) :
    (∀ v m', eval ctx fuel (.compound name op e) m = (.ok (some v), m') ↔
      ∃ a b m₁, ctx.Resolves m.env name (.number a) ∧
        eval ctx fuel e m = (.ok (some (.number b)), m₁) ∧ v = applyNumeric op a b ∧
          m' = { m₁ with env := m₁.env.set name v }) ∧
      (∀ v m', eval ctx fuel (.compound name op e) m = (.ok (some v), m') →
        eval ctx fuel (.assign name (.binary op (.var name) e)) m = (.ok (some v), m')) ∧
      ∀ r m', eval ctx fuel (.compound name op e) m = (r, m') → (∀ v, r ≠ .ok (some v)) →
        (∃ stop, r = .error stop) ∧
          ((∃ current, ctx.Resolves m.env name current) ∧ m' = (eval ctx fuel e m).2 ∨
            (∀ current, ¬ctx.Resolves m.env name current) ∧ m' = m) := by
  rcases eval_compound_cases ctx fuel name op e m with ⟨a, b, m₁, hname, he⟩ | ⟨stop, m₁, hrun, hends⟩
  · have hrun := eval_compound_of_numbers op hname he
    rw [hrun]
    refine ⟨fun v m' => ⟨?_, ?_⟩, ?_, ?_⟩
    · rintro ⟨⟩
      exact ⟨a, b, m₁, hname, he, rfl, rfl⟩
    · rintro ⟨a', b', m₂, hname', he', rfl, rfl⟩
      exact hrun.symm.trans (eval_compound_of_numbers op hname' he')
    · rintro v m' ⟨⟩
      exact eval_assign_of_numbers op hname he
    · rintro r m' ⟨⟩ hr
      exact absurd rfl (hr _)
  · rw [hrun]
    refine ⟨fun v m' => ⟨nofun, ?_⟩, nofun, ?_⟩
    · rintro ⟨a, b, m₂, hname, he, -⟩
      cases hrun.symm.trans (eval_compound_of_numbers op hname he)
    · rintro r m' ⟨⟩ -
      exact ⟨⟨stop, rfl⟩, hends⟩

/-- An update whose right-hand side assigns to the same variable: both forms have read the old value
before. -/
theorem compound_agrees_with_assignment_reassigning :
    let ctx : Context Unit := ⟨∅, {}⟩
    let m : Machine Unit := ⟨{ vars := (∅ : Variables).insert "x" (.number 1) }, { host := () }⟩
    let e : Expr := .assign "x" (.literal (.number 5))
    ∃ m', eval ctx 1 (.compound "x" .sub e) m = (.ok (some (.number (1 - 5))), m') ∧
      eval ctx 1 (.assign "x" (.binary .sub (.var "x") e)) m = (.ok (some (.number (1 - 5))), m') := by
  intro ctx m e
  obtain ⟨hvalue, hassign, -⟩ := compound_agrees_with_assignment ctx 1 "x" .sub e m
  have hname : ctx.Resolves m.env "x" (.number 1) := .inl (by simp [m, Environment.get?])
  have hcompound := (hvalue (.number (1 - 5)) _).mpr ⟨1, 5, _, hname, rfl, rfl, rfl⟩
  exact ⟨_, hcompound, hassign _ _ hcompound⟩

end HostScript
