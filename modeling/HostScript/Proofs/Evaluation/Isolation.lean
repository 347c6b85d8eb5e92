import HostScript.Proofs.Evaluation.Basic

/-!
# Loop bodies in isolation

Each statement of a loop body runs in a copy of the environment. If it is completed, the names that were
bound before it take over their values from the copy, and if it stops early, no variable changes. So a
body can neither add a variable nor a predicate, and it leaves the variables as the statements that were
completed made them. What a loop adds comes from its other parts: the initialisation, the condition and
the step, which run in the environment itself.
-/
namespace HostScript

/-- Something that an evaluation can add to an environment. -/
inductive Item where
  | binding (name : String)
  | predicate (text : String)
deriving Repr, DecidableEq

/-- Whether a name is bound, or a predicate is there. -/
def Environment.Holds (env : Environment) : Item → Prop
  | .binding name => (env.get? name).isSome
  | .predicate text => text ∈ env.predicates

/-- Environments in which the same names are bound and the same predicates stand. -/
structure Environment.SameOutline (env env' : Environment) : Prop where
  names : ∀ x, (env'.get? x).isSome = (env.get? x).isSome
  predicates : env'.predicates = env.predicates

theorem Environment.SameOutline.trans {env₁ env₂ env₃ : Environment} (h : env₁.SameOutline env₂)
    (h' : env₂.SameOutline env₃) : env₁.SameOutline env₃ :=
  ⟨fun x => (h'.names x).trans (h.names x), h'.predicates.trans h.predicates⟩

theorem Environment.SameOutline.holds_iff {env env' : Environment} (h : env.SameOutline env')
    (item : Item) : env'.Holds item ↔ env.Holds item := by
  cases item with
  | binding name => rw [Holds, Holds, h.names]
  | predicate text => rw [Holds, Holds, h.predicates]

/-- An evaluation that starts without an item and ends with it, in whatever way it ends. -/
def EvalM.Adds {σ α : Type} (c : EvalM σ α) (m : Machine σ) (item : Item) : Prop :=
  ¬m.env.Holds item ∧ (c m).2.env.Holds item

/-- The rounds of a loop: after some of them, all completed, the machine `m` has become `m'`. -/
inductive AfterRounds {σ : Type} (holds : EvalM σ Bool) (round : EvalM σ Unit) :
    Machine σ → Machine σ → Prop where
  | none (m : Machine σ) : AfterRounds holds round m m
  | next {m m₁ m₂ m' : Machine σ} (hholds : holds m = (.ok true, m₁)) (hround : round m₁ = (.ok (), m₂))
    (hrest : AfterRounds holds round m₂ m') : AfterRounds holds round m m'

namespace EvalM

variable {σ α β : Type} {m : Machine σ} {item : Item}

theorem not_adds_pure (a : α) : ¬Adds (pure a : EvalM σ α) m item := fun h => h.1 h.2

theorem not_adds_throw (stop : Stop) : ¬Adds (throw stop : EvalM σ α) m item := fun h => h.1 h.2

theorem not_adds_ofExcept (r : Except RuntimeError α) : ¬Adds (ofExcept r : EvalM σ α) m item := by
  cases r with
  | ok a => exact not_adds_pure a
  | error e => exact not_adds_throw (.failed e)

/-- What two evaluations add one after the other is added by one of them. -/
theorem Adds.bind {c : EvalM σ α} {f : α → EvalM σ β} (h : Adds (c >>= f) m item) :
    Adds c m item ∨ ∃ a m', c m = (.ok a, m') ∧ Adds (f a) m' item := by
  obtain ⟨hfresh, hends⟩ := h
  by_cases hmiddle : (c m).2.env.Holds item
  · exact .inl ⟨hfresh, hmiddle⟩
  · rcases hc : c m with ⟨_ | a, m'⟩
    · rw [bind_of_error hc] at hends
      rw [hc] at hmiddle
      exact absurd hends hmiddle
    · rw [bind_of_ok hc] at hends
      rw [hc] at hmiddle
      exact .inr ⟨a, m', rfl, hmiddle, hends⟩

/-- What is made of the result adds nothing. -/
theorem Adds.of_bind {c : EvalM σ α} {f : α → EvalM σ β} (h : Adds (c >>= f) m item)
    (hf : ∀ a m', ¬Adds (f a) m' item) : Adds c m item := by
  rcases h.bind with h | ⟨a, m', _, h⟩
  · exact h
  · exact absurd h (hf a m')

/-- Neither way in which an isolated evaluation ends changes the outline of the environment. -/
theorem isolate_outline (c : EvalM σ α) (m : Machine σ) :
    m.env.SameOutline (isolate c m).2.env := by
  rcases hc : c m with ⟨_ | a, clone⟩
  · rw [isolate_of_error hc]
    exact ⟨fun x => rfl, rfl⟩
  · rw [isolate_of_ok hc]
    refine ⟨fun x => ?_, rfl⟩
    have hmerge := m.env.get?_mergeExisting clone.env x
    simp only [Environment.withFunctions, Environment.get?] at hmerge ⊢
    rw [hmerge, Option.isSome_map]

end EvalM

open EvalM

section

variable {σ : Type} {holds : EvalM σ Bool} {round : EvalM σ Unit} {part : EvalM σ (Option Value)}
  {m : Machine σ} {item : Item}

/-- What a loop adds is added by a condition or by a round that it comes to. -/
theorem rounds_adds {fuel : Nat} (h : Adds (rounds holds round fuel) m item) :
    ∃ m₁, AfterRounds holds round m m₁ ∧
      (Adds holds m₁ item ∨ ∃ m₂, holds m₁ = (.ok true, m₂) ∧ Adds round m₂ item) := by
  induction fuel generalizing m with
  | zero => exact absurd h (not_adds_throw .outOfFuel)
  | succ fuel ih =>
    rw [rounds] at h
    rcases h.bind with h | ⟨goesOn, m₂, hholds, h⟩
    · exact ⟨m, .none m, .inl h⟩
    cases goesOn with
    | false => exact absurd h (not_adds_pure ())
    | true =>
      rcases h.bind with h | ⟨_, m₃, hround, h⟩
      · exact ⟨m, .none m, .inr ⟨m₂, hholds, h⟩⟩
      obtain ⟨m₁, hrounds, h⟩ := ih h
      exact ⟨m₁, .next hholds hround hrounds, h⟩

theorem whileHolds_adds (h : Adds (whileHolds part) m item) : Adds part m item := by
  refine h.of_bind fun v m' => ?_
  match v with
  | none => exact not_adds_pure _
  | some (.boolean b) => exact not_adds_pure _
  | some (.number x) => exact not_adds_pure _
  | some (.text _) => exact not_adds_throw _
  | some (.object _) => exact not_adds_throw _

theorem forHolds_adds (h : Adds (forHolds part) m item) : Adds part m item := by
  refine h.of_bind fun v m' => ?_
  cases v with
  | none => exact not_adds_pure _
  | some v => exact not_adds_ofExcept _

end

section

variable {σ : Type} [Host σ] (ctx : Context σ) (callBody : List Expr → EvalM σ (Option Value))
  (limit : Nat)

/-- What it does to the environment to run a loop body by `run`, where `eval` evaluates a statement. The
statements `done` are completed, and the variables are those that they leave. The last one of them has
determined the values of the names that were bound before it: they are those of its copy of the
environment, as far as the copy still binds them. After `done` the body is either at its end, or it stops
early with the next statement. -/
structure RunsIsolated (eval : Expr → EvalM σ (Option Value)) (run : List Expr → EvalM σ Unit)
    (body : List Expr) (m : Machine σ) : Prop where
  outline : m.env.SameOutline (run body m).2.env
  completed : ∃ done rest, body = done ++ rest ∧ (run done m).1 = .ok () ∧
    (run body m).2.env.vars = (run done m).2.env.vars ∧
    (∀ before e, done = before ++ [e] → ∃ v clone, eval e (run before m).2 = (.ok v, clone) ∧
      ∀ x, (run body m).2.env.get? x =
        ((run before m).2.env.get? x).map fun old => (clone.env.get? x).getD old) ∧
    ((run body m).1 = .ok () ∧ rest = [] ∨
      ∃ e more stop clone, rest = e :: more ∧ eval e (run done m).2 = (.error stop, clone) ∧
        (run body m).1 = .error stop)

variable {ctx callBody limit} {m : Machine σ} {item : Item}

theorem evalIsolated_cons_of_ok {e : Expr} {v : Option Value} {clone : Machine σ}
    (he : evalExpr ctx callBody limit e m = (.ok v, clone)) (body : List Expr) :
    evalIsolated ctx callBody limit (e :: body) m = evalIsolated ctx callBody limit body
      ⟨(m.env.mergeExisting clone.env).withFunctions clone.env.functions, clone.world⟩ := by
  rw [evalIsolated, bind_of_ok (isolate_of_ok he)]

theorem evalIsolated_cons_of_error {e : Expr} {stop : Stop} {clone : Machine σ}
    (he : evalExpr ctx callBody limit e m = (.error stop, clone)) (body : List Expr) :
    evalIsolated ctx callBody limit (e :: body) m =
      (.error stop, ⟨m.env.withFunctions clone.env.functions, clone.world⟩) := by
  rw [evalIsolated, bind_of_error (isolate_of_error he)]

theorem evalIsolated_append (done rest : List Expr) :
    evalIsolated ctx callBody limit (done ++ rest) =
      (do
        evalIsolated ctx callBody limit done
        evalIsolated ctx callBody limit rest) := by
  induction done with
  | nil => simp [evalIsolated]
  | cons e done ih => simp [evalIsolated, ih]

theorem evalIsolated_outline (body : List Expr) (m : Machine σ) :
    m.env.SameOutline (evalIsolated ctx callBody limit body m).2.env := by
  induction body generalizing m with
  | nil => exact ⟨fun x => rfl, rfl⟩
  | cons e body ih =>
    have hstatement := isolate_outline (evalExpr ctx callBody limit e) m
    rcases he : evalExpr ctx callBody limit e m with ⟨_ | _, clone⟩
    · rw [isolate_of_error he] at hstatement
      rw [evalIsolated_cons_of_error he]
      exact hstatement
    · rw [isolate_of_ok he] at hstatement
      rw [evalIsolated_cons_of_ok he]
      exact hstatement.trans (ih _)

theorem not_adds_evalIsolated (body : List Expr) :
    ¬Adds (evalIsolated ctx callBody limit body) m item := by
  rintro ⟨hfresh, hends⟩
  exact hfresh (((evalIsolated_outline body m).holds_iff item).mp hends)

/-- The values that the last statement of a completed body leaves. -/
theorem evalIsolated_last {before : List Expr} {e : Expr}
    (h : (evalIsolated ctx callBody limit (before ++ [e]) m).1 = .ok ()) :
    ∃ v clone, evalExpr ctx callBody limit e (evalIsolated ctx callBody limit before m).2 =
        (.ok v, clone) ∧
      ∀ x, (evalIsolated ctx callBody limit (before ++ [e]) m).2.env.get? x =
        ((evalIsolated ctx callBody limit before m).2.env.get? x).map fun old =>
          (clone.env.get? x).getD old := by
  rw [evalIsolated_append] at h ⊢
  rcases hbefore : evalIsolated ctx callBody limit before m with ⟨_ | _, m₁⟩
  · rw [bind_of_error hbefore] at h
    cases h
  rw [bind_of_ok hbefore] at h ⊢
  rcases he : evalExpr ctx callBody limit e m₁ with ⟨_ | v, clone⟩
  · rw [evalIsolated_cons_of_error he] at h
    cases h
  rw [evalIsolated_cons_of_ok he]
  exact ⟨v, clone, rfl, fun x => m₁.env.get?_mergeExisting clone.env x⟩

/-- A body is completed up to its end or up to a statement that stops early. -/
theorem evalIsolated_stops (body : List Expr) (m : Machine σ) :
    ∃ done rest, body = done ++ rest ∧ (evalIsolated ctx callBody limit done m).1 = .ok () ∧
      (evalIsolated ctx callBody limit body m).2.env.vars =
        (evalIsolated ctx callBody limit done m).2.env.vars ∧
      ((evalIsolated ctx callBody limit body m).1 = .ok () ∧ rest = [] ∨
        ∃ e more stop clone, rest = e :: more ∧
          evalExpr ctx callBody limit e (evalIsolated ctx callBody limit done m).2 =
            (.error stop, clone) ∧
          (evalIsolated ctx callBody limit body m).1 = .error stop) := by
  induction body generalizing m with
  | nil => exact ⟨[], [], rfl, rfl, rfl, .inl ⟨rfl, rfl⟩⟩
  | cons e body ih =>
    rcases he : evalExpr ctx callBody limit e m with ⟨stop | v, clone⟩
    · refine ⟨[], e :: body, rfl, rfl, ?_⟩
      rw [evalIsolated_cons_of_error he]
      exact ⟨rfl, .inr ⟨e, body, stop, clone, rfl, he, rfl⟩⟩
    · obtain ⟨done, rest, rfl, hdone⟩ :=
        ih ⟨(m.env.mergeExisting clone.env).withFunctions clone.env.functions, clone.world⟩
      refine ⟨e :: done, rest, rfl, ?_⟩
      rw [evalIsolated_cons_of_ok he, evalIsolated_cons_of_ok he]
      exact hdone

theorem evalIsolated_runsIsolated (body : List Expr) (m : Machine σ) :
    RunsIsolated (evalExpr ctx callBody limit) (evalIsolated ctx callBody limit) body m := by
  obtain ⟨done, rest, hbody, hdone, hvars, hends⟩ :=
    @evalIsolated_stops σ _ ctx callBody limit body m
  refine ⟨evalIsolated_outline body m, done, rest, hbody, hdone, hvars, ?_, hends⟩
  rintro before e rfl
  obtain ⟨v, clone, he, hget⟩ := evalIsolated_last hdone
  refine ⟨v, clone, he, fun x => ?_⟩
  rw [Environment.get?, hvars]
  exact hget x

/-- What a `while` loop adds is added by its condition. -/
theorem whileLoop_adds {condition : Expr} {body : List Expr}
    (h : Adds (evalExpr ctx callBody limit (.whileLoop condition body)) m item) :
    ∃ m₁, AfterRounds (whileHolds (evalExpr ctx callBody limit condition))
        (evalIsolated ctx callBody limit body) m m₁ ∧
      Adds (evalExpr ctx callBody limit condition) m₁ item := by
  rw [evalExpr] at h
  obtain ⟨m₁, hrounds, h | ⟨m₂, _, h⟩⟩ := rounds_adds (h.of_bind fun _ _ => not_adds_pure none)
  · exact ⟨m₁, hrounds, whileHolds_adds h⟩
  · exact absurd h (not_adds_evalIsolated body)

/-- What a `for` loop adds is added by its initialisation, its condition or its step. -/
theorem forLoop_adds {init condition step : Expr} {body : List Expr}
    (h : Adds (evalExpr ctx callBody limit (.forLoop init condition step body)) m item) :
    Adds (evalExpr ctx callBody limit init) m item ∨
      ∃ v m₀ m₁, evalExpr ctx callBody limit init m = (.ok v, m₀) ∧
        AfterRounds (forHolds (evalExpr ctx callBody limit condition))
          (forRound (evalIsolated ctx callBody limit body) (evalExpr ctx callBody limit step)) m₀ m₁ ∧
        (Adds (evalExpr ctx callBody limit condition) m₁ item ∨
          ∃ m₂ m₃, forHolds (evalExpr ctx callBody limit condition) m₁ = (.ok true, m₂) ∧
            evalIsolated ctx callBody limit body m₂ = (.ok (), m₃) ∧
            Adds (evalExpr ctx callBody limit step) m₃ item) := by
  rw [evalExpr] at h
  rcases h.bind with h | ⟨v, m₀, hinit, h⟩
  · exact .inl h
  obtain ⟨m₁, hrounds, h | ⟨m₂, hholds, h⟩⟩ := rounds_adds (h.of_bind fun _ _ => not_adds_pure none)
  · exact .inr ⟨v, m₀, m₁, hinit, hrounds, .inl (forHolds_adds h)⟩
  rcases h.bind with h | ⟨_, m₃, hbody, h⟩
  · exact absurd h (not_adds_evalIsolated body)
  · exact .inr ⟨v, m₀, m₁, hinit, hrounds,
      .inr ⟨m₂, m₃, hholds, hbody, h.of_bind fun _ _ => not_adds_pure ()⟩⟩

/-- Loops isolate their bodies. Running a body keeps the bound names and the predicates; each statement
that is completed passes on the values of its copy of the environment, and one that stops early passes on
nothing. So whatever a loop adds to the environment, after any number of rounds, has been added by an
evaluation of its condition or, for a `for` loop, of its initialisation or its step. -/
theorem loop_bodies_isolated (ctx : Context σ) (callBody : List Expr → EvalM σ (Option Value))
    (limit : Nat) :
    (∀ body m, RunsIsolated (evalExpr ctx callBody limit) (evalIsolated ctx callBody limit) body m) ∧
    (∀ condition body m item,
      Adds (evalExpr ctx callBody limit (.whileLoop condition body)) m item →
      ∃ m₁, AfterRounds (whileHolds (evalExpr ctx callBody limit condition))
          (evalIsolated ctx callBody limit body) m m₁ ∧
        Adds (evalExpr ctx callBody limit condition) m₁ item) ∧
    (∀ init condition step body m item,
      Adds (evalExpr ctx callBody limit (.forLoop init condition step body)) m item →
      Adds (evalExpr ctx callBody limit init) m item ∨
        ∃ v m₀ m₁, evalExpr ctx callBody limit init m = (.ok v, m₀) ∧
          AfterRounds (forHolds (evalExpr ctx callBody limit condition))
            (forRound (evalIsolated ctx callBody limit body) (evalExpr ctx callBody limit step)) m₀ m₁ ∧
          (Adds (evalExpr ctx callBody limit condition) m₁ item ∨
            ∃ m₂ m₃, forHolds (evalExpr ctx callBody limit condition) m₁ = (.ok true, m₂) ∧
              evalIsolated ctx callBody limit body m₂ = (.ok (), m₃) ∧
              Adds (evalExpr ctx callBody limit step) m₃ item)) := by
  refine ⟨evalIsolated_runsIsolated, ?_, ?_⟩
  · intro condition body m item h
    exact whileLoop_adds h
  · intro init condition step body m item h
    exact forLoop_adds h

end

end HostScript
