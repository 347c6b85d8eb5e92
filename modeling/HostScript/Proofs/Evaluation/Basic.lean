import HostScript.Eval

/-!
# Running evaluations

How the combinators of `EvalM` act on a machine, and what computations of the host can depend on. The
proofs about the evaluator use these equations and do not look into the monad.
-/
namespace HostScript

namespace EvalM

variable {σ α β : Type}

theorem bind_of_ok {c : EvalM σ α} {f : α → EvalM σ β} {m m' : Machine σ} {a : α}
    (h : c m = (.ok a, m')) : (c >>= f) m = f a m' := by
  simp only [bind, ExceptT.bind, ExceptT.mk, StateT.bind, h, ExceptT.bindCont]

theorem bind_of_error {c : EvalM σ α} {f : α → EvalM σ β} {m m' : Machine σ} {stop : Stop}
    (h : c m = (.error stop, m')) : (c >>= f) m = (.error stop, m') := by
  simp only [bind, ExceptT.bind, ExceptT.mk, StateT.bind, h, ExceptT.bindCont]
  rfl

theorem get_bind_run (f : Machine σ → EvalM σ β) (m : Machine σ) : (get >>= f) m = f m m := rfl

/-- What is made of the result leaves the machine as it is. -/
theorem map_run (f : α → β) (c : EvalM σ α) (m : Machine σ) :
    (f <$> c) m = ((c m).1.map f, (c m).2) := by
  rw [map_eq_pure_bind]
  rcases hc : c m with ⟨stop | a, m'⟩
  · exact bind_of_error hc
  · exact bind_of_ok hc

theorem isolate_of_ok {c : EvalM σ α} {m m' : Machine σ} {a : α} (h : c m = (.ok a, m')) :
    isolate c m =
      (.ok (), ⟨(m.env.mergeExisting m'.env).withFunctions m'.env.functions, m'.world⟩) := by
  simp only [isolate, h]

theorem isolate_of_error {c : EvalM σ α} {m m' : Machine σ} {stop : Stop}
    (h : c m = (.error stop, m')) :
    isolate c m = (.error stop, ⟨m.env.withFunctions m'.env.functions, m'.world⟩) := by
  simp only [isolate, h]

/-- The machine in which an evaluation with bound variables starts. -/
def bound (bindings : List (String × Value)) (m : Machine σ) : Machine σ :=
  { m with env := { m.env with vars := (Variables.bindAll bindings m.env.vars).2 } }

theorem withBindings_run (bindings : List (String × Value)) (c : EvalM σ α) (m : Machine σ) :
    withBindings bindings c m =
      let ended := c (bound bindings m)
      (ended.1, { ended.2 with
        env := { ended.2.env with
          vars := Variables.restoreAll (Variables.bindAll bindings m.env.vars).1 ended.2.env.vars } }) :=
  rfl

end EvalM

section

variable {σ : Type} {part : EvalM σ (Option Value)} {m m' : Machine σ}

theorem require_of_some (place : Operand) {v : Value} (h : part m = (.ok (some v), m')) :
    require place part m = (.ok v, m') := EvalM.bind_of_ok h

theorem require_of_none (place : Operand) (h : part m = (.ok none, m')) :
    require place part m = (.error (.failed (.missingValue place)), m') := EvalM.bind_of_ok h

theorem require_of_error (place : Operand) {stop : Stop} (h : part m = (.error stop, m')) :
    require place part m = (.error stop, m') := EvalM.bind_of_error h

end

/-- A computation of the host is blind if neither its result nor the state it leaves the host in depends
on the events reported so far. -/
def HostM.Blind {σ α : Type} (c : HostM σ α) : Prop :=
  ∀ w v : World σ, w.host = v.host → (c w).1 = (c v).1 ∧ (c w).2.host = (c v).2.host

namespace HostM.Blind

variable {σ α β : Type}

theorem pure (a : α) : Blind (Pure.pure a : HostM σ α) := fun _ _ h => ⟨rfl, h⟩

theorem throw (error : RuntimeError) : Blind (MonadExcept.throw error : HostM σ α) :=
  fun _ _ h => ⟨rfl, h⟩

theorem bind {c : HostM σ α} {f : α → HostM σ β} (hc : Blind c) (hf : ∀ a, Blind (f a)) :
    Blind (c >>= f) := by
  intro w v h
  obtain ⟨hr, hh⟩ := hc w v h
  simp only [Bind.bind, ExceptT.bind, ExceptT.mk, StateT.bind]
  rcases hw : c w with ⟨r, w'⟩
  rcases hv : c v with ⟨r', v'⟩
  simp only [hw, hv] at hr hh
  subst hr
  cases r with
  | ok a => exact hf a w' v' hh
  | error e => exact ⟨rfl, hh⟩

theorem onHost (c : StateM σ α) : Blind (World.onHost c) := by
  intro w v h
  unfold World.onHost
  rw [h]
  exact ⟨rfl, rfl⟩

end HostM.Blind

section

variable {σ : Type}

theorem Builtin.call_blind (b : Builtin σ) (name : String) (args : List Value) :
    HostM.Blind (b.call name args) := by
  have handler_blind : HostM.Blind (b.handler args) := by
    intro w v h
    simp [Builtin.handler, h]
  unfold Builtin.call
  cases b.arity with
  | variadic => exact handler_blind
  | exactly count =>
    by_cases hc : count = args.length
    · simpa only [if_pos hc] using handler_blind
    · simpa only [if_neg hc] using HostM.Blind.throw _

variable [Host σ]

theorem addFallback_blind (a b : Value) : HostM.Blind (addFallback a b : HostM σ Value) := by
  have texts_blind : HostM.Blind (do
      let w ← get
      return .text (a.render w.host ++ b.render w.host) : HostM σ Value) := by
    intro w v h
    exact ⟨congrArg (fun host => Except.ok (Value.text (a.render host ++ b.render host))) h, h⟩
  unfold addFallback
  cases a with
  | object id =>
    refine HostM.Blind.bind (HostM.Blind.onHost _) fun sum => ?_
    cases sum with
    | some v => exact HostM.Blind.pure v
    | none => exact texts_blind
  | number | text | boolean => exact texts_blind

theorem applyBinary_blind (op : Operator) (a b : Value) :
    HostM.Blind (applyBinary op a b : HostM σ Value) := by
  unfold applyBinary
  split
  · exact HostM.Blind.pure _
  · split
    · exact addFallback_blind a b
    · exact HostM.Blind.throw _

end

end HostScript
