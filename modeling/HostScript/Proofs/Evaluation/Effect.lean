import HostScript.Proofs.Evaluation.Basic
import HostScript.Proofs.Expr.Nodes

/-!
# Effects of evaluation

A run of the evaluator is judged by the machine it starts from, the machine it leaves, and the reason
for which it stops early, if it does. An `Effect` is such a judgement together with what the single steps
need for it: it holds where nothing happens, it is passed on from one step to the next, and it covers
each way in which a step changes the machine. Every evaluation of the code that an effect covers has the
effect, whatever the script does and however it ends. So an invariant of evaluation is shown by giving
the effect, one field for each thing that a step can do.
-/
namespace HostScript

def Stop.of? {α : Type} : Except Stop α → Option Stop
  | .ok _ => none
  | .error stop => some stop

theorem Stop.of?_eq_some {α : Type} {r : Except Stop α} {stop : Stop} :
    Stop.of? r = some stop ↔ r = .error stop := by
  cases r with
  | ok a => simp [Stop.of?]
  | error s => simp [Stop.of?]

def Expr.target? : Expr → Option String
  | .letBinding name _ | .assign name _ | .compound name _ _ | .importName name _ => some name
  | _ => none

/-- The machine after an evaluation with bound variables that was started from `m` and left `m'`. -/
def EvalM.released {σ : Type} (bindings : List (String × Value)) (m m' : Machine σ) : Machine σ :=
  { m' with
    env := { m'.env with
      vars := Variables.restoreAll (Variables.bindAll bindings m.env.vars).1 m'.env.vars } }

/-- A judgement of evaluations by how they start and end. `code` are the constructs that it covers. -/
structure Effect {σ : Type} (ctx : Context σ) where
  code : Expr → Prop
  ends : Machine σ → Option Stop → Machine σ → Prop
  refl : ∀ m, ends m none m
  trans : ∀ {m m' m'' r}, ends m none m' → ends m' r m'' → ends m r m''
  stop : ∀ m stop, (∀ name, stop ≠ .failed (.undefinedReference .function name)) →
    ends m (some stop) m
  missing : ∀ m name arguments, code (.call name arguments) → ctx.builtins[name]? = none →
    m.env.functions[name]? = none → ends m (some (.failed (.undefinedReference .function name))) m
  builtin : ∀ m name arguments b args, code (.call name arguments) → ctx.builtins[name]? = some b →
    ends m (Stop.of? (EvalM.ofHost (b.call name args) m).1) (EvalM.ofHost (b.call name args) m).2
  call : ∀ m name arguments entry body args r m', code (.call name arguments) →
    m.env.functions[name]? = some entry → entry.body = some body →
    ((∀ n ∈ Expr.nodesAll body, code n) → ends (EvalM.bound (entry.params.zip args) m) r m') →
    ends m r (EvalM.released (entry.params.zip args) m m')
  merge : ∀ m m', ends m none m' →
    ends m none ⟨(m.env.mergeExisting m'.env).withFunctions m'.env.functions, m'.world⟩
  abandon : ∀ m m' stop, ends m (some stop) m' →
    ends m (some stop) ⟨m.env.withFunctions m'.env.functions, m'.world⟩
  bind : ∀ m e name v, code e → e.target? = some name →
    ends m none { m with env := m.env.set name v }
  attach : ∀ m name body, code (.define name body) →
    ends m none { m with env := m.env.attach name body }
  predicate : ∀ m name, ends m none { m with env := m.env.addPredicate name }
  query : ∀ m name, code (.query name) →
    ends m none { m with world := m.world.log (.queryMissing name) }
  host : ∀ m host, ends m none { m with world := { m.world with host } }

/-- An evaluation that has the effect, from whatever machine it starts. -/
def Effect.Governs {σ α : Type} {ctx : Context σ} (K : Effect ctx) (c : EvalM σ α) : Prop :=
  ∀ m : Machine σ, K.ends m (Stop.of? (c m).1) (c m).2

/-- What is made of the result does not matter to an effect. -/
theorem Effect.ends_bind_pure {σ α β : Type} {ctx : Context σ} {K : Effect ctx} {c : EvalM σ α}
    (f : α → β) {m : Machine σ} (h : K.ends m (Stop.of? (c m).1) (c m).2) :
    K.ends m (Stop.of? ((c >>= fun a => Pure.pure (f a)) m).1) ((c >>= fun a => Pure.pure (f a)) m).2 := by
  rcases hcm : c m with ⟨r, m'⟩
  rw [hcm] at h
  cases r with
  | ok a =>
    rw [EvalM.bind_of_ok hcm]
    exact h
  | error s =>
    rw [EvalM.bind_of_error hcm]
    exact h

namespace Effect.Governs

variable {σ α β : Type} {ctx : Context σ} {K : Effect ctx}

theorem pure (a : α) : K.Governs (Pure.pure a) := K.refl

theorem stop {s : Stop} (hs : ∀ name, s ≠ .failed (.undefinedReference .function name)) :
    K.Governs (throw s : EvalM σ α) := fun m => K.stop m s hs

theorem fail {error : RuntimeError} (he : ∀ name, error ≠ .undefinedReference .function name) :
    K.Governs (EvalM.fail error : EvalM σ α) :=
  stop fun name h => he name (by cases h; rfl)

theorem ofExcept {r : Except RuntimeError α}
    (he : ∀ name, r ≠ .error (.undefinedReference .function name)) : K.Governs (EvalM.ofExcept r) := by
  cases r with
  | ok a => exact pure a
  | error e => exact fail fun name h => he name (congrArg Except.error h)

theorem bind {c : EvalM σ α} {f : α → EvalM σ β} (hc : K.Governs c) (hf : ∀ a, K.Governs (f a)) :
    K.Governs (c >>= f) := by
  intro m
  have hends := hc m
  rcases hcm : c m with ⟨r, m'⟩
  rw [hcm] at hends
  cases r with
  | ok a =>
    rw [EvalM.bind_of_ok hcm]
    exact K.trans hends (hf a m')
  | error s =>
    rw [EvalM.bind_of_error hcm]
    exact hends

theorem map (f : α → β) {c : EvalM σ α} (hc : K.Governs c) : K.Governs (f <$> c) :=
  hc.bind fun a => pure (f a)

theorem get_bind {f : Machine σ → EvalM σ β} (h : ∀ m, K.Governs (f m)) : K.Governs (get >>= f) :=
  fun m => h m m

theorem modifyEnv {f : Environment → Environment} (h : ∀ m, K.ends m none { m with env := f m.env }) :
    K.Governs (EvalM.modifyEnv f : EvalM σ Unit) := h

theorem onHost (c : StateM σ α) : K.Governs (EvalM.ofHost (World.onHost c)) :=
  fun m => K.host m (c m.world.host).2

theorem isolate {c : EvalM σ α} (hc : K.Governs c) : K.Governs (EvalM.isolate c) := by
  intro m
  have hends := hc m
  rcases hcm : c m with ⟨r, m'⟩
  rw [hcm] at hends
  cases r with
  | ok a =>
    rw [EvalM.isolate_of_ok hcm]
    exact K.merge m m' hends
  | error s =>
    rw [EvalM.isolate_of_error hcm]
    exact K.abandon m m' s hends

end Effect.Governs

section

/-! None of the checks on values looks up a function. -/

theorem Value.asBoolean_ne_unresolved (v : Value) (name : String) :
    v.asBoolean ≠ .error (.undefinedReference .function name) := by
  cases v <;> simp [Value.asBoolean]

theorem Value.asObject_ne_unresolved (v : Value) (name : String) :
    v.asObject ≠ .error (.undefinedReference .function name) := by
  cases v <;> simp [Value.asObject]

theorem Import.materialize_ne_unresolved (i : Import) (name : String) :
    i.materialize ≠ .error (.undefinedReference .function name) := by
  cases i with
  | object id => simp [Import.materialize]
  | serialized type raw =>
    cases type with
    | string => simp [Import.materialize]
    | float =>
      simp only [Import.materialize]
      cases Number.read (Text.trimBlanks raw.toList) <;> simp
    | bool =>
      simp only [Import.materialize]
      split
      · simp
      · split <;> simp

end

section

variable {σ : Type} {ctx : Context σ} {K : Effect ctx} {part : EvalM σ (Option Value)}

theorem require_governed (place : Operand) (h : K.Governs part) : K.Governs (require place part) :=
  h.bind fun v => by
    cases v with
    | some v => exact .pure v
    | none => exact .fail (by simp)

theorem variableValue_governed (name : String) : K.Governs (variableValue ctx name) := by
  refine .get_bind fun m => ?_
  cases m.env.get? name with
  | some v => exact .pure _
  | none =>
    dsimp only
    cases ctx.inputs.imports[name]? with
    | some i => exact (Effect.Governs.ofExcept i.materialize_ne_unresolved).map _
    | none => exact .pure _

theorem queryValue_governed {name : String} (hcode : K.code (.query name)) :
    K.Governs (queryValue ctx name) := by
  unfold queryValue
  cases ctx.inputs.queries[name]? with
  | some v => exact .pure v
  | none =>
    have hlog : K.Governs (EvalM.log (.queryMissing name) : EvalM σ Unit) := fun m => K.query m name hcode
    exact hlog.bind fun _ => .pure _

theorem forHolds_governed (h : K.Governs part) : K.Governs (forHolds part) :=
  h.bind fun v => by
    cases v with
    | some v => exact .ofExcept v.asBoolean_ne_unresolved
    | none => exact .pure false

theorem whileHolds_governed (h : K.Governs part) : K.Governs (whileHolds part) :=
  h.bind fun v => by
    match v with
    | none => exact .pure _
    | some (.boolean b) => exact .pure _
    | some (.number x) => exact .pure _
    | some (.text _) => exact .fail (by simp)
    | some (.object _) => exact .fail (by simp)

theorem rounds_governed {holds : EvalM σ Bool} {round : EvalM σ Unit} (hh : K.Governs holds)
    (hr : K.Governs round) (fuel : Nat) : K.Governs (rounds holds round fuel) := by
  induction fuel with
  | zero => exact .stop (by simp)
  | succ fuel ih =>
    refine hh.bind fun b => ?_
    cases b with
    | true => exact hr.bind fun _ => ih
    | false => exact .pure ()

/-- Binding the target of a construct that the effect covers. -/
theorem set_governed {e : Expr} {name : String} (hcode : K.code e) (htarget : e.target? = some name)
    (v : Value) : K.Governs (EvalM.modifyEnv fun env => env.set name v) :=
  .modifyEnv fun m => K.bind m e name v hcode htarget

theorem binding_governed {e : Expr} {name : String} (hcode : K.code e)
    (htarget : e.target? = some name) (h : K.Governs part) : K.Governs (binding name part) :=
  (require_governed _ h).bind fun v => (set_governed hcode htarget v).bind fun _ => .pure v

theorem compound_governed {name : String} {op : Operator} {value : Expr}
    (hcode : K.code (.compound name op value)) (h : K.Governs part) :
    K.Governs (compound ctx name op part) := by
  refine (variableValue_governed name).bind fun current => ?_
  cases current with
  | none => exact .fail (by simp)
  | some current =>
    refine (require_governed _ h).bind fun v => ?_
    dsimp only
    split
    · exact (set_governed hcode rfl _).bind fun _ => .pure _
    · exact .fail (by simp)

theorem importValue_governed {name type : String} (hcode : K.code (.importName name type)) :
    K.Governs (importValue ctx name) := by
  unfold importValue
  cases ctx.inputs.imports[name]? with
  | none => exact .fail (by simp)
  | some i =>
    exact (Effect.Governs.ofExcept i.materialize_ne_unresolved).bind fun v => set_governed hcode rfl v

/-- A call has the effect if running the bodies that are covered has it. -/
theorem callNamed_governed {callBody : List Expr → EvalM σ (Option Value)}
    (hcall : ∀ body, (∀ n ∈ Expr.nodesAll body, K.code n) → K.Governs (callBody body)) {name : String}
    {arguments : List Expr} (hcode : K.code (.call name arguments)) (args : List Value) :
    K.Governs (callNamed ctx callBody name args) := by
  unfold callNamed
  cases hb : ctx.builtins[name]? with
  | some b => exact fun m => K.builtin m name arguments b args hcode hb
  | none =>
    intro m
    dsimp only
    unfold callFunction
    rw [EvalM.get_bind_run]
    cases hentry : m.env.functions[name]? with
    | none => exact K.missing m name arguments hcode hb hentry
    | some entry =>
      dsimp only
      cases hbody : entry.body with
      | none => exact K.stop m _ (by simp)
      | some body =>
        refine Effect.ends_bind_pure _ ?_
        refine K.call m name arguments entry body args _ _ hcode hentry hbody fun hnodes => ?_
        exact hcall body hnodes (EvalM.bound (entry.params.zip args) m)

variable [Host σ]

theorem ternaryHolds_governed (h : K.Governs part) : K.Governs (ternaryHolds part) := by
  refine (require_governed _ h).bind fun v => ?_
  cases truthOf? v with
  | some b => exact .pure b
  | none => exact .get_bind fun m => .fail (by simp)

theorem undefinedMember_governed {α : Type} (id : ObjectId) (member : String) :
    K.Governs (undefinedMember id member : EvalM σ α) :=
  .get_bind fun _ => .fail (by simp)

theorem readMember_governed (member : String) (h : K.Governs part) :
    K.Governs (readMember part member) := by
  refine (require_governed _ h).bind fun v => ?_
  refine (Effect.Governs.ofExcept v.asObject_ne_unresolved).bind fun id => ?_
  refine (Effect.Governs.onHost _).bind fun field => ?_
  cases field with
  | some field => exact .pure field
  | none => exact undefinedMember_governed id member

theorem writeMember_governed {value : EvalM σ (Option Value)} (member : String) (h : K.Governs part)
    (hv : K.Governs value) : K.Governs (writeMember part member value) := by
  refine (require_governed _ h).bind fun v => ?_
  refine (Effect.Governs.ofExcept v.asObject_ne_unresolved).bind fun id => ?_
  refine (require_governed _ hv).bind fun written => ?_
  refine (Effect.Governs.onHost _).bind fun accepted => ?_
  cases accepted with
  | true => exact .pure written
  | false => exact undefinedMember_governed id member

/-- The host may compute the sum, which changes nothing but its state. -/
theorem addFallback_governed (a b : Value) : K.Governs (EvalM.ofHost (addFallback a b)) := by
  intro m
  unfold addFallback
  cases a with
  | object id =>
    simp only [EvalM.ofHost, bind, ExceptT.bind, ExceptT.mk, StateT.bind, World.onHost]
    rcases Host.tryAdd id b m.world.host with ⟨_ | v, host⟩
    · exact K.host m host
    · exact K.host m host
  | number | text | boolean => exact K.refl m

theorem applyBinary_governed (op : Operator) (a b : Value) :
    K.Governs (EvalM.ofHost (applyBinary op a b)) := by
  unfold applyBinary
  split
  · exact K.refl
  · split
    · exact addFallback_governed a b
    · exact fun m => K.stop m _ (by simp)

end

section

variable {σ : Type} [Host σ] {ctx : Context σ} {K : Effect ctx}
  {callBody : List Expr → EvalM σ (Option Value)} {limit : Nat} {es : List Expr}

theorem evalSequence_governed (h : ∀ e ∈ es, K.Governs (evalExpr ctx callBody limit e))
    (last : Option Value) : K.Governs (evalSequence ctx callBody limit last es) := by
  induction es generalizing last with
  | nil => exact .pure last
  | cons e es ih =>
    rw [evalSequence]
    exact (h e List.mem_cons_self).bind fun v => ih (fun f hf => h f (List.mem_cons_of_mem e hf)) _

theorem evalArguments_governed (h : ∀ e ∈ es, K.Governs (evalExpr ctx callBody limit e)) :
    K.Governs (evalArguments ctx callBody limit es) := by
  induction es with
  | nil => exact .pure []
  | cons e es ih =>
    rw [evalArguments]
    exact (require_governed _ (h e List.mem_cons_self)).bind fun v =>
      (ih fun f hf => h f (List.mem_cons_of_mem e hf)).bind fun vs => .pure _

theorem evalIsolated_governed (h : ∀ e ∈ es, K.Governs (evalExpr ctx callBody limit e)) :
    K.Governs (evalIsolated ctx callBody limit es) := by
  induction es with
  | nil => exact .pure ()
  | cons e es ih =>
    rw [evalIsolated]
    exact (Effect.Governs.isolate (h e List.mem_cons_self)).bind fun _ =>
      ih fun f hf => h f (List.mem_cons_of_mem e hf)

/-- The evaluator has an effect on the code that it covers: one case for each construct. -/
theorem evalExpr_governed
    (hcall : ∀ body, (∀ n ∈ Expr.nodesAll body, K.code n) → K.Governs (callBody body)) (e : Expr)
    (hcode : ∀ n ∈ e.nodes, K.code n) : K.Governs (evalExpr ctx callBody limit e) := by
  induction e using Expr.induction with
  | step e parts_governed =>
    have ih (p : Expr) (hp : p ∈ e.parts) : K.Governs (evalExpr ctx callBody limit p) :=
      parts_governed p hp fun n hn => hcode n (Expr.mem_nodes_of_part hp hn)
    have hself := hcode e e.self_mem_nodes
    cases e with
    | literal value => exact .pure _
    | query name => exact (queryValue_governed hself).map _
    | var name => exact variableValue_governed name
    | binary op left right =>
      rw [evalExpr]
      have hleft := ih left (by simp [Expr.parts])
      have hright := ih right (by simp [Expr.parts])
      exact (require_governed _ hleft).bind fun a =>
        (require_governed _ hright).bind fun b => (applyBinary_governed op a b).map _
    | ternary condition yes no =>
      rw [evalExpr]
      have hcondition := ih condition (by simp [Expr.parts])
      refine (ternaryHolds_governed hcondition).bind fun b => ?_
      cases b with
      | true => exact ih yes (by simp [Expr.parts])
      | false => exact ih no (by simp [Expr.parts])
    | call name arguments =>
      rw [evalExpr]
      exact (evalArguments_governed ih).bind fun args => (callNamed_governed hcall hself args).map _
    | define name body =>
      rw [evalExpr]
      exact (Effect.Governs.modifyEnv fun m => K.attach m name body hself).bind fun _ => .pure none
    | forLoop init condition step body =>
      rw [evalExpr]
      have hinit := ih init (by simp [Expr.parts])
      have hcondition := ih condition (by simp [Expr.parts])
      have hstep := ih step (by simp [Expr.parts])
      have hbody (e : Expr) (he : e ∈ body) := ih e (by simp [Expr.parts, he])
      have hround := (evalIsolated_governed hbody).bind fun _ =>
        hstep.bind fun _ => Effect.Governs.pure ()
      have hrounds := rounds_governed (forHolds_governed hcondition) hround limit
      exact hinit.bind fun _ => hrounds.bind fun _ => .pure none
    | whileLoop condition body =>
      rw [evalExpr]
      have hcondition := ih condition (by simp [Expr.parts])
      have hround := evalIsolated_governed fun e he => ih e (List.mem_cons_of_mem _ he)
      have hrounds := rounds_governed (whileHolds_governed hcondition) hround limit
      exact hrounds.bind fun _ => .pure none
    | block body => exact evalSequence_governed ih none
    | letBinding name value | assign name value =>
      exact (binding_governed hself rfl (ih value (by simp [Expr.parts]))).map _
    | compound name op value => exact (compound_governed hself (ih value (by simp [Expr.parts]))).map _
    | returns value => exact ih value (by simp [Expr.parts])
    | namespaceName name | usingName name =>
      rw [evalExpr]
      exact (Effect.Governs.modifyEnv fun m => K.predicate m name).bind fun _ => .pure none
    | importName name type =>
      rw [evalExpr]
      exact (importValue_governed hself).bind fun _ => .pure none
    | access target member => exact (readMember_governed member (ih target (by simp [Expr.parts]))).map _
    | write target member value =>
      have htarget := ih target (by simp [Expr.parts])
      have hvalue := ih value (by simp [Expr.parts])
      exact (writeMember_governed member htarget hvalue).map _

theorem runBody_governed (fuel : Nat) (body : List Expr)
    (hcode : ∀ n ∈ Expr.nodesAll body, K.code n) : K.Governs (runBody ctx fuel body) := by
  induction fuel generalizing body with
  | zero => exact .stop (by simp)
  | succ fuel ih =>
    refine evalSequence_governed (fun e he => evalExpr_governed ih e fun n hn => hcode n ?_) none
    exact Expr.mem_nodesAll.mpr ⟨e, he, hn⟩

/-- An expression has every effect that covers its code. -/
theorem eval_governed (fuel : Nat) {e : Expr} (hcode : ∀ n ∈ e.nodes, K.code n) :
    K.Governs (eval ctx fuel e) :=
  evalExpr_governed (runBody_governed fuel) e hcode

/-- A script has every effect that covers its code. -/
theorem evalAll_governed (fuel : Nat) (hcode : ∀ n ∈ Expr.nodesAll es, K.code n) :
    K.Governs (evalAll ctx fuel es) := by
  refine evalSequence_governed (fun e he => eval_governed fuel fun n hn => hcode n ?_) none
  exact Expr.mem_nodesAll.mpr ⟨e, he, hn⟩

end

end HostScript
