import HostScript.Proofs.Evaluation.Effect

/-!
# Invariants of the functions during an evaluation

An evaluation changes the table of functions only by attaching the bodies of the definitions it meets,
and it runs only bodies that it finds in the table. A `Contract` says which constructs may be evaluated,
what holds of the table, and why an evaluation may stop; its proof fields are what one step needs. To
keep a contract is an effect, so the evaluator keeps every contract.
-/
namespace HostScript

def FunctionTable.attached (T : FunctionTable) (name : String) (body : List Expr) : FunctionTable :=
  T.insert name { T.getD name {} with body := some body }

/-- An invariant of the functions, together with what a step of the evaluation needs in order to keep
it. -/
structure Contract {σ : Type} (ctx : Context σ) where
  /-- The constructs that may be evaluated. -/
  code : Expr → Prop
  /-- What holds of the functions. -/
  table : FunctionTable → Prop
  /-- The reasons for which an evaluation may stop, and the worlds it may leave then. -/
  stops : Stop → World σ → Prop
  attach : ∀ (T : FunctionTable) (name : String) (body : List Expr), table T →
    code (.define name body) → table (T.attached name body)
  body : ∀ (T : FunctionTable) (name : String) (entry : FunctionEntry) (body : List Expr), table T →
    T[name]? = some entry → entry.body = some body → ∀ n ∈ Expr.nodesAll body, code n
  missing : ∀ (T : FunctionTable) (name : String) (arguments : List Expr), table T →
    code (.call name arguments) → ctx.builtins[name]? = none → T[name]? = none →
    ∀ w, stops (.failed (.undefinedReference .function name)) w
  builtin : ∀ (b : Builtin σ) (name : String) (args : List Value) (w w' : World σ)
    (error : RuntimeError), ctx.builtins[name]? = some b → b.call name args w = (.error error, w') →
    stops (.failed error) w'
  other : ∀ stop : Stop, (∀ name, stop ≠ .failed (.undefinedReference .function name)) →
    ∀ w, stops stop w

/-- An evaluation that keeps a contract: started with the invariant it ends with it, and it stops early
only for a reason that the contract admits. -/
def Contract.Keeps {σ α : Type} {ctx : Context σ} (K : Contract ctx) (c : EvalM σ α) : Prop :=
  ∀ m : Machine σ, K.table m.env.functions →
    K.table (c m).2.env.functions ∧ ∀ stop, (c m).1 = .error stop → K.stops stop (c m).2.world

namespace Contract

variable {σ : Type} {ctx : Context σ}

/-- To keep a contract, as an effect. -/
def effect (K : Contract ctx) : Effect ctx where
  code := K.code
  ends m r m' := K.table m.env.functions →
    K.table m'.env.functions ∧ ∀ stop, r = some stop → K.stops stop m'.world
  refl _ h := ⟨h, nofun⟩
  trans hfirst hsecond h := hsecond (hfirst h).1
  stop m stop hstop h := by
    refine ⟨h, fun s hs => ?_⟩
    cases hs
    exact K.other stop hstop m.world
  missing m name arguments hcode hb hentry h := by
    refine ⟨h, fun s hs => ?_⟩
    cases hs
    exact K.missing m.env.functions name arguments h hcode hb hentry m.world
  builtin m name arguments b args _ hb h := by
    unfold EvalM.ofHost
    rcases hcall : b.call name args m.world with ⟨r, w⟩
    cases r with
    | ok v => exact ⟨h, nofun⟩
    | error error =>
      refine ⟨h, fun s hs => ?_⟩
      cases hs
      exact K.builtin b name args m.world w error hb hcall
  call m name _ entry body _ _ _ _ hentry hbody hrun h :=
    hrun (K.body m.env.functions name entry body h hentry hbody) h
  merge _ _ hends h := hends h
  abandon _ _ _ hends h := hends h
  bind _ _ _ _ _ _ h := ⟨h, nofun⟩
  attach m name body hcode h := ⟨K.attach m.env.functions name body h hcode, nofun⟩
  predicate m name h := by
    refine ⟨?_, nofun⟩
    unfold Environment.addPredicate
    split <;> exact h
  query _ _ _ h := ⟨h, nofun⟩
  host _ _ h := ⟨h, nofun⟩

theorem keeps_of_governs {K : Contract ctx} {α : Type} {c : EvalM σ α} (h : K.effect.Governs c) :
    K.Keeps c := by
  intro m hm
  obtain ⟨htable, hstops⟩ := h m hm
  exact ⟨htable, fun stop hstop => hstops stop (Stop.of?_eq_some.mpr hstop)⟩

end Contract

section

variable {σ : Type} [Host σ] {ctx : Context σ} {K : Contract ctx}

/-- An expression keeps a contract that covers its code. -/
theorem eval_keeps (fuel : Nat) {e : Expr} (hcode : ∀ n ∈ e.nodes, K.code n) :
    K.Keeps (eval ctx fuel e) :=
  Contract.keeps_of_governs (eval_governed fuel hcode)

/-- A script keeps a contract that covers its code. -/
theorem evalAll_keeps {es : List Expr} (fuel : Nat) (hcode : ∀ n ∈ Expr.nodesAll es, K.code n) :
    K.Keeps (evalAll ctx fuel es) :=
  Contract.keeps_of_governs (evalAll_governed fuel hcode)

end

end HostScript
