import HostScript.Proofs.Evaluation.Restoration

/-!
# What a call sees of its caller

A function body runs in the environment of the caller, with the parameters bound to the arguments for the
time of the call. A parameter that received an argument hides the variable of that name, so the caller may
hold anything in it. A parameter without an argument is not bound at all: the body reads the variable of
the caller through it. So a call is independent of what the caller holds under the names of the parameters
exactly if each of these names received an argument.
-/
namespace HostScript

/-- Machines that differ at most in what the given names are bound to. -/
structure Machine.AgreesOutside {σ : Type} (names : List String) (m m' : Machine σ) : Prop where
  vars : ∀ x ∉ names, m.env.get? x = m'.env.get? x
  functions : m.env.functions = m'.env.functions
  predicates : m.env.predicates = m'.env.predicates
  world : m.world = m'.world

namespace Variables

/-- Binding names makes variables equal that differed in these names only. -/
theorem bindAll_eq_of_agree (bindings : List (String × Value)) {vars vars' : Variables}
    (h : ∀ x ∉ bindings.map Prod.fst, vars[x]? = vars'[x]?) :
    (bindAll bindings vars).2 = (bindAll bindings vars').2 := by
  induction bindings generalizing vars vars' with
  | nil => exact Std.ExtTreeMap.ext_getElem? fun {x} => h x List.not_mem_nil
  | cons binding rest ih =>
    obtain ⟨name, v⟩ := binding
    refine ih fun x hx => ?_
    rw [Std.ExtTreeMap.getElem?_insert, Std.ExtTreeMap.getElem?_insert]
    split
    · rfl
    · rename_i hname
      refine h x ?_
      rw [List.map_cons, List.mem_cons, not_or]
      exact ⟨fun hx => hname (by simp [hx]), hx⟩

end Variables

section

variable {σ : Type} {callBody : List Expr → EvalM σ (Option Value)} {m m' : Machine σ} {name : String}
  {entry : FunctionEntry} {args : List Value}

/-- A call starts its body from the same machine if the callers differ in bound parameters only. -/
theorem EvalM.bound_eq_of_agrees {bindings : List (String × Value)}
    (h : m.AgreesOutside (bindings.map Prod.fst) m') : bound bindings m = bound bindings m' := by
  obtain ⟨⟨vars, functions, predicates⟩, world⟩ := m
  obtain ⟨⟨vars', functions', predicates'⟩, world'⟩ := m'
  obtain ⟨hvars, rfl, rfl, rfl⟩ := h
  have hbound := Variables.bindAll_eq_of_agree bindings hvars
  simp only [bound, hbound]

/-- A call gives the same result for callers that differ in nothing but the variables that its arguments
hide. -/
theorem callFunction_hides (hentry : m.env.functions[name]? = some entry)
    (h : m.AgreesOutside (entry.params.take args.length) m') :
    (callFunction callBody name args m).1 = (callFunction callBody name args m').1 := by
  have hentry' : m'.env.functions[name]? = some entry := h.functions ▸ hentry
  cases hbody : entry.body with
  | none =>
    unfold callFunction
    rw [EvalM.get_bind_run, EvalM.get_bind_run, hentry, hentry']
    dsimp only
    rw [hbody]
    rfl
  | some body =>
    rw [← map_fst_zip_take] at h
    rw [callFunction_run callBody hentry hbody, callFunction_run callBody hentry' hbody,
      EvalM.bound_eq_of_agrees h]

end

section

variable {σ : Type} [Host σ] (ctx : Context σ)

/-- A function that returns one of its parameters returns the variable of the caller if the parameter
received no argument. -/
theorem callFunction_reads_caller (fuel : Nat) {m : Machine σ} {name x : String} {params : List String}
    {args : List Value} {v : Value} (hentry : m.env.functions[name]? = some ⟨params, some [.var x]⟩)
    (hx : x ∉ params.take args.length) (hv : m.env.get? x = some v) :
    (callFunction (runBody ctx (fuel + 1)) name args m).1 = .ok v := by
  have hbound : (EvalM.bound (params.zip args) m).env.get? x = some v := by
    rw [← map_fst_zip_take] at hx
    exact (Variables.getElem?_bindAll_of_not_mem hx m.env.vars).trans hv
  have hread : variableValue ctx x (EvalM.bound (params.zip args) m) =
      (.ok (some v), EvalM.bound (params.zip args) m) := by
    unfold variableValue
    rw [EvalM.get_bind_run, hbound]
    rfl
  have hbody : runBody ctx (fuel + 1) [.var x] (EvalM.bound (params.zip args) m) =
      (.ok (some v), EvalM.bound (params.zip args) m) := by
    unfold runBody evalSequence evalExpr
    rw [EvalM.bind_of_ok hread]
    rfl
  rw [callFunction_run (runBody ctx (fuel + 1)) hentry rfl]
  dsimp only
  rw [hbody]
  rfl

/-- Which calls are independent of what their caller holds under the names of the parameters. For every
function with the given parameters, and all callers that agree on everything but the variables with these
names, a call with the given arguments returns the same value or error, exactly if every one of the names
is among the parameters that received an argument. -/
theorem parameters_hidden_iff (host : σ) (params : List String) (args : List Value) :
    (∀ (fuel : Nat) (m m' : Machine σ) (name : String) (entry : FunctionEntry),
      m.env.functions[name]? = some entry → entry.params = params → m.AgreesOutside params m' →
      (callFunction (runBody ctx fuel) name args m).1 =
        (callFunction (runBody ctx fuel) name args m').1) ↔
      ∀ x ∈ params, x ∈ params.take args.length := by
  constructor
  · intro hidden x hx
    by_contra hnot
    let caller (b : Bool) : Machine σ :=
      { env := { vars := (∅ : Variables).insert x (.boolean b),
                 functions := (∅ : FunctionTable).insert "f" ⟨params, some [.var x]⟩ },
        world := { host } }
    have hentry (b : Bool) : (caller b).env.functions["f"]? = some ⟨params, some [.var x]⟩ :=
      Std.ExtTreeMap.getElem?_insert_self
    have hvalue (b : Bool) : (caller b).env.get? x = some (.boolean b) :=
      Std.ExtTreeMap.getElem?_insert_self
    have hagrees : (caller true).AgreesOutside params (caller false) := by
      refine ⟨fun y hy => ?_, rfl, rfl, rfl⟩
      have hne : x ≠ y := by
        rintro rfl
        exact hy hx
      simp [caller, Environment.get?, hne]
    have hsame := hidden 1 (caller true) (caller false) "f" _ (hentry true) rfl hagrees
    rw [callFunction_reads_caller ctx 0 (hentry true) hnot (hvalue true),
      callFunction_reads_caller ctx 0 (hentry false) hnot (hvalue false)] at hsame
    cases hsame
  · rintro hall fuel m m' name entry hentry rfl hagrees
    refine callFunction_hides hentry ⟨fun x hx => ?_, hagrees.functions, hagrees.predicates, hagrees.world⟩
    exact hagrees.vars x fun hmem => hx (hall x hmem)

end

/-- A function that is called without an argument for its parameter returns the variable of the caller
that has the name of the parameter. -/
theorem missing_argument_reads_caller :
    (evaluateOnce 2 () "let a = \"outer\"; function f(a) { return a; } f();").toOption =
      some (.text "outer") := by
  decide +kernel

end HostScript
