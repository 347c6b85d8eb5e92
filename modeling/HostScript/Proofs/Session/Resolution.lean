import HostScript.Proofs.Session.History

/-!
# Calls resolve

In a session with any history, a run of a script fails because of an undefined function only if a
built-in answers so. The names of all calls were settled when the script was compiled, and evaluation
does not remove functions.
-/
namespace HostScript

variable {σ : Type}

/-- The contract that a function stays in the table. -/
def Contract.hasFunction (ctx : Context σ) (name : String) : Contract ctx where
  code _ := True
  table T := name ∈ T
  stops _ _ := True
  attach _ _ _ hT _ := Std.ExtTreeMap.mem_insert.mpr (.inr hT)
  body _ _ _ _ _ _ _ _ _ := trivial
  missing _ _ _ _ _ _ _ _ := trivial
  builtin _ _ _ _ _ _ _ _ := trivial
  other _ _ _ := trivial

/-- Evaluation does not remove a function, whatever the code and the machine. -/
theorem eval_keeps_function [Host σ] (ctx : Context σ) (fuel : Nat) (e : Expr) (m : Machine σ)
    {name : String} (hname : name ∈ m.env.functions) :
    name ∈ (eval ctx fuel e m).2.env.functions := by
  have hkeeps : (Contract.hasFunction ctx name).Keeps (eval ctx fuel e) :=
    eval_keeps fuel fun _ _ => trivial
  exact (hkeeps m hname).1

namespace Session

theorem Consistent.evaluate_denies [Host σ] {s t : Session σ} (hs : s.Consistent) {fuel : Nat} {source : String}
    {inputs : Inputs} {options : Options} {name : String}
    (h : Session.evaluate fuel source inputs options s =
      (.error (.runtime (.undefinedReference .function name)), t)) :
    s.builtins.Denies name t.world := by
  obtain ⟨u, halike, _, hdelivers⟩ := (obtain_obtains source options _).delivers hs
  rw [Session.evaluate] at h
  unfold Delivers at hdelivers
  cases hparsed : parseSource s.builtins.names source with
  | error e =>
    rw [hparsed] at hdelivers
    rw [bind_of_error hdelivers] at h
    cases h
  | ok parsed =>
    rw [hparsed] at hdelivers
    obtain ⟨p, hp, hexpressions, hgrows, _⟩ := hdelivers
    rw [← halike.builtins] at hparsed ⊢
    rcases hrun : evalAll { builtins := u.builtins, inputs } fuel p.expressions
      { env := p.environment, world := u.world } with ⟨r, m⟩
    rw [bind_of_ok hp, runFor_eq hrun, Prod.mk.injEq] at h
    obtain ⟨hr, rfl⟩ := h
    have hdenies := (run_keeps hparsed hexpressions hgrows hrun).2 name
    cases r with
    | ok v => cases hr
    | error stop =>
      cases stop with
      | outOfFuel => cases hr
      | failed error =>
        cases hr
        rw [afterRun_world]
        exact hdenies rfl

end Session

/-- What it means for a session that calls resolve. -/
structure Session.CallsResolve [Host σ] (s : Session σ) : Prop where
  /-- An evaluation that fails because of an undefined function ends with the answer of a built-in. -/
  evaluate : ∀ fuel source inputs options name t,
    Session.evaluate fuel source inputs options s =
      (.error (.runtime (.undefinedReference .function name)), t) →
    s.builtins.Denies name t.world
  /-- Every call in a program that compiles, at any depth and in any body, names a registered built-in or
  a function of the program. -/
  compiled : ∀ source debug p t,
    Session.compile source debug s = (.ok p, t) ∨ Session.getOrCompile source debug s = (.ok p, t) →
    ∀ name arguments, .call name arguments ∈ Expr.nodesAll p.expressions →
      name ∈ s.builtins ∨ name ∈ p.functions

/-- Calls resolve in a session with any history of requests, and no evaluation removes a function. -/
theorem calls_resolve [Host σ] (builtins : Registry σ) (host : σ) (history : List (Request σ)) :
    ((Session.start builtins host).after history).CallsResolve ∧
      ∀ ctx fuel e (m : Machine σ) name, name ∈ m.env.functions →
        name ∈ (eval ctx fuel e m).2.env.functions := by
  have hs := Session.after_consistent builtins host history
  refine ⟨⟨fun _ _ _ _ _ _ h => hs.evaluate_denies h, fun source debug p t h name arguments hcall => ?_⟩,
    fun ctx fuel e m name => eval_keeps_function ctx fuel e m⟩
  rcases h with h | h
  · obtain ⟨_, _, _, hdelivers⟩ := (Session.compile_obtains source debug _).delivers hs
    exact hdelivers.calls h hcall
  · obtain ⟨_, _, _, hdelivers⟩ := (Session.getOrCompile_obtains source debug _).delivers hs
    exact hdelivers.calls h hcall

end HostScript
