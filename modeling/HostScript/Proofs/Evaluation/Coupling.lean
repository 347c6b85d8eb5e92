import HostScript.Proofs.Evaluation.Basic
import HostScript.Proofs.Expr.Bodies

/-!
# Two runs side by side

Two runs of nearly the same code are compared. A `Coupling` says in what they may differ: the second run
has other code for the bodies of functions, and unless the coupling is strict it may also have more fuel
and bodies that the first run lacks. Where the first run comes to a result that the second has to share,
the second comes to the same result and leaves a machine that is related in the same way. This is proved
once, one rule for each thing that a step can do.
-/
namespace HostScript

/-- Whether a run would have stopped in the same way with more fuel and more bodies. -/
def Stop.conclusive : Stop → Bool
  | .failed (.undefinedReference .functionBody _) => false
  | .failed _ => true
  | .outOfFuel => false

/-- A result that more fuel and more bodies would not have changed. -/
def Conclusive {α : Type} (r : Except Stop α) : Prop := ∀ stop, r = .error stop → stop.conclusive

/-- In what two runs may differ. The second one has the code `recast body` for `body`, which runs like that
body with the bodies in it recast. If the coupling is strict, the second run has no more fuel than the first
and no more bodies, and the same events. -/
structure Coupling (σ : Type) [Host σ] where
  recast : List Expr → List Expr
  strict : Prop
  run_recast : ∀ (ctx : Context σ) (callBody : List Expr → EvalM σ (Option Value)) (limit : Nat)
    (body : List Expr), evalSequence ctx callBody limit none (recast body) =
      evalSequence ctx callBody limit none (Expr.mapBodiesAll recast body)

namespace Coupling

variable {σ α β : Type} [Host σ] {K : Coupling σ}

/-- The same function, with recast code on the right. -/
structure Entries (K : Coupling σ) (a b : FunctionEntry) : Prop where
  params : a.params = b.params
  body : ∀ body, a.body = some body → b.body = some (K.recast body)
  missing : K.strict → a.body = none → b.body = none

/-- Machines in the same state, apart from the code of functions. -/
structure Related (K : Coupling σ) (m n : Machine σ) : Prop where
  vars : m.env.vars = n.env.vars
  predicates : m.env.predicates = n.env.predicates
  functions : ∀ name : String, Option.Rel K.Entries m.env.functions[name]? n.env.functions[name]?
  host : m.world.host = n.world.host
  events : K.strict → m.world.events = n.world.events

/-- Whether the second run has to share a result of the first. -/
def Heeds (K : Coupling σ) (r : Except Stop α) : Prop := K.strict ∨ Conclusive r

/-- The second evaluation does what the first one does, as far as it has to. -/
def Couples (K : Coupling σ) (c d : EvalM σ α) : Prop :=
  ∀ ⦃m n : Machine σ⦄, K.Related m n → K.Heeds (c m).1 → (d n).1 = (c m).1 ∧ K.Related (c m).2 (d n).2

theorem Heeds.error {stop : Stop} (h : K.Heeds (.error stop : Except Stop α)) :
    K.Heeds (.error stop : Except Stop β) := by
  refine h.imp_right fun hconclusive s hs => ?_
  cases hs
  exact hconclusive stop rfl

/-- Worlds in the same state go through a step of the host in the same way. -/
theorem Related.host_step {m n : Machine σ} (h : K.Related m n) {c : HostM σ α} (hc : c.Blind) :
    (c m.world).1 = (c n.world).1 ∧ (c m.world).2.host = (c n.world).2.host ∧
      (K.strict → (c m.world).2.events = (c n.world).2.events) := by
  obtain ⟨hr, hh⟩ := hc m.world n.world h.host
  refine ⟨hr, hh, fun hstrict => ?_⟩
  have hworld : m.world = n.world := by
    cases hm : m.world
    cases hn : n.world
    have hhost := h.host
    have hevents := h.events hstrict
    rw [hm, hn] at hhost hevents
    exact World.mk.injEq .. ▸ ⟨hhost, hevents⟩
  rw [hworld]

theorem Related.attach {m n : Machine σ} (h : K.Related m n) (name : String) (body : List Expr) :
    K.Related { m with env := m.env.attach name body }
      { n with env := n.env.attach name (K.recast body) } := by
  refine { h with functions := fun other => ?_ }
  simp only [Environment.attach, Std.ExtTreeMap.getElem?_insert, Std.ExtTreeMap.getD_eq_getD_getElem?]
  split
  · have recast {params params' : List String} (hparams : params = params') :
        K.Entries { params, body := some body } { params := params', body := some (K.recast body) } :=
      ⟨hparams, fun _ hbody => by cases hbody; rfl, nofun⟩
    have hname := h.functions name
    revert hname
    cases m.env.functions[name]? <;> cases n.env.functions[name]? <;> intro hname
    · exact .some (recast rfl)
    · cases hname
    · cases hname
    · obtain ⟨hab⟩ := hname
      exact .some (recast hab.params)
  · exact h.functions other

theorem Related.addPredicate {m n : Machine σ} (h : K.Related m n) (predicate : String) :
    K.Related { m with env := m.env.addPredicate predicate }
      { n with env := n.env.addPredicate predicate } := by
  unfold Environment.addPredicate
  rw [h.predicates]
  split
  · exact h
  · exact { h with predicates := rfl }

theorem Related.set {m n : Machine σ} (h : K.Related m n) (name : String) (v : Value) :
    K.Related { m with env := m.env.set name v } { n with env := n.env.set name v } :=
  { h with vars := by simp only [Environment.set, h.vars] }

namespace Couples

theorem pure (a : α) : K.Couples (Pure.pure a) (Pure.pure a) := fun _ _ h _ => ⟨rfl, h⟩

theorem fail (error : RuntimeError) : K.Couples (EvalM.fail error : EvalM σ α) (EvalM.fail error) :=
  fun _ _ h _ => ⟨rfl, h⟩

theorem ofExcept (r : Except RuntimeError α) : K.Couples (EvalM.ofExcept r) (EvalM.ofExcept r) := by
  cases r with
  | ok a => exact Couples.pure a
  | error e => exact Couples.fail e

/-- A run that stops for lack of fuel or of a body asks nothing of the other one, unless that stops for
the same reason. -/
theorem throw_of_not_conclusive {stop : Stop} {d : EvalM σ α} (hstop : stop.conclusive = false)
    (hd : K.strict → d = throw stop) : K.Couples (throw stop) d := by
  intro m n h hheeds
  rcases hheeds with hstrict | hconclusive
  · rw [hd hstrict]
    exact ⟨rfl, h⟩
  · have := hconclusive stop rfl
    rw [hstop] at this
    cases this

theorem bind {c d : EvalM σ α} {f g : α → EvalM σ β} (hc : K.Couples c d)
    (hf : ∀ a, K.Couples (f a) (g a)) : K.Couples (c >>= f) (d >>= g) := by
  intro m n hmn hr
  rcases hcm : c m with ⟨r, m'⟩
  rcases hdn : d n with ⟨r', n'⟩
  cases r with
  | error stop =>
    rw [EvalM.bind_of_error hcm] at hr ⊢
    obtain ⟨heq, hrelated⟩ := hc hmn (by rw [hcm]; exact hr.error)
    rw [hcm, hdn] at heq hrelated
    rw [EvalM.bind_of_error (hdn.trans (congrArg (·, n') heq))]
    exact ⟨rfl, hrelated⟩
  | ok a =>
    rw [EvalM.bind_of_ok hcm] at hr ⊢
    obtain ⟨heq, hrelated⟩ := hc hmn (.inr fun stop hs => by rw [hcm] at hs; cases hs)
    rw [hcm, hdn] at heq hrelated
    rw [EvalM.bind_of_ok (hdn.trans (congrArg (·, n') heq))]
    exact hf a hrelated hr

theorem map (f : α → β) {c d : EvalM σ α} (hc : K.Couples c d) : K.Couples (f <$> c) (f <$> d) :=
  hc.bind fun a => .pure (f a)

/-- Reading the machine: what follows may use it as far as related machines agree. -/
theorem get_bind {f g : Machine σ → EvalM σ β} (h : ∀ m n, K.Related m n → K.Couples (f m) (g n)) :
    K.Couples (get >>= f) (get >>= g) :=
  fun m n hmn hr => h m n hmn hmn hr

theorem modifyEnv {f g : Environment → Environment}
    (h : ∀ m n, K.Related m n → K.Related { m with env := f m.env } { n with env := g n.env }) :
    K.Couples (EvalM.modifyEnv f) (EvalM.modifyEnv g) :=
  fun m n hmn _ => ⟨rfl, h m n hmn⟩

theorem log (e : Event) : K.Couples (EvalM.log e) (EvalM.log e) :=
  fun _ _ hmn _ => ⟨rfl, { hmn with events := fun h => congrArg (·.push e) (hmn.events h) }⟩

theorem ofHost {c : HostM σ α} (hc : c.Blind) : K.Couples (EvalM.ofHost c) (EvalM.ofHost c) := by
  intro m n hmn _
  obtain ⟨hr, hh, he⟩ := hmn.host_step hc
  unfold EvalM.ofHost
  rcases hm : c m.world with ⟨r, w⟩
  rcases hn : c n.world with ⟨r', w'⟩
  rw [hm, hn] at hr hh he
  cases hr
  cases r with
  | ok a => exact ⟨rfl, { hmn with host := hh, events := he }⟩
  | error e => exact ⟨rfl, { hmn with host := hh, events := he }⟩

theorem isolate {c d : EvalM σ α} (hc : K.Couples c d) :
    K.Couples (EvalM.isolate c) (EvalM.isolate d) := by
  intro m n hmn hr
  rcases hcm : c m with ⟨r, m'⟩
  rcases hdn : d n with ⟨r', n'⟩
  cases r with
  | ok a =>
    obtain ⟨heq, hrelated⟩ := hc hmn (.inr fun stop hs => by rw [hcm] at hs; cases hs)
    rw [hcm, hdn] at heq hrelated
    cases heq
    rw [EvalM.isolate_of_ok hcm, EvalM.isolate_of_ok hdn]
    refine ⟨rfl, { hrelated with vars := ?_, predicates := hmn.predicates }⟩
    have hvars : m'.env.vars = n'.env.vars := hrelated.vars
    simp only [Environment.withFunctions, Environment.mergeExisting, hmn.vars, hvars]
  | error stop =>
    rw [EvalM.isolate_of_error hcm] at hr ⊢
    obtain ⟨heq, hrelated⟩ := hc hmn (by rw [hcm]; exact hr.error)
    rw [hcm, hdn] at heq hrelated
    cases heq
    rw [EvalM.isolate_of_error hdn]
    exact ⟨rfl, { hrelated with vars := hmn.vars, predicates := hmn.predicates }⟩

theorem withBindings (bindings : List (String × Value)) {c d : EvalM σ α} (hc : K.Couples c d) :
    K.Couples (EvalM.withBindings bindings c) (EvalM.withBindings bindings d) := by
  intro m n hmn hr
  have hstart : K.Related (EvalM.bound bindings m) (EvalM.bound bindings n) :=
    { hmn with vars := by simp only [EvalM.bound, hmn.vars] }
  rw [EvalM.withBindings_run] at hr
  obtain ⟨heq, hrelated⟩ := hc hstart hr
  rw [EvalM.withBindings_run, EvalM.withBindings_run]
  refine ⟨heq, { hrelated with vars := ?_ }⟩
  simp only [hmn.vars, hrelated.vars]

end Couples

end Coupling

section

variable {σ : Type} [Host σ] {K : Coupling σ} {part part' : EvalM σ (Option Value)}

open Coupling

theorem require_coupled (place : Operand) (h : K.Couples part part') :
    K.Couples (require place part) (require place part') :=
  h.bind fun v => by
    cases v with
    | some v => exact .pure v
    | none => exact .fail _

theorem variableValue_coupled (ctx : Context σ) (name : String) :
    K.Couples (variableValue ctx name) (variableValue ctx name) := by
  refine .get_bind fun m n hmn => ?_
  have hget : m.env.get? name = n.env.get? name := by
    simp only [Environment.get?, hmn.vars]
  rw [hget]
  cases n.env.get? name with
  | some v => exact .pure _
  | none =>
    dsimp only
    cases ctx.inputs.imports[name]? with
    | some i => exact (Couples.ofExcept _).map _
    | none => exact .pure _

theorem queryValue_coupled (ctx : Context σ) (name : String) :
    K.Couples (queryValue ctx name) (queryValue ctx name) := by
  unfold queryValue
  cases ctx.inputs.queries[name]? with
  | some v => exact .pure v
  | none => exact (Couples.log _).bind fun _ => .pure _

theorem ternaryHolds_coupled (h : K.Couples part part') :
    K.Couples (ternaryHolds part) (ternaryHolds part') := by
  refine (require_coupled _ h).bind fun v => ?_
  cases truthOf? v with
  | some b => exact .pure b
  | none =>
    refine .get_bind fun m n hmn => ?_
    rw [hmn.host]
    exact .fail _

theorem forHolds_coupled (h : K.Couples part part') : K.Couples (forHolds part) (forHolds part') :=
  h.bind fun v => by
    cases v with
    | some v => exact .ofExcept _
    | none => exact .pure false

theorem whileHolds_coupled (h : K.Couples part part') :
    K.Couples (whileHolds part) (whileHolds part') :=
  h.bind fun v => by
    match v with
    | none => exact .pure _
    | some (.boolean b) => exact .pure _
    | some (.number x) => exact .pure _
    | some (.text _) => exact .fail _
    | some (.object _) => exact .fail _

theorem rounds_coupled {holds holds' : EvalM σ Bool} {round round' : EvalM σ Unit}
    (hh : K.Couples holds holds') (hr : K.Couples round round') {fuel more : Nat} (hle : fuel ≤ more)
    (heq : K.strict → fuel = more) :
    K.Couples (rounds holds round fuel) (rounds holds' round' more) := by
  induction fuel generalizing more with
  | zero =>
    refine .throw_of_not_conclusive rfl fun hstrict => ?_
    rw [← heq hstrict]
    rfl
  | succ fuel ih =>
    obtain ⟨more, rfl⟩ : ∃ k, more = k + 1 := ⟨more - 1, by omega⟩
    refine hh.bind fun b => ?_
    cases b with
    | true => exact hr.bind fun _ => ih (by omega) fun hstrict => by have := heq hstrict; omega
    | false => exact .pure ()

theorem binding_coupled (name : String) (h : K.Couples part part') :
    K.Couples (binding name part) (binding name part') :=
  (require_coupled _ h).bind fun v =>
    (Couples.modifyEnv fun _ _ hmn => hmn.set name v).bind fun _ => .pure v

theorem compound_coupled (ctx : Context σ) (name : String) (op : Operator) (h : K.Couples part part') :
    K.Couples (compound ctx name op part) (compound ctx name op part') := by
  refine (variableValue_coupled ctx name).bind fun current => ?_
  cases current with
  | none => exact .fail _
  | some current =>
    refine (require_coupled _ h).bind fun v => ?_
    dsimp only
    split
    · exact (Couples.modifyEnv fun _ _ hmn => hmn.set name _).bind fun _ => .pure _
    · exact .fail _

theorem importValue_coupled (ctx : Context σ) (name : String) :
    K.Couples (importValue ctx name) (importValue ctx name) := by
  unfold importValue
  cases ctx.inputs.imports[name]? with
  | none => exact .fail _
  | some i => exact (Couples.ofExcept _).bind fun v => .modifyEnv fun _ _ hmn => hmn.set name v

theorem callFunction_coupled {callBody callBody' : List Expr → EvalM σ (Option Value)}
    (hcall : ∀ body, K.Couples (callBody body) (callBody' (K.recast body))) (name : String)
    (args : List Value) :
    K.Couples (callFunction callBody name args) (callFunction callBody' name args) := by
  refine .get_bind fun m n hmn => ?_
  have hentry := hmn.functions name
  revert hentry
  cases m.env.functions[name]? <;> cases n.env.functions[name]? <;> intro hentry
  · exact .fail _
  · cases hentry
  · cases hentry
  · rename_i a b
    obtain ⟨hab⟩ := hentry
    cases ha : a.body with
    | none =>
      simp only [ha]
      refine .throw_of_not_conclusive rfl fun hstrict => ?_
      rw [hab.missing hstrict ha]
      rfl
    | some body =>
      simp only [ha, hab.body body ha, hab.params]
      exact (Couples.withBindings _ (hcall body)).map _

theorem callNamed_coupled (ctx : Context σ) {callBody callBody' : List Expr → EvalM σ (Option Value)}
    (hcall : ∀ body, K.Couples (callBody body) (callBody' (K.recast body))) (name : String)
    (args : List Value) :
    K.Couples (callNamed ctx callBody name args) (callNamed ctx callBody' name args) := by
  unfold callNamed
  cases ctx.builtins[name]? with
  | some b => exact .ofHost (b.call_blind name args)
  | none => exact callFunction_coupled hcall name args

theorem undefinedMember_coupled {α : Type} (id : ObjectId) (member : String) :
    K.Couples (undefinedMember id member : EvalM σ α) (undefinedMember id member) := by
  refine .get_bind fun m n hmn => ?_
  rw [hmn.host]
  exact .fail _

theorem readMember_coupled (member : String) (h : K.Couples part part') :
    K.Couples (readMember part member) (readMember part' member) := by
  refine (require_coupled _ h).bind fun v => (Couples.ofExcept _).bind fun id => ?_
  refine (Couples.ofHost (.onHost _)).bind fun field => ?_
  cases field with
  | some field => exact .pure field
  | none => exact undefinedMember_coupled id member

theorem writeMember_coupled {value value' : EvalM σ (Option Value)} (member : String)
    (h : K.Couples part part') (hv : K.Couples value value') :
    K.Couples (writeMember part member value) (writeMember part' member value') := by
  refine (require_coupled _ h).bind fun v => (Couples.ofExcept _).bind fun id => ?_
  refine (require_coupled _ hv).bind fun written => ?_
  refine (Couples.ofHost (.onHost _)).bind fun accepted => ?_
  cases accepted with
  | true => exact .pure written
  | false => exact undefinedMember_coupled id member

end

section

variable {σ : Type} [Host σ] {K : Coupling σ} {ctx : Context σ}
  {callBody callBody' : List Expr → EvalM σ (Option Value)} {limit limit' : Nat} {es : List Expr}

open Coupling

/-- What the coupling gives for each statement of a list, it gives for the list. -/
theorem evalSequence_coupled
    (h : ∀ e ∈ es, K.Couples (evalExpr ctx callBody limit e)
      (evalExpr ctx callBody' limit' (e.mapBodies K.recast)))
    (last : Option Value) :
    K.Couples (evalSequence ctx callBody limit last es)
      (evalSequence ctx callBody' limit' last (Expr.mapBodiesAll K.recast es)) := by
  induction es generalizing last with
  | nil => exact .pure last
  | cons e es ih =>
    rw [Expr.mapBodiesAll, evalSequence, evalSequence]
    exact (h e List.mem_cons_self).bind fun v =>
      ih (fun f hf => h f (List.mem_cons_of_mem e hf)) _

theorem evalArguments_coupled
    (h : ∀ e ∈ es, K.Couples (evalExpr ctx callBody limit e)
      (evalExpr ctx callBody' limit' (e.mapBodies K.recast))) :
    K.Couples (evalArguments ctx callBody limit es)
      (evalArguments ctx callBody' limit' (Expr.mapBodiesAll K.recast es)) := by
  induction es with
  | nil => exact .pure []
  | cons e es ih =>
    rw [Expr.mapBodiesAll, evalArguments, evalArguments]
    exact (require_coupled _ (h e List.mem_cons_self)).bind fun v =>
      (ih fun f hf => h f (List.mem_cons_of_mem e hf)).bind fun vs => .pure _

theorem evalIsolated_coupled
    (h : ∀ e ∈ es, K.Couples (evalExpr ctx callBody limit e)
      (evalExpr ctx callBody' limit' (e.mapBodies K.recast))) :
    K.Couples (evalIsolated ctx callBody limit es)
      (evalIsolated ctx callBody' limit' (Expr.mapBodiesAll K.recast es)) := by
  induction es with
  | nil => exact .pure ()
  | cons e es ih =>
    rw [Expr.mapBodiesAll, evalIsolated, evalIsolated]
    exact (Couples.isolate (h e List.mem_cons_self)).bind fun _ =>
      ih fun f hf => h f (List.mem_cons_of_mem e hf)

/-- The evaluator keeps the coupling if the calls of bodies do: one case for each construct. -/
theorem evalExpr_coupled (hcall : ∀ body, K.Couples (callBody body) (callBody' (K.recast body)))
    (hle : limit ≤ limit') (heq : K.strict → limit = limit') (e : Expr) :
    K.Couples (evalExpr ctx callBody limit e)
      (evalExpr ctx callBody' limit' (e.mapBodies K.recast)) := by
  induction e using Expr.induction with
  | step e ih =>
    cases e with
    | literal value => exact .pure _
    | query name => exact (queryValue_coupled ctx name).map _
    | var name => exact variableValue_coupled ctx name
    | binary op left right =>
      rw [Expr.mapBodies, evalExpr, evalExpr]
      have hleft := ih left (by simp [Expr.parts])
      have hright := ih right (by simp [Expr.parts])
      exact (require_coupled _ hleft).bind fun a => (require_coupled _ hright).bind fun b =>
        (Couples.ofHost (applyBinary_blind op a b)).map _
    | ternary condition yes no =>
      rw [Expr.mapBodies, evalExpr, evalExpr]
      have hcondition := ih condition (by simp [Expr.parts])
      refine (ternaryHolds_coupled hcondition).bind fun b => ?_
      cases b with
      | true => exact ih yes (by simp [Expr.parts])
      | false => exact ih no (by simp [Expr.parts])
    | call name arguments =>
      rw [Expr.mapBodies, evalExpr, evalExpr]
      exact (evalArguments_coupled ih).bind fun args =>
        (callNamed_coupled ctx hcall name args).map _
    | define name body =>
      rw [Expr.mapBodies, evalExpr, evalExpr]
      exact (Couples.modifyEnv fun _ _ hmn => hmn.attach name body).bind fun _ => .pure none
    | forLoop init condition step body =>
      rw [Expr.mapBodies, evalExpr, evalExpr]
      have hinit := ih init (by simp [Expr.parts])
      have hcondition := ih condition (by simp [Expr.parts])
      have hstep := ih step (by simp [Expr.parts])
      have hbody := evalIsolated_coupled fun e (he : e ∈ body) => ih e (by simp [Expr.parts, he])
      have hround := hbody.bind fun _ => hstep.bind fun _ => Couples.pure ()
      have hrounds := rounds_coupled (forHolds_coupled hcondition) hround hle heq
      exact hinit.bind fun _ => hrounds.bind fun _ => .pure none
    | whileLoop condition body =>
      rw [Expr.mapBodies, evalExpr, evalExpr]
      have hcondition := ih condition (by simp [Expr.parts])
      have hround := evalIsolated_coupled fun e he => ih e (List.mem_cons_of_mem _ he)
      have hrounds := rounds_coupled (whileHolds_coupled hcondition) hround hle heq
      exact hrounds.bind fun _ => .pure none
    | block body => exact evalSequence_coupled ih none
    | letBinding name value => exact (binding_coupled name (ih value (by simp [Expr.parts]))).map _
    | assign name value => exact (binding_coupled name (ih value (by simp [Expr.parts]))).map _
    | compound name op value =>
      exact (compound_coupled ctx name op (ih value (by simp [Expr.parts]))).map _
    | returns value => exact ih value (by simp [Expr.parts])
    | namespaceName name | usingName name =>
      rw [Expr.mapBodies, evalExpr, evalExpr]
      exact (Couples.modifyEnv fun _ _ hmn => hmn.addPredicate name).bind fun _ => .pure none
    | importName name type =>
      rw [Expr.mapBodies, evalExpr, evalExpr]
      exact (importValue_coupled ctx name).bind fun _ => .pure none
    | access target member => exact (readMember_coupled member (ih target (by simp [Expr.parts]))).map _
    | write target member value =>
      have htarget := ih target (by simp [Expr.parts])
      have hvalue := ih value (by simp [Expr.parts])
      exact (writeMember_coupled member htarget hvalue).map _

/-- Bodies run like their recast code. By induction on the fuel, which each call has one less of. -/
theorem runBody_coupled (ctx : Context σ) {fuel more : Nat} (hle : fuel ≤ more)
    (heq : K.strict → fuel = more) (body : List Expr) :
    K.Couples (runBody ctx fuel body) (runBody ctx more (K.recast body)) := by
  induction fuel generalizing more body with
  | zero =>
    refine .throw_of_not_conclusive rfl fun hstrict => ?_
    rw [← heq hstrict]
    rfl
  | succ fuel ih =>
    obtain ⟨more, rfl⟩ : ∃ k, more = k + 1 := ⟨more - 1, by omega⟩
    have hle' : fuel ≤ more := by omega
    have heq' (hstrict : K.strict) : fuel = more := by
      have := heq hstrict
      omega
    rw [runBody, runBody, K.run_recast]
    exact evalSequence_coupled (fun e _ => evalExpr_coupled (ih hle' heq') hle' heq' e) none

/-- A script runs like its recast code. -/
theorem evalAll_coupled (ctx : Context σ) {fuel more : Nat} (hle : fuel ≤ more)
    (heq : K.strict → fuel = more) (es : List Expr) :
    K.Couples (evalAll ctx fuel es) (evalAll ctx more (K.recast es)) := by
  unfold evalAll
  rw [K.run_recast]
  exact evalSequence_coupled
    (fun e _ => evalExpr_coupled (runBody_coupled ctx hle heq) hle heq e) none

end

end HostScript
