import HostScript.Proofs.Evaluation.Effect
import HostScript.Session

/-!
# Static expressions

A static expression reads no query and calls no function, at any depth. Its evaluation is the same
computation whatever the queries and the built-ins are, and it reports no event. So a static program runs
in the same way for all queries.
-/
namespace HostScript

namespace Expr

theorem allStatic_iff {es : List Expr} : allStatic es ↔ ∀ e ∈ es, e.isStatic := by
  induction es with
  | nil => simp [allStatic]
  | cons e es ih => simp [allStatic, ih]

theorem isStatic_of_part {p e : Expr} (h : e.isStatic) (hp : p ∈ e.parts) : p.isStatic := by
  cases e with
  | literal | query | var | namespaceName | usingName | importName => cases hp
  | call => cases h
  | define name body | block body => exact allStatic_iff.mp h p hp
  | letBinding name value | assign name value | compound name op value | returns value
  | access value member =>
    obtain rfl := List.mem_singleton.mp hp
    exact h
  | binary op left right | write left member right =>
    simp only [isStatic, Bool.and_eq_true] at h
    simp only [parts, List.mem_cons, List.not_mem_nil, or_false] at hp
    rcases hp with rfl | rfl
    · exact h.1
    · exact h.2
  | ternary condition yes no =>
    simp only [isStatic, Bool.and_eq_true] at h
    simp only [parts, List.mem_cons, List.not_mem_nil, or_false] at hp
    rcases hp with rfl | rfl | rfl
    · exact h.1.1
    · exact h.1.2
    · exact h.2
  | forLoop init condition step body =>
    simp only [isStatic, Bool.and_eq_true] at h
    simp only [parts, List.mem_cons] at hp
    rcases hp with rfl | rfl | rfl | hp
    · exact h.1.1.1
    · exact h.1.1.2
    · exact h.1.2
    · exact allStatic_iff.mp h.2 p hp
  | whileLoop condition body =>
    simp only [isStatic, Bool.and_eq_true] at h
    simp only [parts, List.mem_cons] at hp
    rcases hp with rfl | hp
    · exact h.1
    · exact allStatic_iff.mp h.2 p hp

/-- Everything inside a static expression is static. -/
theorem isStatic_of_mem_nodes {n e : Expr} (h : e.isStatic) (hn : n ∈ e.nodes) : n.isStatic := by
  induction e using Expr.induction with
  | step e ih =>
    rw [nodes_eq, List.mem_cons] at hn
    rcases hn with rfl | hn
    · exact h
    · obtain ⟨p, hp, hnp⟩ := mem_nodesAll.mp hn
      exact ih p hp (isStatic_of_part h hp) hnp

end Expr

section

/-! Evaluations in two contexts that have the same imports. -/

variable {σ : Type} {ctx ctx' : Context σ} (himports : ctx.inputs.imports = ctx'.inputs.imports)

include himports

theorem variableValue_eq (name : String) : variableValue ctx name = variableValue ctx' name := by
  unfold variableValue
  rw [himports]

theorem compound_eq (name : String) (op : Operator) (value : EvalM σ (Option Value)) :
    compound ctx name op value = compound ctx' name op value := by
  unfold compound
  rw [variableValue_eq himports]

theorem importValue_eq (name : String) : importValue ctx name = importValue ctx' name := by
  unfold importValue
  rw [himports]

variable [Host σ] {callBody callBody' : List Expr → EvalM σ (Option Value)} {limit : Nat}

omit himports in
theorem evalSequence_eq {es : List Expr}
    (h : ∀ e ∈ es, evalExpr ctx callBody limit e = evalExpr ctx' callBody' limit e)
    (last : Option Value) :
    evalSequence ctx callBody limit last es = evalSequence ctx' callBody' limit last es := by
  induction es generalizing last with
  | nil => rfl
  | cons e es ih =>
    have hrest := ih fun f hf => h f (List.mem_cons_of_mem e hf)
    simp only [evalSequence, h e List.mem_cons_self, hrest]

omit himports in
theorem evalIsolated_eq {es : List Expr}
    (h : ∀ e ∈ es, evalExpr ctx callBody limit e = evalExpr ctx' callBody' limit e) :
    evalIsolated ctx callBody limit es = evalIsolated ctx' callBody' limit es := by
  induction es with
  | nil => rfl
  | cons e es ih =>
    have hrest := ih fun f hf => h f (List.mem_cons_of_mem e hf)
    simp only [evalIsolated, h e List.mem_cons_self, hrest]

/-- A static expression is the same computation in both contexts, and makes no use of the way in which
bodies are called. -/
theorem evalExpr_eq_of_isStatic {e : Expr} (h : e.isStatic) :
    evalExpr ctx callBody limit e = evalExpr ctx' callBody' limit e := by
  induction e using Expr.induction with
  | step e parts_eq =>
    have ih (p : Expr) (hp : p ∈ e.parts) :
        evalExpr ctx callBody limit p = evalExpr ctx' callBody' limit p :=
      parts_eq p hp (Expr.isStatic_of_part h hp)
    cases e with
    | query | call => cases h
    | literal | define | namespaceName | usingName => simp only [evalExpr]
    | var name => exact variableValue_eq himports name
    | importName name type => simp only [evalExpr, importValue_eq himports]
    | binary op left right =>
      simp only [evalExpr, ih left (by simp [Expr.parts]), ih right (by simp [Expr.parts])]
    | ternary condition yes no =>
      simp only [evalExpr, ih condition (by simp [Expr.parts]), ih yes (by simp [Expr.parts]),
        ih no (by simp [Expr.parts])]
    | forLoop init condition step body =>
      have hbody (e : Expr) (he : e ∈ body) := ih e (by simp [Expr.parts, he])
      simp only [evalExpr, ih init (by simp [Expr.parts]), ih condition (by simp [Expr.parts]),
        ih step (by simp [Expr.parts]), evalIsolated_eq hbody]
    | whileLoop condition body =>
      have hbody (e : Expr) (he : e ∈ body) := ih e (by simp [Expr.parts, he])
      simp only [evalExpr, ih condition (by simp [Expr.parts]), evalIsolated_eq hbody]
    | block body =>
      simp only [evalExpr]
      exact evalSequence_eq ih none
    | compound name op value =>
      simp only [evalExpr, ih value (by simp [Expr.parts]), compound_eq himports]
    | letBinding name value | assign name value | returns value | access value member =>
      simp only [evalExpr, ih value (by simp [Expr.parts])]
    | write target member value =>
      simp only [evalExpr, ih target (by simp [Expr.parts]), ih value (by simp [Expr.parts])]

theorem eval_eq_of_isStatic (fuel : Nat) {e : Expr} (h : e.isStatic) :
    eval ctx fuel e = eval ctx' fuel e :=
  evalExpr_eq_of_isStatic himports h

theorem evalAll_eq_of_allStatic (fuel : Nat) {es : List Expr} (h : Expr.allStatic es) :
    evalAll ctx fuel es = evalAll ctx' fuel es :=
  evalSequence_eq (fun e he => evalExpr_eq_of_isStatic himports (Expr.allStatic_iff.mp h e he)) none

end

section

variable {σ : Type}

def Effect.silent (ctx : Context σ) : Effect ctx where
  code e := e.isStatic
  ends m _ m' := m'.world.events = m.world.events
  refl _ := rfl
  trans hfirst hsecond := hsecond.trans hfirst
  stop _ _ _ := rfl
  missing _ _ _ _ _ _ := rfl
  builtin _ _ _ _ _ hcode _ := nomatch hcode
  call _ _ _ _ _ _ _ _ hcode _ _ _ := nomatch hcode
  merge _ _ hends := hends
  abandon _ _ _ hends := hends
  bind _ _ _ _ _ _ := rfl
  attach _ _ _ _ := rfl
  predicate _ _ := rfl
  query _ _ hcode := nomatch hcode
  host _ _ := rfl

theorem events_eval_of_isStatic [Host σ] (ctx : Context σ) (fuel : Nat) {e : Expr} (h : e.isStatic)
    (m : Machine σ) : (eval ctx fuel e m).2.world.events = m.world.events := by
  have hgoverns : (Effect.silent ctx).Governs (eval ctx fuel e) :=
    eval_governed fuel fun _ hn => Expr.isStatic_of_mem_nodes h hn
  exact hgoverns m

/-- Static expressions depend neither on the queries nor on the built-ins. In two contexts that have the
same imports, a static expression comes to the same result or error and leaves the same machine, with
the events that were reported before and no further one. A static program therefore runs in the same way
whatever the queries are. -/
theorem static_independent [Host σ] :
    (∀ (ctx ctx' : Context σ) (fuel : Nat) (e : Expr) (m : Machine σ),
      ctx.inputs.imports = ctx'.inputs.imports → e.isStatic →
        eval ctx fuel e m = eval ctx' fuel e m ∧
          (eval ctx fuel e m).2.world.events = m.world.events) ∧
    ∀ (fuel : Nat) (source : String) (p : Program) (inputs inputs' : Inputs) (env : Environment)
      (s : Session σ), inputs.imports = inputs'.imports → p.isStatic →
        Session.run fuel source p inputs env s = Session.run fuel source p inputs' env s := by
  refine ⟨fun ctx ctx' fuel e m himports h => ?_, fun fuel source p inputs inputs' env s himports h => ?_⟩
  · rw [eval_eq_of_isStatic himports fuel h]
    exact ⟨rfl, events_eval_of_isStatic ctx' fuel h m⟩
  · have hrun : evalAll (σ := σ) ⟨s.builtins, inputs⟩ fuel p.expressions =
        evalAll ⟨s.builtins, inputs'⟩ fuel p.expressions := evalAll_eq_of_allStatic himports fuel h
    simp only [Session.run, hrun]

/-- A loop that ends by changing an imported variable. It calls nothing, so it makes no difference that
one of the contexts supplies a query and the other one the standard built-ins. -/
theorem static_independent_loop :
    let imports : Std.ExtTreeMap String Import :=
      (∅ : Std.ExtTreeMap String Import).insert "on" (.serialized .bool "true")
    let inputs : Inputs := ⟨(∅ : Std.ExtTreeMap String Value).insert "time" (.boolean true), imports⟩
    let loop : Expr :=
      .whileLoop (.var "on") [.define "f" [.var "on"], .assign "on" (.literal (.boolean false))]
    let p : Program := ⟨[.importName "on" "bool", loop], ∅, ["on-bool"], [], 1⟩
    let m : Machine Unit := ⟨{ vars := (∅ : Variables).insert "on" (.boolean true) }, { host := () }⟩
    let s : Session Unit := Session.start Registry.standard ()
    loop.isStatic ∧ eval ⟨∅, inputs⟩ 3 loop m = eval ⟨Registry.standard, ⟨∅, imports⟩⟩ 3 loop m ∧
      p.isStatic ∧ Session.run 3 "" p inputs p.environment s =
        Session.run 3 "" p ⟨∅, imports⟩ p.environment s := by
  intro imports inputs loop p m s
  have hloop : loop.isStatic := by decide
  have hp : p.isStatic := by decide
  obtain ⟨hexpr, hprogram⟩ := static_independent (σ := Unit)
  have heval := hexpr ⟨∅, inputs⟩ ⟨Registry.standard, ⟨∅, imports⟩⟩ 3 loop m rfl hloop
  exact ⟨hloop, heval.1, hp, hprogram 3 "" p inputs ⟨∅, imports⟩ p.environment s rfl hp⟩

end

end HostScript
