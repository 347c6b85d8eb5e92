import HostScript.Proofs.Evaluation.Coupling

/-!
# Evaluation with more bodies attached

Two runs of the same code are compared whose machines differ only in the functions: the second machine
may have bodies attached where the first has none. As long as the first run neither calls a function
without a body nor uses up its fuel, the second run gives the same result and changes variables,
predicates and the host in the same way. The second run may also have more fuel, so the fuel of a run
that ended does not matter.
-/
namespace HostScript

/-- The same function, with a body on the right wherever there is one on the left. -/
structure FunctionEntry.Below (a b : FunctionEntry) : Prop where
  params : a.params = b.params
  body : ∀ body, a.body = some body → b.body = some body

/-- The same functions, with bodies on the right wherever there are some on the left. -/
def FunctionTable.Below (T U : FunctionTable) : Prop :=
  ∀ name : String, Option.Rel FunctionEntry.Below T[name]? U[name]?

/-- Machines that differ in the events reported so far, and in that the one on the right may have more
bodies attached. -/
structure Machine.Below {σ : Type} (m n : Machine σ) : Prop where
  vars : m.env.vars = n.env.vars
  predicates : m.env.predicates = n.env.predicates
  functions : m.env.functions.Below n.env.functions
  host : m.world.host = n.world.host

/-- The second evaluation, started with more bodies, does what the first one does whenever that comes to
a conclusive result. -/
def EvalM.Simulates {σ α : Type} (c d : EvalM σ α) : Prop :=
  ∀ ⦃m n : Machine σ⦄, m.Below n → Conclusive (c m).1 → (d n).1 = (c m).1 ∧ (c m).2.Below (d n).2

theorem FunctionEntry.Below.refl (a : FunctionEntry) : a.Below a := ⟨rfl, fun _ h => h⟩

section

variable {σ : Type} [Host σ]

/-- The coupling of a run with one of the same code that may have more fuel and more bodies. -/
def Coupling.extending : Coupling σ where
  recast := id
  strict := False
  run_recast ctx callBody limit body := by rw [Expr.mapBodiesAll_id, id]

theorem Coupling.extending_entries :
    (Coupling.extending : Coupling σ).Entries = FunctionEntry.Below := by
  funext a b
  exact propext ⟨fun h => ⟨h.params, h.body⟩, fun h => ⟨h.params, h.body, nofun⟩⟩

theorem Coupling.extending_related {m n : Machine σ} : Coupling.extending.Related m n ↔ m.Below n := by
  have hentries := Coupling.extending_entries (σ := σ)
  constructor
  · intro h
    have hfunctions := h.functions
    rw [hentries] at hfunctions
    exact ⟨h.vars, h.predicates, hfunctions, h.host⟩
  · intro h
    refine ⟨h.vars, h.predicates, ?_, h.host, nofun⟩
    rw [hentries]
    exact h.functions

/-- A script that comes to a conclusive result does so with any more bodies and any more fuel. -/
theorem evalAll_simulates (ctx : Context σ) {fuel more : Nat} (hle : fuel ≤ more) (es : List Expr) :
    EvalM.Simulates (evalAll ctx fuel es) (evalAll ctx more es) := by
  intro m n hmn hconclusive
  obtain ⟨hresult, hrelated⟩ :=
    evalAll_coupled ctx hle False.elim es (Coupling.extending_related.mpr hmn) (.inr hconclusive)
  exact ⟨hresult, Coupling.extending_related.mp hrelated⟩

end

end HostScript
