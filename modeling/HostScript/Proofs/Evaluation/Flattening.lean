import HostScript.Proofs.Evaluation.Coupling
import HostScript.Proofs.Session.History

/-!
# Blocks run in place

A bare block has no environment of its own. Its statements run as if they stood where the block stands,
also for the value of the last statement that has one. So dissolving the blocks of a program, in its
statements and in the bodies of its functions, changes nothing that a run of the program comes to, although
the bodies are attached while the program runs and are called later.
-/
namespace HostScript

section

variable {σ : Type} [Host σ] (ctx : Context σ) (callBody : List Expr → EvalM σ (Option Value)) (limit : Nat)

/-! ## A block among statements -/

theorem evalSequence_append (last : Option Value) (es fs : List Expr) :
    evalSequence ctx callBody limit last (es ++ fs) =
      evalSequence ctx callBody limit last es >>= fun v => evalSequence ctx callBody limit v fs := by
  induction es generalizing last with
  | nil => rw [List.nil_append, evalSequence, pure_bind]
  | cons e es ih =>
    rw [List.cons_append, evalSequence, evalSequence, bind_assoc]
    exact bind_congr fun v => ih _

/-- The value before the statements counts only if none of them has one. -/
theorem evalSequence_last (last : Option Value) (es : List Expr) :
    evalSequence ctx callBody limit last es =
      evalSequence ctx callBody limit none es >>= fun v => pure (v.or last) := by
  induction es generalizing last with
  | nil => rw [evalSequence, evalSequence, pure_bind, Option.none_or]
  | cons e es ih =>
    rw [evalSequence, evalSequence, bind_assoc]
    refine bind_congr fun v => ?_
    rw [ih (v.or last), ih (v.or none), bind_assoc]
    refine bind_congr fun w => ?_
    rw [pure_bind, Option.or_none, Option.or_assoc]

theorem evalSequence_block (last : Option Value) (body : List Expr) :
    evalSequence ctx callBody limit last [.block body] = evalSequence ctx callBody limit last body := by
  rw [evalSequence_last _ _ _ last body, evalSequence]
  rfl

theorem evalSequence_flattenStatements_of {es : List Expr}
    (h : ∀ e ∈ es, ∀ last, evalSequence ctx callBody limit last (Expr.flattenStatements [e]) =
      evalSequence ctx callBody limit last [e.mapBodies Expr.flattenStatements])
    (last : Option Value) :
    evalSequence ctx callBody limit last (Expr.flattenStatements es) =
      evalSequence ctx callBody limit last (Expr.mapBodiesAll Expr.flattenStatements es) := by
  induction es generalizing last with
  | nil => rfl
  | cons e es ih =>
    obtain ⟨he, hes⟩ := List.forall_mem_cons.mp h
    have hsplit : Expr.mapBodiesAll Expr.flattenStatements (e :: es) =
      [e.mapBodies Expr.flattenStatements] ++ Expr.mapBodiesAll Expr.flattenStatements es := rfl
    rw [Expr.flattenStatements_cons, hsplit, evalSequence_append, evalSequence_append, he last]
    exact bind_congr fun v => ih hes v

/-- A statement runs like what remains of it when blocks are dissolved. By induction on the statement, since
a block leaves what remains of its body. -/
theorem evalSequence_flatten (last : Option Value) (e : Expr) :
    evalSequence ctx callBody limit last (Expr.flattenStatements [e]) =
      evalSequence ctx callBody limit last [e.mapBodies Expr.flattenStatements] := by
  induction e using Expr.induction generalizing last with
  | step e ih =>
    cases hblock : e.isBlock with
    | true =>
      cases e with
      | block body =>
        have hbody : evalSequence ctx callBody limit last (Expr.flattenStatements body) =
            evalSequence ctx callBody limit last (Expr.mapBodiesAll Expr.flattenStatements body) :=
          evalSequence_flattenStatements_of ctx callBody limit ih last
        rw [Expr.mapBodies, evalSequence_block, ← hbody, Expr.flattenStatements, Expr.flattenStatements,
          List.append_nil]
      | _ => cases hblock
    | false => rw [Expr.flattenStatements_singleton hblock, Expr.flatten_eq_mapBodies]

theorem evalSequence_flattenStatements (last : Option Value) (es : List Expr) :
    evalSequence ctx callBody limit last (Expr.flattenStatements es) =
      evalSequence ctx callBody limit last (Expr.mapBodiesAll Expr.flattenStatements es) :=
  evalSequence_flattenStatements_of ctx callBody limit
    (fun e _ last => evalSequence_flatten ctx callBody limit last e) last

end

/-! ## Programs without blocks -/

def FunctionEntry.flatten (entry : FunctionEntry) : FunctionEntry :=
  { entry with body := entry.body.map Expr.flattenStatements }

def FunctionTable.flatten (T : FunctionTable) : FunctionTable := T.map fun _ entry => entry.flatten

def Environment.flatten (env : Environment) : Environment :=
  { env with functions := env.functions.flatten }

def Machine.flatten {σ : Type} (m : Machine σ) : Machine σ := { m with env := m.env.flatten }

/-- A program with the blocks dissolved in its statements and in the bodies of its functions. Its fresh
environment is the one of the program with the blocks dissolved. -/
def Program.flatten (p : Program) : Program :=
  { p with
    expressions := Expr.flattenStatements p.expressions
    functions := p.functions.flatten }

/-- Whether a program has no block among its statements nor among those of the body of a function. -/
structure Program.Flat (p : Program) : Prop where
  expressions : Expr.Flat p.expressions
  functions : ∀ (name : String) (entry : FunctionEntry) (body : List Expr),
    p.functions[name]? = some entry → entry.body = some body → Expr.Flat body

theorem FunctionEntry.flatten_flatten (entry : FunctionEntry) :
    entry.flatten.flatten = entry.flatten := by
  cases hbody : entry.body <;>
    simp [FunctionEntry.flatten, hbody, Expr.flattenStatements_idem]

theorem FunctionTable.getElem?_flatten (T : FunctionTable) (name : String) :
    T.flatten[name]? = T[name]?.map FunctionEntry.flatten := by
  simp [FunctionTable.flatten]

theorem FunctionTable.flatten_flatten (T : FunctionTable) : T.flatten.flatten = T.flatten := by
  refine Std.ExtTreeMap.ext_getElem? fun name => ?_
  simp only [FunctionTable.getElem?_flatten, Option.map_map]
  exact congrArg (T[name]?.map ·) (funext FunctionEntry.flatten_flatten)

theorem Program.flat_flatten (p : Program) : p.flatten.Flat where
  expressions := Expr.flat_flattenStatements p.expressions
  functions name entry body hentry hbody := by
    rw [Program.flatten, FunctionTable.getElem?_flatten] at hentry
    obtain ⟨entry, -, rfl⟩ := Option.map_eq_some_iff.mp hentry
    obtain ⟨body, -, rfl⟩ := Option.map_eq_some_iff.mp hbody
    exact Expr.flat_flattenStatements body

theorem Program.flatten_flatten (p : Program) : p.flatten.flatten = p.flatten := by
  simp only [Program.flatten, Expr.flattenStatements_idem, FunctionTable.flatten_flatten]

namespace Session

variable {σ : Type} {a b c : (Except Failure Value × Environment) × Session σ}

/-- Runs that come to the same value or stop for the same reason, and leave the same variables, predicates,
host and events, and the same functions apart from blocks. -/
structure Agree (a b : (Except Failure Value × Environment) × Session σ) : Prop where
  outcome : a.1.1 = b.1.1
  vars : a.1.2.vars = b.1.2.vars
  predicates : a.1.2.predicates = b.1.2.predicates
  functions : a.1.2.functions.flatten = b.1.2.functions.flatten
  world : a.2.world = b.2.world

theorem Agree.symm (h : Agree a b) : Agree b a :=
  ⟨h.outcome.symm, h.vars.symm, h.predicates.symm, h.functions.symm, h.world.symm⟩

theorem Agree.trans (h : Agree a b) (h' : Agree b c) : Agree a c :=
  ⟨h.outcome.trans h'.outcome, h.vars.trans h'.vars, h.predicates.trans h'.predicates,
    h.functions.trans h'.functions, h.world.trans h'.world⟩

end Session

section

variable {σ : Type} [Host σ]

def Coupling.flattening : Coupling σ where
  recast := Expr.flattenStatements
  strict := True
  run_recast ctx callBody limit body := evalSequence_flattenStatements ctx callBody limit none body

theorem Coupling.flattening_entries {a b : FunctionEntry} :
    (Coupling.flattening : Coupling σ).Entries a b ↔ b = a.flatten := by
  constructor
  · intro h
    have hbody : b.body = a.body.map Expr.flattenStatements := by
      cases ha : a.body with
      | none => exact h.missing trivial ha
      | some body => exact h.body body ha
    cases b
    cases hbody
    cases h.params
    rfl
  · rintro rfl
    refine ⟨rfl, fun _ hbody => ?_, fun _ hbody => ?_⟩
    all_goals simp only [FunctionEntry.flatten, hbody]
    all_goals rfl

theorem Coupling.flattening_related {m n : Machine σ} :
    Coupling.flattening.Related m n ↔ n = m.flatten := by
  have entries (a b : Option FunctionEntry) :
      Option.Rel (Coupling.flattening : Coupling σ).Entries a b ↔ b = a.map FunctionEntry.flatten := by
    cases a <;> cases b <;> simp [Option.rel_some_some, Coupling.flattening_entries]
  constructor
  · intro h
    have hfunctions : n.env.functions = m.env.functions.flatten := by
      refine Std.ExtTreeMap.ext_getElem? fun name => ?_
      rw [FunctionTable.getElem?_flatten]
      exact (entries _ _).mp (h.functions name)
    obtain ⟨⟨vars, functions, predicates⟩, ⟨host, events⟩⟩ := n
    cases h.vars
    cases hfunctions
    cases h.predicates
    cases h.host
    cases h.events trivial
    rfl
  · rintro rfl
    refine ⟨rfl, rfl, fun name => (entries _ _).mpr ?_, rfl, fun _ => rfl⟩
    exact m.env.functions.getElem?_flatten name

/-- A script without its blocks comes to the same and leaves the same machine, apart from blocks. -/
theorem evalAll_flatten (ctx : Context σ) (fuel : Nat) (es : List Expr) (m : Machine σ) :
    evalAll ctx fuel (Expr.flattenStatements es) m.flatten =
      ((evalAll ctx fuel es m).1, (evalAll ctx fuel es m).2.flatten) := by
  obtain ⟨hresult, hrelated⟩ := evalAll_coupled (K := Coupling.flattening) ctx (Nat.le_refl _)
    (fun _ => rfl) es (Coupling.flattening_related.mpr rfl) (.inl trivial)
  exact Prod.ext hresult (Coupling.flattening_related.mp hrelated)

theorem Session.run_flatten (fuel : Nat) (source : String) (p : Program) (inputs : Inputs)
    (env : Environment) (s : Session σ) :
    Session.Agree (Session.run fuel source p.flatten inputs env.flatten s)
      (Session.run fuel source p inputs env s) := by
  rcases hrun : evalAll { builtins := s.builtins, inputs } fuel p.expressions { env, world := s.world }
    with ⟨r, m⟩
  have hflat := evalAll_flatten { builtins := s.builtins, inputs } fuel p.expressions
    { env, world := s.world }
  rw [hrun] at hflat
  rw [Session.run_eq source hrun, Session.run_eq source hflat]
  refine ⟨rfl, rfl, rfl, m.env.functions.flatten_flatten, ?_⟩
  rw [Session.afterRun_world, Session.afterRun_world]
  rfl

/-- Blocks run in place. A block among statements can be replaced by its own statements: the evaluation of
all of them is the same, with its value or stop, environment and events. So blocks can be dissolved,
recursively, in the statements of a program and in the bodies of its functions, until there are none. The
program then comes to the same value or error and leaves the same variables and predicates, whether blocks
are dissolved as well in the bodies that its environment starts with or not. -/
theorem blocks_run_in_place {σ : Type} [Host σ] :
    (∀ (ctx : Context σ) (callBody : List Expr → EvalM σ (Option Value)) (limit : Nat)
      (last : Option Value) (pre body post : List Expr),
      evalSequence ctx callBody limit last (pre ++ [.block body] ++ post) =
        evalSequence ctx callBody limit last (pre ++ body ++ post)) ∧
      ∀ p : Program, p.flatten.Flat ∧
        ∀ (fuel : Nat) (source : String) (inputs : Inputs) (env : Environment) (s : Session σ),
          Session.Agree (Session.run fuel source p.flatten inputs env.flatten s)
              (Session.run fuel source p inputs env s) ∧
            Session.Agree (Session.run fuel source p.flatten inputs env s)
              (Session.run fuel source p inputs env s) := by
  constructor
  · intro ctx callBody limit last pre body post
    rw [evalSequence_append, evalSequence_append, evalSequence_append, evalSequence_append]
    simp only [evalSequence_block]
  · refine fun p => ⟨p.flat_flatten, fun fuel source inputs env s => ?_⟩
    have hrun := Session.run_flatten fuel source p inputs env s
    have htwice := Session.run_flatten fuel source p.flatten inputs env s
    rw [Program.flatten_flatten] at htwice
    exact ⟨hrun, htwice.symm.trans hrun⟩

end

end HostScript
