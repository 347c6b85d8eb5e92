import HostScript.Proofs.Session.History

/-!
# What a run does to the kept programs

An evaluation obtains a program and runs it, unless the source text does not compile. The run changes kept
programs only in that it replaces the functions of the one that it runs.
-/
namespace HostScript.Session

variable {σ : Type}

/-- A run replaces the functions of the kept program that it runs, and leaves the kept programs otherwise
as they are. -/
theorem getElem?_afterRun (t : Session σ) (source : String) (p : Program) (m : Machine σ)
    (other : String) :
    (t.afterRun source p m).cache[other]? =
      t.cache[other]?.map fun q =>
        if other = source ∧ q.stamp = p.stamp then { q with functions := m.env.functions } else q := by
  unfold afterRun retain
  dsimp only
  cases hsource : t.cache[source]? with
  | none =>
    by_cases hother : other = source
    · subst hother
      simp [hsource]
    · simp [hother]
  | some q =>
    dsimp only
    by_cases hother : other = source
    · subst hother
      by_cases hstamp : q.stamp = p.stamp
      · simp [hstamp, hsource]
      · simp [hstamp, hsource]
    · by_cases hstamp : q.stamp = p.stamp
      · simp [hstamp, hother, Std.ExtTreeMap.getElem?_insert, Ne.symm hother]
      · simp [hstamp, hother]

section

variable [Host σ]

/-- The ways in which an evaluation goes: no program is obtained, or the program that is obtained runs. -/
theorem evaluate_cases (fuel : Nat) (source : String) (inputs : Inputs) (options : Options)
    (s : Session σ) :
    (∃ e t, obtain source options s = (.error (.parse e), t) ∧
      evaluate fuel source inputs options s = (.error (.parse e), t)) ∨
    ∃ p t r m, obtain source options s = (.ok p, t) ∧
      evalAll { builtins := t.builtins, inputs } fuel p.expressions
        { env := p.environment, world := t.world } = (r, m) ∧
      evaluate fuel source inputs options s =
        ((Program.outcome r).map fun value => { value, environment := m.env, stamp := p.stamp },
          t.afterRun source p m) := by
  rw [evaluate]
  have hobtain := obtain_obtains source options s
  rcases hrun : obtain source options s with ⟨failure | p, t⟩
  · rw [hrun] at hobtain
    cases hobtain with
    | @refused e =>
      exact .inl ⟨e, _, rfl, bind_of_error hrun⟩
  · rcases heval : evalAll { builtins := t.builtins, inputs } fuel p.expressions
      { env := p.environment, world := t.world } with ⟨r, m⟩
    refine .inr ⟨p, t, r, m, rfl, heval, ?_⟩
    rw [bind_of_ok hrun, runFor_eq heval]

end

end HostScript.Session
