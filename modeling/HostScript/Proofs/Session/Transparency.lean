import HostScript.Proofs.Session.History

/-!
# Kept programs make no difference

A kept program may have bodies attached by earlier runs, also by runs that failed. An evaluation that
finishes without a kept program, and does not fail for want of a body, has the same outcome in a session
with any history.
-/
namespace HostScript

variable {σ : Type}

/-- What an evaluation is seen to come to: the value with the variables and the predicates at the end, or
the failure. -/
def Session.outcome (r : Except Failure Evaluation) :
    Except Failure (Value × Variables × List String) :=
  r.map fun e => (e.value, e.environment.vars, e.environment.predicates)

/-- A run that neither uses up its fuel nor misses a body has a conclusive result. -/
theorem conclusive_of_outcome {r : Except Stop (Option Value)}
    (hfinished : Program.outcome r ≠ .error .outOfFuel)
    (hbody : ∀ name, Program.outcome r ≠ .error (.runtime (.undefinedReference .functionBody name))) :
    Conclusive r := by
  rintro stop rfl
  unfold Stop.conclusive
  split
  · exact absurd rfl (hbody _)
  · rfl
  · exact absurd rfl hfinished

/-- Runs of two programs of the same script, of which the second may have more bodies attached and more
fuel, have the same outcome if that of the first is conclusive. -/
theorem Session.runFor_transparent [Host σ] {t u : Session σ} (halike : t.Alike u) {source : String}
    {p q : Program} (hexpressions : p.expressions = q.expressions)
    (hfunctions : p.functions.Below q.functions) {inputs : Inputs} {fuel more : Nat}
    (hfuel : fuel ≤ more) (hfinished : (runFor fuel source inputs p t).1 ≠ .error .outOfFuel)
    (hbody : ∀ name, (runFor fuel source inputs p t).1 ≠
      .error (.runtime (.undefinedReference .functionBody name))) :
    outcome (runFor more source inputs q u).1 = outcome (runFor fuel source inputs p t).1 ∧
      (runFor more source inputs q u).2.world.host = (runFor fuel source inputs p t).2.world.host := by
  rcases hp : evalAll { builtins := t.builtins, inputs } fuel p.expressions
    { env := p.environment, world := t.world } with ⟨r, m⟩
  rcases hq : evalAll { builtins := u.builtins, inputs } more q.expressions
    { env := q.environment, world := u.world } with ⟨r', m'⟩
  rw [runFor_eq hp] at hfinished hbody ⊢
  rw [runFor_eq hq]
  have hconclusive : Conclusive r := by
    refine conclusive_of_outcome (fun h => hfinished ?_) (fun name h => hbody name ?_)
    · rw [h]
      rfl
    · rw [h]
      rfl
  have hbelow : Machine.Below (σ := σ) { env := p.environment, world := t.world }
      { env := q.environment, world := u.world } :=
    { vars := rfl, predicates := rfl, functions := hfunctions, host := halike.host.symm }
  rw [halike.builtins, ← hexpressions] at hq
  have hsimulates := evalAll_simulates { builtins := t.builtins, inputs } hfuel p.expressions hbelow
  rw [hp, hq] at hsimulates
  obtain ⟨hresult, hmachine⟩ := hsimulates hconclusive
  rw [afterRun_world, afterRun_world]
  refine ⟨?_, hmachine.host.symm⟩
  obtain rfl : r' = r := hresult
  cases Program.outcome r' with
  | error failure => rfl
  | ok value =>
    simp only [outcome, Except.map]
    rw [hmachine.vars, hmachine.predicates]

/-- Cache transparency. Take a session with any history, and one with no kept program that has the same
built-ins and whose host is in the same state. If the evaluation of a script in the latter comes to an end
and does not fail for want of a body, then the evaluation with kept programs in the former has the same
outcome, and leaves the host in the same state. -/
theorem cache_transparent [Host σ] (builtins : Registry σ) (host : σ) (history : List (Request σ))
    (fresh : Session σ) (hcache : fresh.cache = ∅)
    (halike : fresh.Alike ((Session.start builtins host).after history)) (source : String)
    (inputs : Inputs) (options : Options) (debug : Bool) (fuel more : Nat) (hfuel : fuel ≤ more)
    (hfinished : (Session.evaluate fuel source inputs options fresh).1 ≠ .error .outOfFuel)
    (hbody : ∀ name, (Session.evaluate fuel source inputs options fresh).1 ≠
      .error (.runtime (.undefinedReference .functionBody name))) :
    Session.outcome (Session.evaluate more source inputs ⟨true, debug⟩
        ((Session.start builtins host).after history)).1 =
      Session.outcome (Session.evaluate fuel source inputs options fresh).1 ∧
    (Session.evaluate more source inputs ⟨true, debug⟩
        ((Session.start builtins host).after history)).2.world.host =
      (Session.evaluate fuel source inputs options fresh).2.world.host := by
  have hs := Session.after_consistent builtins host history
  have hfresh : fresh.Consistent := by
    intro other p hp
    rw [hcache] at hp
    simp at hp
  generalize (Session.start builtins host).after history = s at halike hs ⊢
  obtain ⟨t, ht, _, hdelivers⟩ := (Session.obtain_obtains source options _).delivers hfresh
  obtain ⟨u, hu, _, hdelivers'⟩ := (Session.obtain_obtains source ⟨true, debug⟩ _).delivers hs
  have htu : t.Alike u :=
    ⟨hu.builtins.trans (halike.builtins.trans ht.builtins.symm),
      hu.host.trans (halike.host.trans ht.host.symm)⟩
  rw [Session.evaluate] at hfinished hbody ⊢
  rw [Session.evaluate]
  unfold Session.Delivers at hdelivers hdelivers'
  rw [halike.builtins] at hdelivers'
  cases hparsed : parseSource fresh.builtins.names source with
  | error e =>
    rw [hparsed] at hdelivers hdelivers'
    rw [Session.bind_of_error hdelivers, Session.bind_of_error hdelivers']
    exact ⟨rfl, htu.host⟩
  | ok parsed =>
    rw [hparsed] at hdelivers hdelivers'
    obtain ⟨p, hp, hexpressions, _, hnew⟩ := hdelivers
    obtain ⟨q, hq, hexpressions', hgrows, _⟩ := hdelivers'
    rw [Session.bind_of_ok hp] at hfinished hbody
    rw [Session.bind_of_ok hp, Session.bind_of_ok hq]
    refine Session.runFor_transparent htu (hexpressions.trans hexpressions'.symm) ?_ hfuel hfinished hbody
    rw [hnew (by rw [hcache]; simp)]
    exact hgrows.below

/-- The second evaluation of a script finds the body of its function attached before the definition is
evaluated again. -/
theorem cache_transparent_second_run :
    let source := "function f() { return true; } f();"
    let s := (Session.start (∅ : Registry Unit) ()).after [.evaluate 3 source {} {}]
    Session.outcome (Session.evaluate 4 source {} {} s).1 =
      Session.outcome (Session.evaluate 3 source {} {} (Session.start (∅ : Registry Unit) ())).1 := by
  intro source s
  have hok : (Session.evaluate 3 source {} {} (Session.start (∅ : Registry Unit) ())).1.isOk := by
    decide +kernel
  have hne (failure : Failure) :
      (Session.evaluate 3 source {} {} (Session.start (∅ : Registry Unit) ())).1 ≠ .error failure := by
    intro h
    rw [h] at hok
    cases hok
  have hbuiltins : s.builtins = ∅ := by
    have hstart : (Session.start (∅ : Registry Unit) ()).Consistent := Session.after_consistent ∅ () []
    simp only [s, Session.after, List.foldl_cons, List.foldl_nil, Session.perform]
    rw [(hstart.evaluate 3 source {} {}).2]
    rfl
  have hsame := cache_transparent ∅ () [.evaluate 3 source {} {}] (Session.start ∅ ()) rfl
    ⟨hbuiltins, Subsingleton.elim _ _⟩ source {} {} false 3 4 (Nat.le_succ 3) (hne _) fun _ => hne _
  exact hsame.1

end HostScript
