import HostScript.Proofs.Expr.Definitions
import HostScript.Proofs.Session.CompileOnce

/-!
# The functions of a script

The functions of a script and their parameters are fixed when it is parsed. An evaluation can only attach
bodies, each the body of the one definition that its name has, and a body that is attached stays, also if
it is attached in the copy of the environment that a loop works on, and also if the evaluation fails
later. Since a session hands the table from one evaluation of a kept program to the next, this holds
through every history. The predicates of one evaluation are only appended to.
-/
namespace HostScript

/-- Tables that a parsed script may have while it runs: its own functions with their parameters, and
bodies that are those of the only definitions of their names. -/
structure Parsed.Owns (parsed : Parsed) (T : FunctionTable) : Prop where
  params : ∀ name : String,
    T[name]?.map FunctionEntry.params = parsed.functions[name]?.map FunctionEntry.params
  bodies : ∀ (name : String) (entry : FunctionEntry) (body : List Expr), T[name]? = some entry →
    entry.body = some body →
    Expr.definitions name (Expr.nodesAll parsed.expressions) = [.define name body]

/-- What an evaluation of a script makes of an environment. The functions stay those of the script and
keep the bodies that they have, and predicates are appended without repetition. -/
structure Parsed.Evolves (parsed : Parsed) (env env' : Environment) : Prop where
  owns : parsed.Owns env'.functions
  below : env.functions.Below env'.functions
  appended : env.predicates <+: env'.predicates
  distinct : env.predicates.Nodup → env'.predicates.Nodup

theorem FunctionTable.Below.trans {T U V : FunctionTable} (hTU : T.Below U) (hUV : U.Below V) :
    T.Below V := by
  intro name
  have hleft := hTU name
  have hright := hUV name
  revert hleft hright
  cases T[name]? <;> cases U[name]? <;> cases V[name]? <;> rintro ⟨⟩ ⟨⟩
  · exact .none
  · rename_i hab hbc
    exact .some ⟨hab.params.trans hbc.params, fun body hbody => hbc.body body (hab.body body hbody)⟩

theorem FunctionTable.Below.map_params {T U : FunctionTable} (h : T.Below U) (name : String) :
    U[name]?.map FunctionEntry.params = T[name]?.map FunctionEntry.params := by
  have hname := h name
  revert hname
  cases T[name]? <;> cases U[name]? <;> rintro ⟨⟩
  · rfl
  · rename_i hentry
    exact congrArg some hentry.params.symm

/-- Nothing that matters to the functions and the predicates has happened. -/
theorem Parsed.Evolves.same {parsed : Parsed} {env env' : Environment}
    (howns : parsed.Owns env.functions) (hfunctions : env'.functions = env.functions)
    (hpredicates : env'.predicates = env.predicates) : parsed.Evolves env env' where
  owns := hfunctions ▸ howns
  below := hfunctions ▸ .refl _
  appended := hpredicates ▸ List.prefix_refl _
  distinct := hpredicates ▸ id

theorem Parsed.Evolves.trans {parsed : Parsed} {env env' env'' : Environment}
    (h : parsed.Evolves env env') (h' : parsed.Evolves env' env'') : parsed.Evolves env env'' where
  owns := h'.owns
  below := h.below.trans h'.below
  appended := h.appended.trans h'.appended
  distinct hdistinct := h'.distinct (h.distinct hdistinct)

theorem Environment.nodup_addPredicate {env : Environment} (h : env.predicates.Nodup) (name : String) :
    (env.addPredicate name).predicates.Nodup := by
  unfold addPredicate
  split
  · exact h
  · rename_i hnew
    have hnot : name ∉ env.predicates := by simpa using hnew
    refine List.nodup_append.mpr ⟨h, by simp, ?_⟩
    rintro a ha b hb rfl
    exact hnot (List.mem_singleton.mp hb ▸ ha)

theorem Environment.prefix_addPredicate (env : Environment) (name : String) :
    env.predicates <+: (env.addPredicate name).predicates := by
  unfold addPredicate
  split
  · exact List.prefix_refl _
  · exact List.prefix_append _ _

/-- What is attached in the copy of an environment that a loop works on is attached afterwards. -/
theorem EvalM.isolate_functions {σ α : Type} (c : EvalM σ α) (m : Machine σ) :
    (isolate c m).2.env.functions = (c m).2.env.functions := by
  rcases hcm : c m with ⟨r, m'⟩
  cases r with
  | ok a => rw [isolate_of_ok hcm]; rfl
  | error s => rw [isolate_of_error hcm]; rfl

section

variable {builtins : List String} {source : String} {parsed : Parsed}
  (h : parseSource builtins source = .ok parsed)

include h

theorem Parsed.owns_iff {T : FunctionTable} : parsed.Owns T ↔ parsed.GrowsTo T := by
  constructor
  · intro hT
    refine ⟨fun name => ?_, fun name entry body hentry hbody => ?_⟩
    · have hparams := hT.params name
      have hbodyless := parse_bodyless h name
      revert hparams hbodyless
      cases T[name]? <;> cases parsed.functions[name]? <;> intro hparams hbodyless
      · exact .none
      · cases hparams
      · cases hparams
      · refine .some ⟨(Option.some.inj hparams).symm, fun body hbody => ?_⟩
        rw [hbodyless _ rfl] at hbody
        cases hbody
    · have hdefinitions := hT.bodies name entry body hentry hbody
      have hmem : Expr.define name body ∈ Expr.definitions name (Expr.nodesAll parsed.expressions) := by
        rw [hdefinitions]
        exact List.mem_singleton.mpr rfl
      exact (List.mem_filter.mp hmem).1
  · intro hT
    exact ⟨hT.below.map_params, fun name entry body hentry hbody =>
      parse_definitions h (hT.bodies name entry body hentry hbody)⟩

/-- Attaching the body of a definition of the script takes no body away: the entry has none, or it has
this one. -/
theorem Parsed.GrowsTo.below_attached {T : FunctionTable} (hT : parsed.GrowsTo T) {name : String}
    {body : List Expr} (hdefine : .define name body ∈ Expr.nodesAll parsed.expressions) :
    T.Below (T.attached name body) := by
  intro other
  have hother := (FunctionTable.Below.refl T) other
  rw [FunctionTable.attached, Std.ExtTreeMap.getElem?_insert]
  split
  · rename_i heq
    obtain rfl := Std.LawfulEqCmp.eq_of_compare heq
    obtain ⟨params, hfound⟩ := parse_finds h name body hdefine
    have hname := hT.below name
    have hbodies := hT.bodies name
    rw [hfound] at hname
    rw [Std.ExtTreeMap.getD_eq_getD_getElem?]
    revert hname hbodies
    cases T[name]? with
    | none =>
      intro hname
      cases hname
    | some entry =>
      intro hname hbodies
      refine .some ⟨rfl, fun attached hattached => ?_⟩
      have hunique := parse_definitions h (hbodies entry attached rfl hattached)
      rw [parse_definitions h hdefine] at hunique
      cases hunique
      rfl
  · exact hother

/-- How the environment evolves, as an effect of evaluation. -/
def Parsed.evolution {σ : Type} (ctx : Context σ) : Effect ctx where
  code n := n ∈ Expr.nodesAll parsed.expressions
  ends m _ m' := parsed.Owns m.env.functions → parsed.Evolves m.env m'.env
  refl _ hm := .same hm rfl rfl
  trans hfirst hsecond hm := (hfirst hm).trans (hsecond (hfirst hm).owns)
  stop _ _ _ hm := .same hm rfl rfl
  missing _ _ _ _ _ _ hm := .same hm rfl rfl
  builtin m name _ b args _ _ hm := by
    unfold EvalM.ofHost
    rcases b.call name args m.world with ⟨_ | _, w⟩
    · exact .same hm rfl rfl
    · exact .same hm rfl rfl
  call m name _ entry body args r m' _ hentry hbody hrun hm := by
    have hdefine := ((Parsed.owns_iff h).mp hm).bodies name entry body hentry hbody
    obtain ⟨e, he, hnode⟩ := Expr.mem_nodesAll.mp hdefine
    have hcode (n : Expr) (hn : n ∈ Expr.nodesAll body) : n ∈ Expr.nodesAll parsed.expressions := by
      refine Expr.mem_nodesAll.mpr ⟨e, he, Expr.mem_nodes_trans ?_ hnode⟩
      exact List.mem_cons_of_mem _ hn
    have hends := hrun hcode hm
    exact ⟨hends.owns, hends.below, hends.appended, hends.distinct⟩
  merge _ _ hends hm := ⟨(hends hm).owns, (hends hm).below, List.prefix_refl _, id⟩
  abandon _ _ _ hends hm := ⟨(hends hm).owns, (hends hm).below, List.prefix_refl _, id⟩
  bind _ _ _ _ _ _ hm := .same hm rfl rfl
  attach m name body hdefine hm := by
    have hgrows := (Parsed.owns_iff h).mp hm
    refine ⟨(Parsed.owns_iff h).mpr (hgrows.attached h hdefine), ?_, List.prefix_refl _, id⟩
    exact hgrows.below_attached h hdefine
  predicate m name hm := by
    have hfunctions : (m.env.addPredicate name).functions = m.env.functions := by
      unfold Environment.addPredicate
      split <;> rfl
    refine ⟨hfunctions ▸ hm, hfunctions ▸ .refl _, m.env.prefix_addPredicate name, fun hdistinct => ?_⟩
    exact Environment.nodup_addPredicate hdistinct name
  query _ _ _ hm := .same hm rfl rfl
  host _ _ hm := .same hm rfl rfl

variable {σ : Type} [Host σ]

theorem eval_evolves (ctx : Context σ) (fuel : Nat) {e : Expr}
    (he : e ∈ Expr.nodesAll parsed.expressions) (m : Machine σ) (hm : parsed.Owns m.env.functions) :
    parsed.Evolves m.env (eval ctx fuel e m).2.env := by
  have hgoverns : (Parsed.evolution h ctx).Governs (eval ctx fuel e) := by
    refine eval_governed fuel fun n hn => ?_
    obtain ⟨f, hf, he⟩ := Expr.mem_nodesAll.mp he
    exact Expr.mem_nodesAll.mpr ⟨f, hf, Expr.mem_nodes_trans hn he⟩
  exact hgoverns m hm

theorem evalAll_evolves (ctx : Context σ) (fuel : Nat) (m : Machine σ)
    (hm : parsed.Owns m.env.functions) :
    parsed.Evolves m.env (evalAll ctx fuel parsed.expressions m).2.env := by
  have hgoverns : (Parsed.evolution h ctx).Governs (evalAll ctx fuel parsed.expressions) :=
    evalAll_governed fuel fun _ hn => hn
  exact hgoverns m hm

end

namespace Session

variable {σ : Type}

/-- No kept program is newer than the last compilation. -/
def Stamped (s : Session σ) : Prop :=
  ∀ (source : String) (p : Program), s.cache[source]? = some p → p.stamp ≤ s.compilations

section

/-! One step: what a request does to a kept program that it does not drop. -/

variable {s : Session σ} {source other : String} {kept : Bool} {p : Program}

theorem Obtains.getElem?_cache {r : Except Failure Program × Session σ} (h : s.Obtains other kept r)
    (hp : s.cache[source]? = some p) : r.2.cache[source]? = some p := by
  cases h with
  | found | refused => exact hp
  | compiled _ hmissing _ =>
    cases kept with
    | false => exact hp
    | true =>
      have hne : other ≠ source := by
        rintro rfl
        rw [hmissing rfl] at hp
        cases hp
      simp [Std.ExtTreeMap.getElem?_insert, hne, hp]

theorem Obtains.stamped {r : Except Failure Program × Session σ} (h : s.Obtains other kept r)
    (hs : s.Stamped) : r.2.Stamped := by
  intro source p hp
  cases h with
  | found => exact hs source p hp
  | refused => exact Nat.le_succ_of_le (hs source p hp)
  | compiled =>
    cases kept with
    | false => exact Nat.le_succ_of_le (hs source p hp)
    | true =>
      simp only [↓reduceIte, Std.ExtTreeMap.getElem?_insert] at hp
      split at hp
      · cases hp
        exact Nat.le_refl _
      · exact Nat.le_succ_of_le (hs source p hp)

/-- A program that is obtained and has the stamp of the kept one of its text is the kept one. -/
theorem Obtains.eq_of_stamp {q : Program} {t : Session σ} (h : s.Obtains source kept (.ok q, t))
    (hs : s.Stamped) (hp : s.cache[source]? = some p) (hstamp : p.stamp = q.stamp) : q = p := by
  cases h with
  | found _ _ hq =>
    rw [hp] at hq
    cases hq
    rfl
  | compiled =>
    have hle := hs source p hp
    simp only [newProgram] at hstamp
    omega

theorem compile_functions {parsed : Parsed}
    (hparsed : parseSource s.builtins.names source = .ok parsed) (debug : Bool) :
    ∃ p t, compile source debug s = (.ok p, t) ∧ p.expressions = parsed.expressions ∧
      p.functions = parsed.functions := by
  have hobtains := compile_obtains source debug s
  rcases hcompile : compile source debug s with ⟨r, t⟩
  rw [hcompile] at hobtains
  cases hobtains with
  | found _ hkept => cases hkept
  | refused _ _ he =>
    rw [hparsed] at he
    cases he
  | compiled _ _ hparsed' =>
    rw [hparsed] at hparsed'
    cases hparsed'
    exact ⟨_, _, rfl, rfl, rfl⟩

theorem Consistent.owns (hs : s.Consistent) {parsed : Parsed}
    (hparsed : parseSource s.builtins.names source = .ok parsed) (hp : s.cache[source]? = some p) :
    p.expressions = parsed.expressions ∧ parsed.Owns p.functions := by
  obtain ⟨parsed', hparsed', hexpressions, hgrows⟩ := hs source p hp
  rw [hparsed] at hparsed'
  cases hparsed'
  exact ⟨hexpressions, (Parsed.owns_iff hparsed).mpr hgrows⟩

variable [Host σ]

theorem Stamped.perform (hs : s.Stamped) (request : Request σ) : (s.perform request).Stamped := by
  cases request with
  | register | clearCache =>
    intro source p hp
    simp [Session.perform, register, clearCache] at hp
  | evaluate fuel source inputs options =>
    have hobtains := obtain_obtains source options s
    rw [Session.perform]
    rcases evaluate_cases fuel source inputs options s with
      ⟨e, t, ht, heval⟩ | ⟨p, t, r, m, ht, _, heval⟩
    · rw [ht] at hobtains
      rw [heval]
      exact hobtains.stamped hs
    · rw [ht] at hobtains
      rw [heval]
      intro other q hq
      rw [getElem?_afterRun] at hq
      obtain ⟨q₀, hq₀, rfl⟩ := Option.map_eq_some_iff.mp hq
      rw [afterRun_compilations]
      have hle := hobtains.stamped hs other q₀ hq₀
      split
      · exact hle
      · exact hle
  | getOrCompile source debug => exact (getOrCompile_obtains source debug s).stamped hs
  | compile source debug => exact (compile_obtains source debug s).stamped hs
  | invalidate source =>
    intro other p hp
    have herase : (s.cache.erase source)[other]? = some p := hp
    rw [Std.ExtTreeMap.getElem?_erase] at herase
    split at herase
    · cases herase
    · exact hs other p herase
  | changeHost => exact hs

/-- An evaluation of a text leaves the kept program of the same or another text in place. All that can
change is that functions of it get bodies. -/
theorem evaluate_kept (hs : s.Consistent) (hstamped : s.Stamped) (hp : s.cache[source]? = some p)
    (fuel : Nat) (other : String) (inputs : Inputs) (options : Options) :
    ∃ T, (evaluate fuel other inputs options s).2.cache[source]? = some { p with functions := T } ∧
      p.functions.Below T := by
  have hobtains := obtain_obtains other options s
  rcases evaluate_cases fuel other inputs options s with ⟨e, t, ht, heval⟩ | ⟨q, t, r, m, ht, hrun, heval⟩
  · rw [ht] at hobtains
    rw [heval]
    exact ⟨p.functions, hobtains.getElem?_cache hp, .refl _⟩
  · rw [ht] at hobtains
    rw [heval, getElem?_afterRun, hobtains.getElem?_cache hp]
    by_cases hsame : source = other ∧ p.stamp = q.stamp
    · obtain ⟨rfl, hstamp⟩ := hsame
      obtain rfl := hobtains.eq_of_stamp hstamped hp hstamp
      obtain ⟨parsed, hparsed, hexpressions, hgrows⟩ := hs source q hp
      have hevolves := evalAll_evolves hparsed { builtins := t.builtins, inputs } fuel
        { env := q.environment, world := t.world } ((Parsed.owns_iff hparsed).mpr hgrows)
      rw [← hexpressions, hrun] at hevolves
      exact ⟨m.env.functions, by simp, hevolves.below⟩
    · exact ⟨p.functions, by simp [hsame], .refl _⟩

theorem perform_kept (hs : s.Consistent) (hstamped : s.Stamped) (hp : s.cache[source]? = some p)
    {r : Request σ} (hdrops : r.drops source = false) :
    ∃ T, (s.perform r).cache[source]? = some { p with functions := T } ∧ p.functions.Below T := by
  cases r with
  | register | clearCache => cases hdrops
  | evaluate fuel other inputs options => exact evaluate_kept hs hstamped hp fuel other inputs options
  | getOrCompile other debug =>
    exact ⟨_, (getOrCompile_obtains other debug s).getElem?_cache hp, .refl _⟩
  | compile other debug => exact ⟨_, (compile_obtains other debug s).getElem?_cache hp, .refl _⟩
  | invalidate other =>
    have hne : other ≠ source := by simpa [Request.drops] using hdrops
    have herase : (s.perform (.invalidate other)).cache = s.cache.erase other := rfl
    refine ⟨p.functions, ?_, .refl _⟩
    simp [herase, Std.ExtTreeMap.getElem?_erase, hne, hp]
  | changeHost => exact ⟨_, hp, .refl _⟩

theorem Consistent.perform_builtins (hs : s.Consistent) {r : Request σ}
    (hdrops : r.drops source = false) : (s.perform r).builtins = s.builtins := by
  cases r with
  | register | clearCache => cases hdrops
  | evaluate fuel other inputs options => exact (hs.evaluate fuel other inputs options).2
  | getOrCompile other debug => exact (getOrCompile_obtains other debug s).builtins
  | compile other debug => exact (compile_obtains other debug s).builtins
  | invalidate | changeHost => rfl

end

section

/-! Histories. -/

variable [Host σ] {s : Session σ} {source : String} {p : Program}

theorem after_stamped (builtins : Registry σ) (host : σ) (history : List (Request σ)) :
    ((start builtins host).after history).Stamped := by
  have hstart : (start builtins host).Stamped := by
    intro source p hp
    simp [start] at hp
  unfold after
  generalize start builtins host = s at hstart ⊢
  induction history generalizing s with
  | nil => exact hstart
  | cons request history ih => exact ih (s.perform request) (hstart.perform request)

/-- Through requests of which none drops it, a kept program stays, with the bodies that it has. -/
theorem after_kept (hs : s.Consistent) (hstamped : s.Stamped) (hp : s.cache[source]? = some p)
    {later : List (Request σ)} (hnone : ∀ d ∈ later, d.drops source = false) :
    (s.after later).builtins = s.builtins ∧
      ∃ T, (s.after later).cache[source]? = some { p with functions := T } ∧ p.functions.Below T := by
  induction later generalizing s p with
  | nil => exact ⟨rfl, p.functions, hp, .refl _⟩
  | cons r later ih =>
    have hdrops := hnone r List.mem_cons_self
    obtain ⟨T, hT, hbelow⟩ := perform_kept hs hstamped hp hdrops
    obtain ⟨hbuiltins, U, hU, hbelow'⟩ := ih (hs.perform r) (hstamped.perform r) hT
      fun d hd => hnone d (List.mem_cons_of_mem r hd)
    exact ⟨hbuiltins.trans (hs.perform_builtins hdrops), U, hU, hbelow.trans hbelow'⟩

/-- What holds of the functions of a script and of its predicates, in a session that has come this far
and from then on. -/
structure KeepsFunctions (s : Session σ) (source : String) (parsed : Parsed) : Prop where
  /-- A new program has the functions as they were parsed, all without a body. -/
  compiled (debug : Bool) : ∃ p t, compile source debug s = (.ok p, t) ∧
    p.expressions = parsed.expressions ∧ p.functions = parsed.functions ∧ parsed.Owns p.functions ∧
    ∀ (name : String) (entry : FunctionEntry), p.functions[name]? = some entry → entry.body = none
  /-- A kept program has the functions of the script. -/
  kept (p : Program) : s.cache[source]? = some p →
    p.expressions = parsed.expressions ∧ parsed.Owns p.functions
  /-- As long as it is not dropped, a kept program stays the same but for bodies that are added. -/
  grows (p : Program) (later : List (Request σ)) : s.cache[source]? = some p →
    (∀ d ∈ later, d.drops source = false) →
      ∃ T, (s.after later).cache[source]? = some { p with functions := T } ∧ parsed.Owns T ∧
        p.functions.Below T
  /-- An evaluation hands out an environment with the functions of the script and distinct predicates. -/
  evaluated (fuel : Nat) (inputs : Inputs) (options : Options) (evaluation : Evaluation)
    (t : Session σ) : evaluate fuel source inputs options s = (.ok evaluation, t) →
      parsed.Owns evaluation.environment.functions ∧ evaluation.environment.predicates.Nodup
  /-- The environment evolves through a run of the script, and through the evaluation of every construct
  in it, however they end. -/
  running (inputs : Inputs) (fuel : Nat) (m : Machine σ) : parsed.Owns m.env.functions →
    parsed.Evolves m.env
        (evalAll { builtins := s.builtins, inputs } fuel parsed.expressions m).2.env ∧
      ∀ e ∈ Expr.nodesAll parsed.expressions,
        parsed.Evolves m.env (eval { builtins := s.builtins, inputs } fuel e m).2.env
  /-- The functions in the copy that a loop works on are those of the environment afterwards. -/
  isolated (inputs : Inputs) (fuel : Nat) (e : Expr) (m : Machine σ) :
    (EvalM.isolate (eval { builtins := s.builtins, inputs } fuel e) m).2.env.functions =
      (eval { builtins := s.builtins, inputs } fuel e m).2.env.functions

theorem Consistent.evaluate_environment (hs : s.Consistent) {parsed : Parsed}
    (hparsed : parseSource s.builtins.names source = .ok parsed) {fuel : Nat} {inputs : Inputs}
    {options : Options} {evaluation : Evaluation} {t : Session σ}
    (h : Session.evaluate fuel source inputs options s = (.ok evaluation, t)) :
    parsed.Owns evaluation.environment.functions ∧ evaluation.environment.predicates.Nodup := by
  obtain ⟨u, _, _, hdelivers⟩ := (obtain_obtains source options _).delivers hs
  rw [Delivers, hparsed] at hdelivers
  obtain ⟨p, hp, hexpressions, hgrows, _⟩ := hdelivers
  rcases evaluate_cases fuel source inputs options s with ⟨e, _, hu, heval⟩ | ⟨_, _, r, m, hu, hrun, heval⟩
  · rw [hu] at hp
    cases hp
  · rw [hu] at hp
    cases hp
    have hevolves := evalAll_evolves hparsed { builtins := u.builtins, inputs } fuel
      { env := p.environment, world := u.world } ((Parsed.owns_iff hparsed).mpr hgrows)
    rw [← hexpressions, hrun] at hevolves
    rw [h] at heval
    cases r with
    | error stop => cases stop <;> cases heval
    | ok v =>
      cases heval
      exact ⟨hevolves.owns, hevolves.distinct List.nodup_nil⟩

end

end Session

/-- The functions of a script are fixed when it is compiled, but for bodies that evaluations attach and
that stay attached, in every session, after every history, and whatever happens next. -/
theorem functions_kept {σ : Type} [Host σ] (builtins : Registry σ) (host : σ)
    (history : List (Request σ)) (source : String) (parsed : Parsed)
    (hparsed : parseSource ((Session.start builtins host).after history).builtins.names source =
      .ok parsed) :
    ((Session.start builtins host).after history).KeepsFunctions source parsed := by
  have hafter (later : List (Request σ)) :
      (((Session.start builtins host).after history).after later).Consistent := by
    rw [← Session.after_append]
    exact Session.after_consistent builtins host (history ++ later)
  have hstamped := Session.after_stamped builtins host history
  generalize (Session.start builtins host).after history = s at hparsed hafter hstamped ⊢
  have hs : s.Consistent := hafter []
  refine ⟨fun debug => ?_, fun p hp => hs.owns hparsed hp, fun p later hp hnone => ?_, ?_, ?_, ?_⟩
  · obtain ⟨p, t, hcompile, hexpressions, hfunctions⟩ := Session.compile_functions hparsed debug
    refine ⟨p, t, hcompile, hexpressions, hfunctions, ?_, ?_⟩
    · rw [hfunctions]
      exact (Parsed.owns_iff hparsed).mpr (.start hparsed)
    · rw [hfunctions]
      exact parse_bodyless hparsed
  · obtain ⟨hbuiltins, T, hT, hbelow⟩ := Session.after_kept hs hstamped hp hnone
    exact ⟨T, hT, ((hafter later).owns (hbuiltins ▸ hparsed) hT).2, hbelow⟩
  · intro fuel inputs options evaluation t h
    exact hs.evaluate_environment hparsed h
  · intro inputs fuel m hm
    exact ⟨evalAll_evolves hparsed _ fuel m hm, fun e he => eval_evolves hparsed _ fuel he m hm⟩
  · intro inputs fuel e m
    exact EvalM.isolate_functions _ m

/-- `let go = true; while(go) { function f(a) { return a; } go = false; } true - f(false);`, which defines
its function in a loop and then fails. -/
def failingAfterLoop : String :=
  "let go = true; while(go) \x7b function f(a) \x7b return a; \x7d go = false; \x7d true - f(false);"

/-- After an evaluation that attached a body in a loop and then failed, the kept program has the body. -/
theorem functions_kept_failing :
    let s := (Session.start (∅ : Registry Unit) ()).after [.evaluate 4 failingAfterLoop {} {}]
    (Session.evaluate 4 failingAfterLoop {} {} (Session.start (∅ : Registry Unit) ())).1.isOk = false ∧
      ∃ parsed p, parseSource s.builtins.names failingAfterLoop = .ok parsed ∧
        s.cache[failingAfterLoop]? = some p ∧ (p.functions["f"]?.bind FunctionEntry.body).isSome ∧
        s.KeepsFunctions failingAfterLoop parsed := by
  intro s
  have hattached : (s.cache[failingAfterLoop]?.any fun p =>
      (p.functions["f"]?.bind FunctionEntry.body).isSome) = true := by decide +kernel
  refine ⟨by decide +kernel, ?_⟩
  obtain ⟨p, hp, hbody⟩ := (Option.any_eq_true _ _).mp hattached
  obtain ⟨parsed, hparsed, _⟩ := Session.after_consistent (∅ : Registry Unit) () _ failingAfterLoop p hp
  exact ⟨parsed, p, hparsed, hp, hbody, functions_kept ∅ () _ failingAfterLoop parsed hparsed⟩

end HostScript
