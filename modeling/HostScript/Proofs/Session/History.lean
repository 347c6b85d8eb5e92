import HostScript.Proofs.Session.Script
import HostScript.Session

/-!
# Histories of sessions

A session goes through requests one after the other. It comes by a program in one of three ways: the program
is kept, it is compiled, or its source text does not compile. Each compilation is counted, and its number
becomes the stamp of the program. Whatever the requests are and however they end, each kept program was
compiled with the built-ins that the session has now, and its table is one that the functions of its script
can grow into.
-/
namespace HostScript

/-- Something that a session is asked for. Between two requests to the session proper, the host may
change its own state. -/
inductive Request (σ : Type) where
  | register (name : String) (b : Builtin σ)
  | evaluate (fuel : Nat) (source : String) (inputs : Inputs) (options : Options)
  | getOrCompile (source : String) (debug : Bool)
  | compile (source : String) (debug : Bool)
  | invalidate (source : String)
  | clearCache
  | changeHost (change : σ → σ)

namespace Session

variable {σ : Type}

def perform [Host σ] (s : Session σ) : Request σ → Session σ
  | .register name b => s.register name b
  | .evaluate fuel source inputs options => (evaluate fuel source inputs options s).2
  | .getOrCompile source debug => (getOrCompile source debug s).2
  | .compile source debug => (compile source debug s).2
  | .invalidate source => (invalidate source s).2
  | .clearCache => s.clearCache
  | .changeHost change => { s with world := { s.world with host := change s.world.host } }

def after [Host σ] (s : Session σ) (history : List (Request σ)) : Session σ := history.foldl perform s

/-- A program that a source text is compiled to where the listed names are those of built-ins, with
bodies attached by runs of it. -/
def CompiledFrom (builtins : List String) (source : String) (p : Program) : Prop :=
  ∃ parsed, parseSource builtins source = .ok parsed ∧ p.expressions = parsed.expressions ∧
    parsed.GrowsTo p.functions

/-- Every kept program is compiled from its source text with the current built-ins. -/
def Consistent (s : Session σ) : Prop :=
  ∀ (source : String) (p : Program), s.cache[source]? = some p →
    CompiledFrom s.builtins.names source p

/-- A session that has the same built-ins and the same host as another one. -/
structure Alike (s t : Session σ) : Prop where
  builtins : t.builtins = s.builtins
  host : t.world.host = s.world.host

section

/-! What the operations do to a session. -/

variable {α β : Type}

theorem bind_of_ok {c : SessionM σ α} {f : α → SessionM σ β} {s t : Session σ} {a : α}
    (h : c s = (.ok a, t)) : (c >>= f) s = f a t := by
  simp only [bind, ExceptT.bind, ExceptT.mk, StateT.bind, h]
  rfl

theorem bind_of_error {c : SessionM σ α} {f : α → SessionM σ β} {s t : Session σ} {failure : Failure}
    (h : c s = (.error failure, t)) : (c >>= f) s = (.error failure, t) := by
  simp only [bind, ExceptT.bind, ExceptT.mk, StateT.bind, h]
  rfl

theorem pure_run (a : α) (s : Session σ) : (pure a : SessionM σ α) s = (.ok a, s) := rfl

theorem modify_bind (f : Session σ → Session σ) (k : Unit → SessionM σ α) (s : Session σ) :
    ((modify f : SessionM σ Unit) >>= k) s = k () (f s) := rfl

theorem get_bind (k : Session σ → SessionM σ α) (s : Session σ) :
    ((get : SessionM σ (Session σ)) >>= k) s = k s s := rfl

theorem log_bind (es : List Event) (k : Unit → SessionM σ α) (s : Session σ) :
    (log es >>= k) s = k () { s with world := s.world.logAll es } := rfl

theorem log_if (listed : Bool) (es : List Event) (c : SessionM σ α) (s : Session σ) :
    (if listed = true then log es >>= fun _ => c else c) s =
      c { s with world := s.world.logAll (if listed then es else []) } := by
  cases listed with
  | true => rfl
  | false => simp [World.logAll]

end

/-- The program that a parsed source text becomes in a session, which has compiled as often as it has. -/
def newProgram (s : Session σ) (source : String) (parsed : Parsed) : Program where
  expressions := parsed.expressions
  functions := parsed.functions
  imports := (tokenize s.builtins.names source).imports
  usings := (tokenize s.builtins.names source).usings
  stamp := s.compilations + 1

/-- The ways in which a session comes by the program of a source text, where `kept` says whether kept
programs are used. -/
inductive Obtains (s : Session σ) (source : String) (kept : Bool) :
    Except Failure Program × Session σ → Prop where
  | found {p : Program} {world : World σ} (hhost : world.host = s.world.host) (hkept : kept = true)
    (hp : s.cache[source]? = some p) : Obtains s source kept (.ok p, { s with world })
  | refused {e : ParseError} {world : World σ} (hhost : world.host = s.world.host)
    (hmissing : kept = true → s.cache[source]? = none)
    (he : parseSource s.builtins.names source = .error e) :
    Obtains s source kept
      (.error (.parse e), { s with compilations := s.compilations + 1, world })
  | compiled {parsed : Parsed} {world : World σ} (hhost : world.host = s.world.host)
    (hmissing : kept = true → s.cache[source]? = none)
    (hparsed : parseSource s.builtins.names source = .ok parsed) :
    Obtains s source kept
      (.ok (s.newProgram source parsed),
        { s with
          compilations := s.compilations + 1
          world
          cache := if kept then s.cache.insert source (s.newProgram source parsed) else s.cache })

theorem compile_obtains (source : String) (debug : Bool) (s : Session σ) :
    s.Obtains source false (compile source debug s) := by
  unfold compile compileFor
  rw [get_bind, modify_bind, get_bind]
  dsimp only
  rw [log_bind, log_if]
  cases hparsed : parseSource s.builtins.names source with
  | error e =>
    rw [parseSource] at hparsed
    rw [hparsed]
    exact .refused rfl (fun hkept => by cases hkept) hparsed
  | ok parsed =>
    rw [parseSource] at hparsed
    rw [hparsed]
    dsimp only
    rw [log_if, log_bind]
    exact .compiled rfl (fun hkept => by cases hkept) hparsed

theorem getOrCompile_of_cached {s : Session σ} {source : String} {p : Program} (debug : Bool)
    (h : s.cache[source]? = some p) :
    getOrCompile source debug s = (.ok p, { s with world := s.world.logAll [.cacheHit] }) := by
  unfold getOrCompile
  rw [get_bind, h]
  rfl

theorem getOrCompile_of_missing {s : Session σ} {source : String} (debug : Bool)
    (h : s.cache[source]? = none) :
    getOrCompile source debug s =
      (do
        let p ← compile source debug
        modify fun s => { s with cache := s.cache.insert source p }
        return p : SessionM σ Program) { s with world := s.world.logAll [.cacheMiss] } := by
  unfold getOrCompile
  rw [get_bind, h]
  rfl

theorem getOrCompile_obtains (source : String) (debug : Bool) (s : Session σ) :
    s.Obtains source true (getOrCompile source debug s) := by
  cases hcached : s.cache[source]? with
  | some p =>
    rw [getOrCompile_of_cached debug hcached]
    exact .found rfl rfl hcached
  | none =>
    rw [getOrCompile_of_missing debug hcached]
    generalize hs : ({ s with world := s.world.logAll [.cacheMiss] } : Session σ) = t
    have hcompile := compile_obtains source debug t
    rcases hrun : compile source debug t with ⟨r, u⟩
    rw [hrun] at hcompile
    subst hs
    cases hcompile with
    | found _ hkept => cases hkept
    | refused hhost _ he =>
      rw [bind_of_error hrun]
      exact .refused hhost (fun _ => hcached) he
    | compiled hhost _ hparsed =>
      rw [bind_of_ok hrun]
      exact .compiled hhost (fun _ => hcached) hparsed

theorem obtain_obtains (source : String) (options : Options) (s : Session σ) :
    s.Obtains source options.cache (obtain source options s) := by
  unfold obtain
  cases options.cache with
  | true => exact getOrCompile_obtains source options.debug s
  | false => exact compile_obtains source options.debug s

theorem Obtains.builtins {s : Session σ} {source : String} {kept : Bool}
    {r : Except Failure Program × Session σ} (h : s.Obtains source kept r) :
    r.2.builtins = s.builtins := by
  cases h <;> rfl

/-- An operation that leads from one session to another, and answers with the error or the program that
a source text stands for. A new program has no bodies yet. -/
def Delivers (c : SessionM σ Program) (source : String) (s t : Session σ) : Prop :=
  match parseSource s.builtins.names source with
  | .error e => c s = (.error (.parse e), t)
  | .ok parsed => ∃ p, c s = (.ok p, t) ∧ p.expressions = parsed.expressions ∧
      parsed.GrowsTo p.functions ∧ (s.cache[source]? = none → p.functions = parsed.functions)

theorem Delivers.leads {c : SessionM σ Program} {source : String} {s t : Session σ}
    (h : Delivers c source s t) : (c s).2 = t := by
  unfold Delivers at h
  split at h
  · rw [h]
  · obtain ⟨p, hp, _⟩ := h
    rw [hp]

/-- The calls of a program that is delivered name built-ins or functions of the program. -/
theorem Delivers.calls {c : SessionM σ Program} {source : String} {s t t' : Session σ} {p : Program}
    (h : Delivers c source s t) (hc : c s = (.ok p, t')) {name : String} {arguments : List Expr}
    (hcall : .call name arguments ∈ Expr.nodesAll p.expressions) :
    name ∈ s.builtins ∨ name ∈ p.functions := by
  unfold Delivers at h
  cases hparsed : parseSource s.builtins.names source with
  | error e =>
    rw [hparsed, hc] at h
    cases h
  | ok parsed =>
    rw [hparsed, hc] at h
    obtain ⟨q, hq, hexpressions, hgrows, _⟩ := h
    cases hq
    rw [hexpressions] at hcall
    rw [← Registry.mem_names, ← hgrows.below.mem_iff]
    exact parseSource_call hparsed hcall

theorem Consistent.of_cache {s t : Session σ} (hs : s.Consistent) (hbuiltins : t.builtins = s.builtins)
    (hcache : t.cache = s.cache) : t.Consistent := by
  intro source p hp
  rw [hcache] at hp
  rw [hbuiltins]
  exact hs source p hp

theorem Consistent.insert {s : Session σ} (hs : s.Consistent) {source : String} {p : Program}
    (hp : CompiledFrom s.builtins.names source p) :
    Consistent { s with cache := s.cache.insert source p } := by
  intro other q hq
  simp only [Std.ExtTreeMap.getElem?_insert] at hq
  split at hq
  · rename_i heq
    obtain rfl := Std.LawfulEqCmp.eq_of_compare heq
    cases hq
    exact hp
  · exact hs other q hq

/-- However a session comes by the program of a source text, it delivers it. In a consistent session it
makes no difference to the answer whether a program is kept. -/
theorem Obtains.delivers {s : Session σ} {source : String} {kept : Bool} {c : SessionM σ Program}
    (h : s.Obtains source kept (c s)) (hs : s.Consistent) :
    ∃ t, s.Alike t ∧ t.Consistent ∧ Delivers c source s t := by
  unfold Delivers
  generalize hc : c s = r at h ⊢
  cases h with
  | found hhost _ hp =>
    obtain ⟨parsed, hparsed, hexpressions, hgrows⟩ := hs source _ hp
    rw [hparsed]
    refine ⟨_, ?_, ?_, _, rfl, hexpressions, hgrows, ?_⟩
    · exact ⟨rfl, hhost⟩
    · exact hs.of_cache rfl rfl
    · rw [hp]
      exact nofun
  | refused hhost _ he =>
    rw [he]
    refine ⟨_, ?_, ?_, rfl⟩
    · exact ⟨rfl, hhost⟩
    · exact hs.of_cache rfl rfl
  | @compiled parsed world hhost _ hparsed =>
    have hgrows := Parsed.GrowsTo.start hparsed
    rw [hparsed]
    refine ⟨_, ?_, ?_, _, rfl, rfl, hgrows, fun _ => rfl⟩
    · exact ⟨rfl, hhost⟩
    · cases kept with
      | false => exact hs.of_cache rfl rfl
      | true =>
        have hworld : Consistent { s with compilations := s.compilations + 1, world } := hs.of_cache rfl rfl
        exact hworld.insert ⟨parsed, hparsed, rfl, hgrows⟩

/-- A run leaves nothing else changed than the world and the kept programs. -/
theorem afterRun_eq (t : Session σ) (source : String) (p : Program) (m : Machine σ) :
    ∃ cache, t.afterRun source p m = { t with world := m.world, cache } := by
  unfold afterRun retain
  split
  · split
    · exact ⟨_, rfl⟩
    · exact ⟨_, rfl⟩
  · exact ⟨_, rfl⟩

theorem afterRun_world (t : Session σ) (source : String) (p : Program) (m : Machine σ) :
    (t.afterRun source p m).world = m.world := by
  obtain ⟨cache, h⟩ := t.afterRun_eq source p m
  rw [h]

theorem afterRun_builtins (t : Session σ) (source : String) (p : Program) (m : Machine σ) :
    (t.afterRun source p m).builtins = t.builtins := by
  obtain ⟨cache, h⟩ := t.afterRun_eq source p m
  rw [h]

theorem afterRun_compilations (t : Session σ) (source : String) (p : Program) (m : Machine σ) :
    (t.afterRun source p m).compilations = t.compilations := by
  obtain ⟨cache, h⟩ := t.afterRun_eq source p m
  rw [h]

theorem Consistent.afterRun {t : Session σ} (ht : t.Consistent) {source : String} {p : Program}
    {parsed : Parsed} (hparsed : parseSource t.builtins.names source = .ok parsed) {m : Machine σ}
    (hgrows : parsed.GrowsTo m.env.functions) : (t.afterRun source p m).Consistent := by
  unfold Session.afterRun retain
  cases hcached : t.cache[source]? with
  | none => exact ht.of_cache rfl rfl
  | some q =>
    obtain ⟨parsed', hparsed', hexpressions, _⟩ := ht source q hcached
    rw [hparsed] at hparsed'
    cases hparsed'
    dsimp only
    split
    · have hworld : Consistent { t with world := m.world } := ht.of_cache rfl rfl
      exact hworld.insert ⟨parsed, hparsed, hexpressions, hgrows⟩
    · exact ht.of_cache rfl rfl

section

variable [Host σ]

theorem run_eq {t : Session σ} {p : Program} {fuel : Nat} {inputs : Inputs} {env : Environment}
    {r : Except Stop (Option Value)} {m : Machine σ} (source : String)
    (h : evalAll { builtins := t.builtins, inputs } fuel p.expressions { env, world := t.world } = (r, m)) :
    run fuel source p inputs env t = ((Program.outcome r, m.env), t.afterRun source p m) := by
  simp only [run, h]

/-- How a run of a program ends. -/
theorem runFor_eq {t : Session σ} {source : String} {p : Program} {fuel : Nat} {inputs : Inputs}
    {r : Except Stop (Option Value)} {m : Machine σ}
    (h : evalAll { builtins := t.builtins, inputs } fuel p.expressions
      { env := p.environment, world := t.world } = (r, m)) :
    runFor fuel source inputs p t =
      ((Program.outcome r).map fun value => { value, environment := m.env, stamp := p.stamp },
        t.afterRun source p m) := by
  have hrun := run_eq source h
  have hlift : (ExceptT.lift (run fuel source p inputs p.environment) :
      SessionM σ (Except Failure Value × Environment)) t =
      (.ok (Program.outcome r, m.env), t.afterRun source p m) := by
    simp only [ExceptT.lift, ExceptT.mk, Functor.map, StateT.map, hrun]
    rfl
  unfold runFor
  rw [bind_of_ok hlift]
  cases Program.outcome r with
  | ok value => rfl
  | error failure => rfl

/-- A run leaves a table that the functions of the script can grow into, and finds no function undefined
unless a built-in says so. -/
theorem run_keeps {t : Session σ} {source : String} {p : Program} {parsed : Parsed}
    (hparsed : parseSource t.builtins.names source = .ok parsed)
    (hexpressions : p.expressions = parsed.expressions) (hgrows : parsed.GrowsTo p.functions)
    {fuel : Nat} {inputs : Inputs} {r : Except Stop (Option Value)} {m : Machine σ}
    (h : evalAll { builtins := t.builtins, inputs } fuel p.expressions
      { env := p.environment, world := t.world } = (r, m)) :
    parsed.GrowsTo m.env.functions ∧
      ∀ name, r = .error (.failed (.undefinedReference .function name)) →
        t.builtins.Denies name m.world := by
  have hkeeps : (parsed.contract { builtins := t.builtins, inputs } source hparsed).Keeps
      (evalAll { builtins := t.builtins, inputs } fuel parsed.expressions) :=
    evalAll_keeps fuel fun _ hn => hn
  obtain ⟨htable, hstops⟩ := hkeeps { env := p.environment, world := t.world } hgrows
  rw [← hexpressions, h] at htable hstops
  refine ⟨htable, fun name hr => ?_⟩
  exact hstops _ hr name rfl

theorem Consistent.evaluate {s : Session σ} (hs : s.Consistent) (fuel : Nat) (source : String)
    (inputs : Inputs) (options : Options) :
    (Session.evaluate fuel source inputs options s).2.Consistent ∧
      (Session.evaluate fuel source inputs options s).2.builtins = s.builtins := by
  obtain ⟨t, halike, ht, hdelivers⟩ := (obtain_obtains source options s).delivers hs
  rw [Session.evaluate]
  unfold Delivers at hdelivers
  cases hparsed : parseSource s.builtins.names source with
  | error e =>
    rw [hparsed] at hdelivers
    rw [bind_of_error hdelivers]
    exact ⟨ht, halike.builtins⟩
  | ok parsed =>
    rw [hparsed] at hdelivers
    obtain ⟨p, hp, hexpressions, hgrows, _⟩ := hdelivers
    rw [← halike.builtins] at hparsed
    rw [bind_of_ok hp, runFor_eq rfl]
    refine ⟨ht.afterRun hparsed (run_keeps hparsed hexpressions hgrows rfl).1, ?_⟩
    rw [afterRun_builtins, halike.builtins]

/-- Every request leaves a consistent session consistent. -/
theorem Consistent.perform {s : Session σ} (hs : s.Consistent) (request : Request σ) :
    (s.perform request).Consistent := by
  have forgotten {t : Session σ} (ht : t.cache = ∅) : t.Consistent := by
    intro source p hp
    rw [ht] at hp
    simp at hp
  cases request with
  | register name b => exact forgotten rfl
  | evaluate fuel source inputs options => exact (hs.evaluate fuel source inputs options).1
  | getOrCompile source debug =>
    obtain ⟨t, _, ht, hdelivers⟩ := (getOrCompile_obtains source debug s).delivers hs
    rw [Session.perform, hdelivers.leads]
    exact ht
  | compile source debug =>
    obtain ⟨t, _, ht, hdelivers⟩ := (compile_obtains source debug s).delivers hs
    rw [Session.perform, hdelivers.leads]
    exact ht
  | invalidate source =>
    intro other p hp
    have herase : (s.cache.erase source)[other]? = some p := hp
    rw [Std.ExtTreeMap.getElem?_erase] at herase
    split at herase
    · cases herase
    · exact hs other p herase
  | clearCache => exact forgotten rfl
  | changeHost change => exact hs.of_cache rfl rfl

theorem after_consistent (builtins : Registry σ) (host : σ) (history : List (Request σ)) :
    ((start builtins host).after history).Consistent := by
  have hstart : (start builtins host).Consistent := by
    intro source p hp
    simp [start] at hp
  unfold after
  generalize start builtins host = s at hstart ⊢
  induction history generalizing s with
  | nil => exact hstart
  | cons request history ih => exact ih (s.perform request) (hstart.perform request)

end

end Session

end HostScript
