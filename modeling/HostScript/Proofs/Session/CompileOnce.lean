import HostScript.Proofs.Session.Kept
import Mathlib.Data.List.Induction

/-!
# Scripts are compiled once

A session asks for the program of a source text with kept programs in use, or compiles it anew. A program
is kept from the request that compiled it until a request drops it: the registration of a built-in, the
clearing of all kept programs, or the invalidation of its source text. Whether a run of it fails makes no
difference, and a text that does not compile is never kept.
-/
namespace HostScript

namespace Request

variable {σ : Type}

/-- The source text whose kept program a request would use. -/
def asks? : Request σ → Option String
  | .evaluate _ source _ options => if options.cache then some source else none
  | .getOrCompile source _ => some source
  | _ => none

/-- Whether a request compiles a source text without regard to kept programs. -/
def compilesAnew : Request σ → Bool
  | .evaluate _ _ _ options => !options.cache
  | .compile _ _ => true
  | _ => false

/-- Whether a request drops the program of a source text, if it is kept. -/
def drops (source : String) : Request σ → Bool
  | .register _ _ | .clearCache => true
  | .invalidate other => other = source
  | _ => false

theorem drops_of_asks? {r : Request σ} {source : String} (h : r.asks? = some source) (other : String) :
    r.drops other = false := by
  cases r with
  | evaluate | getOrCompile => rfl
  | _ => cases h

end Request

namespace Session

variable {σ : Type}

/-- A source text that compiles with the built-ins of a session. -/
def Compiles (s : Session σ) (source : String) : Prop := ∃ p t, compile source false s = (.ok p, t)

/-- Whether a request makes a session compile: it compiles anew, or it asks for a program that is not
kept. -/
def compilesOn (s : Session σ) (r : Request σ) : Bool :=
  r.compilesAnew || r.asks?.any fun source => !s.cache.contains source

/-- A request that compiles a source text, successfully or not, in order to keep the program. -/
def Seeks (s : Session σ) (r : Request σ) (source : String) : Prop :=
  r.asks? = some source ∧ source ∉ s.cache

theorem compiles_iff {s : Session σ} {source : String} :
    s.Compiles source ↔ ∃ parsed, parseSource s.builtins.names source = .ok parsed := by
  have hobtains := compile_obtains source false s
  unfold Compiles
  constructor
  · rintro ⟨p, t, hcompile⟩
    rw [hcompile] at hobtains
    cases hobtains with
    | found _ hkept => cases hkept
    | compiled _ _ hparsed => exact ⟨_, hparsed⟩
  · rintro ⟨parsed, hparsed⟩
    rcases hcompile : compile source false s with ⟨r, t⟩
    rw [hcompile] at hobtains
    cases hobtains with
    | found _ hkept => cases hkept
    | refused _ _ he =>
      rw [hparsed] at he
      cases he
    | compiled => exact ⟨_, _, rfl⟩

section

/-! One step: which source texts are kept after an operation, and how often the session has compiled. -/

variable {s : Session σ} {source : String} {kept : Bool} {r : Except Failure Program × Session σ}

theorem Obtains.mem_cache (h : s.Obtains source kept r) (other : String) :
    other ∈ r.2.cache ↔ other ∈ s.cache ∨ (other = source ∧ kept = true ∧ s.Compiles source) := by
  rw [compiles_iff]
  cases h with
  | found _ hkept hp =>
    have hmem : source ∈ s.cache := by
      rw [Std.ExtTreeMap.mem_iff_isSome_getElem?, hp]
      rfl
    refine ⟨.inl, ?_⟩
    rintro (hother | ⟨rfl, -, -⟩)
    · exact hother
    · exact hmem
  | refused _ _ he =>
    refine ⟨.inl, ?_⟩
    rintro (hother | ⟨-, -, parsed, hparsed⟩)
    · exact hother
    · rw [he] at hparsed
      cases hparsed
  | compiled _ _ hparsed =>
    cases kept with
    | false => simp
    | true =>
      have hcompare : compare source other = .eq ↔ other = source := by
        rw [Std.compare_eq_iff_eq, eq_comm]
      simp [hparsed, hcompare, Or.comm]

theorem Obtains.keeps {t : Session σ} {p : Program} (h : s.Obtains source kept (.ok p, t))
    (hkept : kept = true) : source ∈ t.cache := by
  subst hkept
  cases h with
  | found _ _ hp =>
    rw [Std.ExtTreeMap.mem_iff_isSome_getElem?, hp]
    rfl
  | compiled => exact Std.ExtTreeMap.mem_insert_self

theorem Obtains.compilations (h : s.Obtains source kept r) :
    r.2.compilations = s.compilations + (!kept || !s.cache.contains source).toNat := by
  have counted (hmissing : kept = true → s.cache[source]? = none) :
      (!kept || !s.cache.contains source) = true := by
    cases kept with
    | false => rfl
    | true => simpa [← Std.ExtTreeMap.isSome_getElem?_eq_contains] using hmissing rfl
  cases h with
  | found _ hkept hp => simp [hkept, ← Std.ExtTreeMap.isSome_getElem?_eq_contains, hp]
  | refused _ hmissing =>
    rw [counted hmissing]
    rfl
  | compiled _ hmissing =>
    rw [counted hmissing]
    rfl

theorem Consistent.compiles (hs : s.Consistent) (hkept : source ∈ s.cache) :
    s.Compiles source := by
  rw [Std.ExtTreeMap.mem_iff_isSome_getElem?] at hkept
  obtain ⟨p, hp⟩ := Option.isSome_iff_exists.mp hkept
  obtain ⟨parsed, hparsed, _⟩ := hs source p hp
  exact compiles_iff.mpr ⟨parsed, hparsed⟩

theorem mem_cache_afterRun (t : Session σ) (source : String) (p : Program) (m : Machine σ)
    (other : String) : other ∈ (t.afterRun source p m).cache ↔ other ∈ t.cache := by
  rw [Std.ExtTreeMap.mem_iff_isSome_getElem?, Std.ExtTreeMap.mem_iff_isSome_getElem?, getElem?_afterRun,
    Option.isSome_map]

variable [Host σ]

/-- A run makes no difference to which programs are kept, whether it fails or not. -/
theorem evaluate_mem_cache (fuel : Nat) (source : String) (inputs : Inputs) (options : Options)
    (s : Session σ) (other : String) :
    other ∈ (evaluate fuel source inputs options s).2.cache ↔
      other ∈ (obtain source options s).2.cache := by
  rcases evaluate_cases fuel source inputs options s with ⟨e, t, ht, heval⟩ | ⟨p, t, r, m, ht, _, heval⟩
  · rw [heval, ht]
  · rw [heval, ht]
    exact mem_cache_afterRun t source p m other

theorem evaluate_compilations (fuel : Nat) (source : String) (inputs : Inputs) (options : Options)
    (s : Session σ) :
    (evaluate fuel source inputs options s).2.compilations =
      (obtain source options s).2.compilations := by
  rcases evaluate_cases fuel source inputs options s with ⟨e, t, ht, heval⟩ | ⟨p, t, r, m, ht, _, heval⟩
  · rw [heval, ht]
  · rw [heval, ht]
    exact afterRun_compilations t source p m

/-- After a request a source text is kept if it was kept or the request asks for it and it compiles,
unless the request drops it. -/
theorem perform_mem_cache (s : Session σ) (r : Request σ) (source : String) :
    source ∈ (s.perform r).cache ↔
      r.drops source = false ∧
        (source ∈ s.cache ∨ (r.asks? = some source ∧ s.Compiles source)) := by
  cases r with
  | register name b => simp [perform, register, clearCache, Request.drops]
  | evaluate fuel other inputs options =>
    rw [perform, evaluate_mem_cache, (obtain_obtains other options s).mem_cache]
    cases hcache : options.cache <;> grind [Request.drops, Request.asks?]
  | getOrCompile other debug =>
    rw [perform, (getOrCompile_obtains other debug s).mem_cache]
    grind [Request.drops, Request.asks?]
  | compile other debug =>
    rw [perform, (compile_obtains other debug s).mem_cache]
    simp [Request.drops, Request.asks?]
  | invalidate other =>
    have herase : (s.perform (.invalidate other)).cache = s.cache.erase other := rfl
    rw [herase]
    simp [Request.drops, Request.asks?]
  | clearCache => simp [perform, clearCache, Request.drops]
  | changeHost change => simp [perform, Request.drops, Request.asks?]

/-- The number of compilations grows by one with each request that makes the session compile. -/
theorem perform_compilations (s : Session σ) (r : Request σ) :
    (s.perform r).compilations = s.compilations + (s.compilesOn r).toNat := by
  cases r with
  | evaluate fuel other inputs options =>
    rw [perform, evaluate_compilations, (obtain_obtains other options s).compilations]
    cases hcache : options.cache <;>
      simp [compilesOn, Request.compilesAnew, Request.asks?, hcache]
  | getOrCompile other debug => exact (getOrCompile_obtains other debug s).compilations
  | compile other debug => exact (compile_obtains other debug s).compilations
  | register | invalidate | clearCache | changeHost => rfl

end

section

/-! Histories: what the steps amount to. -/

variable [Host σ] {first : Session σ} {source : String}

theorem after_append (first : Session σ) (before after : List (Request σ)) :
    first.after (before ++ after) = (first.after before).after after := List.foldl_append

/-- A source text that is kept stays kept as long as no request drops it. -/
theorem mem_cache_of_mem {s : Session σ} (hkept : source ∈ s.cache) {history : List (Request σ)}
    (hnone : ∀ d ∈ history, d.drops source = false) : source ∈ (s.after history).cache := by
  induction history generalizing s with
  | nil => exact hkept
  | cons r history ih =>
    have hstep : source ∈ (s.perform r).cache :=
      (perform_mem_cache s r source).mpr ⟨hnone r List.mem_cons_self, .inl hkept⟩
    exact ih hstep fun d hd => hnone d (List.mem_cons_of_mem r hd)

/-- A source text that a request compiles in order to keep it, with success, is kept until a request
drops it. -/
theorem mem_cache_of_seeks {s : Session σ} {r : Request σ} (hseeks : s.Seeks r source)
    (hcompiles : s.Compiles source) {after : List (Request σ)}
    (hnone : ∀ d ∈ after, d.drops source = false) : source ∈ (s.after (r :: after)).cache := by
  have hstep : source ∈ (s.perform r).cache :=
    (perform_mem_cache s r source).mpr
      ⟨Request.drops_of_asks? hseeks.1 source, .inr ⟨hseeks.1, hcompiles⟩⟩
  exact mem_cache_of_mem hstep hnone

/-- A source text that is kept was compiled in order to keep it, with success, and no request has dropped
it since. -/
theorem exists_seeks (hfirst : first.cache = ∅) {history : List (Request σ)}
    (hkept : source ∈ (first.after history).cache) :
    ∃ before r after, history = before ++ r :: after ∧ (first.after before).Seeks r source ∧
      (first.after before).Compiles source ∧ ∀ d ∈ after, d.drops source = false := by
  induction history using List.reverseRecOn with
  | nil => simp [after, hfirst] at hkept
  | append_singleton history r ih =>
    rw [after_append] at hkept
    obtain ⟨hdrops, hbefore⟩ := (perform_mem_cache (first.after history) r source).mp hkept
    by_cases hmem : source ∈ (first.after history).cache
    · obtain ⟨before, r₀, after, hsplit, hseeks, hcompiles, hnone⟩ := ih hmem
      refine ⟨before, r₀, after ++ [r], by simp [hsplit], hseeks, hcompiles, ?_⟩
      intro d hd
      rcases List.mem_append.mp hd with hd | hd
      · exact hnone d hd
      · rw [List.mem_singleton.mp hd]
        exact hdrops
    · obtain ⟨hasks, hcompiles⟩ := hbefore.resolve_left hmem
      exact ⟨history, r, [], rfl, ⟨hasks, hmem⟩, hcompiles, List.forall_mem_nil _⟩

/-- The last request of a history that compiles a source text in order to keep it, with the requests
before and after. -/
structure LastSeeks (first : Session σ) (history : List (Request σ)) (source : String)
    (before : List (Request σ)) (r : Request σ) (after : List (Request σ)) : Prop where
  split : history = before ++ r :: after
  seeks : (first.after before).Seeks r source
  last : ∀ between q rest, after = between ++ q :: rest →
    ¬(first.after (before ++ r :: between)).Seeks q source

/-- How a session compiles through a history of requests. -/
structure CompilesOnce (first : Session σ) (history : List (Request σ)) : Prop where
  /-- The kept texts are those whose last compilation to keep them succeeded and that have not been
  dropped since. -/
  kept (source : String) : source ∈ (first.after history).cache ↔
    ∃ before r after, first.LastSeeks history source before r after ∧
      (first.after before).Compiles source ∧ ∀ d ∈ after, d.drops source = false
  /-- The next request adds one compilation if it compiles anew or asks for a text that is not kept. -/
  counted (r : Request σ) : ((first.after history).perform r).compilations =
    (first.after history).compilations + ((first.after history).compilesOn r).toNat
  /-- Between two compilations of a text to keep it, of which the first succeeded, a request drops it. -/
  once (source : String) (before between after : List (Request σ)) (r q : Request σ) :
    history = before ++ r :: (between ++ q :: after) → (first.after before).Seeks r source →
      (first.after before).Compiles source → (first.after (before ++ r :: between)).Seeks q source →
        ∃ d ∈ between, d.drops source = true
  /-- An evaluation that fails while it runs drops nothing, and its own text is kept if it is to be. -/
  failing (fuel : Nat) (source : String) (inputs : Inputs) (options : Options) (error : RuntimeError)
    (t : Session σ) :
    evaluate fuel source inputs options (first.after history) = (.error (.runtime error), t) →
      (∀ other ∈ (first.after history).cache, other ∈ t.cache) ∧
        (options.cache = true → source ∈ t.cache)
  /-- A text that does not compile is not kept. -/
  unparsed (source : String) :
    ¬(first.after history).Compiles source → source ∉ (first.after history).cache

theorem drops_between {before between : List (Request σ)} {r q : Request σ}
    (hseeks : (first.after before).Seeks r source) (hcompiles : (first.after before).Compiles source)
    (hagain : (first.after (before ++ r :: between)).Seeks q source) :
    ∃ d ∈ between, d.drops source = true := by
  by_contra hnone
  have hnone : ∀ d ∈ between, d.drops source = false := by simpa using hnone
  have hkept := mem_cache_of_seeks hseeks hcompiles hnone
  rw [← after_append] at hkept
  exact hagain.2 hkept

theorem mem_cache_iff_lastSeeks (hfirst : first.cache = ∅) (history : List (Request σ))
    (source : String) :
    source ∈ (first.after history).cache ↔
      ∃ before r after, first.LastSeeks history source before r after ∧
        (first.after before).Compiles source ∧ ∀ d ∈ after, d.drops source = false := by
  constructor
  · intro hkept
    obtain ⟨before, r, after, hsplit, hseeks, hcompiles, hnone⟩ := exists_seeks hfirst hkept
    refine ⟨before, r, after, ⟨hsplit, hseeks, ?_⟩, hcompiles, hnone⟩
    rintro between q rest rfl hagain
    obtain ⟨d, hd, hdrops⟩ := drops_between hseeks hcompiles hagain
    rw [hnone d (List.mem_append_left _ hd)] at hdrops
    cases hdrops
  · rintro ⟨before, r, after, hlast, hcompiles, hnone⟩
    rw [hlast.split, after_append]
    exact mem_cache_of_seeks hlast.seeks hcompiles hnone

/-- The text of an evaluation that fails while it runs is kept, if programs are to be kept. -/
theorem mem_cache_of_failing {s t : Session σ} {fuel : Nat} {inputs : Inputs} {options : Options}
    {error : RuntimeError} (h : evaluate fuel source inputs options s = (.error (.runtime error), t))
    (hcache : options.cache = true) : source ∈ t.cache := by
  rcases evaluate_cases fuel source inputs options s with ⟨e, u, _, heval⟩ | ⟨p, u, r, m, hu, _, heval⟩
  · rw [h] at heval
    cases heval
  · have hobtains := obtain_obtains source options s
    rw [hu] at hobtains
    have hmem := mem_cache_afterRun u source p m source
    rw [h] at heval
    rw [(Prod.mk.inj heval).2]
    exact hmem.mpr (hobtains.keeps hcache)

/-- Through every history of requests, a text that is to be kept is compiled once until it is dropped. -/
theorem compile_once (builtins : Registry σ) (host : σ) (history : List (Request σ)) :
    (start builtins host).CompilesOnce history where
  kept := mem_cache_iff_lastSeeks rfl history
  counted := perform_compilations _
  once source before between after r q _ hseeks hcompiles hagain :=
    drops_between hseeks hcompiles hagain
  failing fuel source inputs options error t h := by
    refine ⟨fun other hother => ?_, mem_cache_of_failing h⟩
    have hstep := perform_mem_cache ((start builtins host).after history)
      (.evaluate fuel source inputs options) other
    rw [perform, h] at hstep
    exact hstep.mpr ⟨rfl, .inl hother⟩
  unparsed source hfails hkept := hfails ((after_consistent builtins host history).compiles hkept)

end

end Session

end HostScript
