import HostScript.Proofs.Evaluation.Effect

/-!
# Variables that an evaluation leaves alone

A variable can change only through a construct that binds its name: a `let`, an assignment, an update or
an import. Calls bind the parameters of a function in the environment of the caller, but they give each
of them its earlier binding back, however deep in the call an error occurs. So a name that no code binds
has the same binding after an evaluation as before it.
-/
namespace HostScript

namespace Variables

theorem getElem?_restore (vars : Variables) (saved : String × Option Value) (x : String) :
    (vars.restore saved)[x]? = if saved.1 = x then saved.2 else vars[x]? := by
  obtain ⟨name, _ | v⟩ := saved
  · simp [restore, Std.ExtTreeMap.getElem?_erase]
  · simp [restore, Std.ExtTreeMap.getElem?_insert]

theorem getElem?_bindAll_of_not_mem {bindings : List (String × Value)} {x : String}
    (hx : x ∉ bindings.map Prod.fst) (vars : Variables) :
    (bindAll bindings vars).2[x]? = vars[x]? := by
  induction bindings generalizing vars with
  | nil => rfl
  | cons binding rest ih =>
    obtain ⟨name, v⟩ := binding
    simp only [List.map_cons, List.mem_cons, not_or] at hx
    simp only [bindAll]
    rw [ih hx.2, Std.ExtTreeMap.getElem?_insert, if_neg]
    simpa using Ne.symm hx.1

/-- Distinct names that were bound get their earlier bindings back, and the others keep what they have.
With a name listed twice, the binding that comes back is the one in between. -/
theorem getElem?_restoreAll_bindAll {bindings : List (String × Value)}
    (hdistinct : (bindings.map Prod.fst).Nodup) (vars later : Variables) (x : String) :
    (restoreAll (bindAll bindings vars).1 later)[x]? =
      if x ∈ bindings.map Prod.fst then vars[x]? else later[x]? := by
  induction bindings generalizing vars later with
  | nil => rfl
  | cons binding rest ih =>
    obtain ⟨name, v⟩ := binding
    simp only [List.map_cons, List.nodup_cons] at hdistinct
    obtain ⟨hname, hrest⟩ := hdistinct
    have hih := ih hrest (vars.insert name v) (later.restore (name, vars[name]?))
    rw [getElem?_restore] at hih
    simp only [bindAll, restoreAll, List.foldl_cons] at hih ⊢
    rw [hih]
    by_cases hx : name = x
    · subst hx
      simp [hname]
    · have hcons : x ∈ ((name, v) :: rest).map Prod.fst ↔ x ∈ rest.map Prod.fst := by
        simp [Ne.symm hx]
      have hinsert : (vars.insert name v)[x]? = vars[x]? := by
        simp [Std.ExtTreeMap.getElem?_insert, hx]
      simp only [hcons, hinsert, hx, if_false]

end Variables

def Expr.Spares (x : String) (e : Expr) : Prop := ∀ n ∈ e.nodes, n.target? ≠ some x

/-- Functions whose parameters are distinct and in whose bodies nothing binds the name. -/
structure FunctionTable.Spares (x : String) (T : FunctionTable) : Prop where
  distinct : ∀ (name : String) (entry : FunctionEntry), T[name]? = some entry → entry.params.Nodup
  bodies : ∀ (name : String) (entry : FunctionEntry) (body : List Expr), T[name]? = some entry →
    entry.body = some body → ∀ n ∈ Expr.nodesAll body, n.target? ≠ some x

theorem FunctionTable.Spares.attach {x : String} {env : Environment} (h : env.functions.Spares x)
    {name : String} {body : List Expr} (hbody : Expr.Spares x (.define name body)) :
    (env.attach name body).functions.Spares x := by
  have hlookup (other : String) (entry : FunctionEntry)
      (hentry : (env.attach name body).functions[other]? = some entry) :
      env.functions[other]? = some entry ∨
        entry = { env.functions.getD name {} with body := some body } := by
    simp only [Environment.attach, Std.ExtTreeMap.getElem?_insert] at hentry
    split at hentry
    · exact .inr (Option.some.inj hentry).symm
    · exact .inl hentry
  refine ⟨fun other entry hentry => ?_, fun other entry found hentry hfound => ?_⟩
  · rcases hlookup other entry hentry with hentry | rfl
    · exact h.distinct other entry hentry
    · rw [Std.ExtTreeMap.getD_eq_getD_getElem?]
      cases hold : env.functions[name]? with
      | none => exact List.nodup_nil
      | some old => exact h.distinct name old hold
  · rcases hlookup other entry hentry with hentry | rfl
    · exact h.bodies other entry found hentry hfound
    · obtain rfl : body = found := Option.some.inj hfound
      exact fun n hn => hbody n (List.mem_cons_of_mem _ hn)

/-- The names that a call binds are the first parameters, so they are distinct if the parameters are. -/
theorem nodup_fst_zip {params : List String} (h : params.Nodup) (args : List Value) :
    ((params.zip args).map Prod.fst).Nodup := by
  rw [List.zip_eq_zip_take_min, List.map_fst_zip (by simp)]
  exact h.sublist (List.take_sublist _ _)

section

variable {σ : Type}

def Effect.spares (ctx : Context σ) (x : String) : Effect ctx where
  code := Expr.Spares x
  ends m _ m' := m.env.functions.Spares x →
    m'.env.functions.Spares x ∧ m'.env.get? x = m.env.get? x
  refl _ h := ⟨h, rfl⟩
  trans hfirst hsecond h := by
    obtain ⟨hmiddle, hget⟩ := hfirst h
    obtain ⟨hend, hget'⟩ := hsecond hmiddle
    exact ⟨hend, hget'.trans hget⟩
  stop _ _ _ h := ⟨h, rfl⟩
  missing _ _ _ _ _ _ h := ⟨h, rfl⟩
  builtin m name _ b args _ _ h := by
    unfold EvalM.ofHost
    rcases b.call name args m.world with ⟨_ | _, w⟩
    · exact ⟨h, rfl⟩
    · exact ⟨h, rfl⟩
  call m name _ entry body args _ m' _ hentry hbody hrun h := by
    have hcode (n : Expr) (hn : n ∈ Expr.nodesAll body) : n.Spares x := by
      intro k hk
      obtain ⟨e, he, hn⟩ := Expr.mem_nodesAll.mp hn
      exact h.bodies name entry body hentry hbody k
        (Expr.mem_nodesAll.mpr ⟨e, he, Expr.mem_nodes_trans hk hn⟩)
    obtain ⟨hend, hget⟩ := hrun hcode h
    have hdistinct := nodup_fst_zip (h.distinct name entry hentry) args
    refine ⟨hend, ?_⟩
    simp only [Environment.get?, EvalM.released] at hget ⊢
    rw [Variables.getElem?_restoreAll_bindAll hdistinct]
    split
    · rfl
    · rw [hget]
      exact Variables.getElem?_bindAll_of_not_mem ‹_› m.env.vars
  merge m m' hends h := by
    obtain ⟨hend, hget⟩ := hends h
    refine ⟨hend, ?_⟩
    have hmerge := m.env.get?_mergeExisting m'.env x
    rw [hget] at hmerge
    refine hmerge.trans ?_
    cases m.env.get? x with
    | none => rfl
    | some v => rfl
  abandon _ _ _ hends h := ⟨(hends h).1, rfl⟩
  bind m e name v hcode htarget h := by
    refine ⟨h, ?_⟩
    have hne : name ≠ x := by
      rintro rfl
      exact hcode e e.self_mem_nodes htarget
    simp [hne]
  attach _ _ _ hcode h := ⟨h.attach hcode, rfl⟩
  predicate m name h := by
    unfold Environment.addPredicate
    split
    · exact ⟨h, rfl⟩
    · exact ⟨h, rfl⟩
  query _ _ _ h := ⟨h, rfl⟩
  host _ _ h := ⟨h, rfl⟩

/-- The frame of an evaluation. Take functions with distinct parameters, and a name that nothing binds,
neither in the expression with its function bodies nor in a body that is attached when the evaluation
begins. However the evaluation ends, the name has the binding, or the lack of one, that it had. -/
theorem eval_frame [Host σ] (ctx : Context σ) (fuel : Nat) (e : Expr) (m : Machine σ) (x : String)
    (hdistinct : ∀ (name : String) (entry : FunctionEntry), m.env.functions[name]? = some entry →
      entry.params.Nodup)
    (hcode : ∀ n ∈ e.nodes, n.target? ≠ some x)
    (hbodies : ∀ (name : String) (entry : FunctionEntry) (body : List Expr),
      m.env.functions[name]? = some entry → entry.body = some body →
      ∀ n ∈ Expr.nodesAll body, n.target? ≠ some x) :
    (eval ctx fuel e m).2.env.get? x = m.env.get? x := by
  have hgoverns : (Effect.spares ctx x).Governs (eval ctx fuel e) :=
    eval_governed fuel fun n hn k hk => hcode k (Expr.mem_nodes_trans hk hn)
  exact (hgoverns m ⟨hdistinct, hbodies⟩).2

/-- A name that is a parameter of two functions, one of which calls the other, where the inner one fails.
The variable of that name is back in place, although neither call came to its end. -/
theorem eval_frame_failing_call :
    let f : FunctionEntry := ⟨["x"], some [.letBinding "y" (.var "x"), .call "g" [.var "y"]]⟩
    let g : FunctionEntry := ⟨["x", "z"], some [.assign "y" (.var "x"), .call "h" []]⟩
    let functions : FunctionTable := ((∅ : FunctionTable).insert "f" f).insert "g" g
    let outer : Variables := (∅ : Variables).insert "x" (.text "outer")
    let ctx : Context Unit := ⟨∅, {}⟩
    let m : Machine Unit := ⟨{ vars := outer, functions }, { host := () }⟩
    let e : Expr := .call "f" [.literal (.boolean true)]
    Stop.of? (eval ctx 3 e m).1 = some (.failed (.undefinedReference .function "h")) ∧
      (eval ctx 3 e m).2.env.get? "x" = some (.text "outer") := by
  intro f g functions outer ctx m e
  have hlookup (name : String) (entry : FunctionEntry) (h : m.env.functions[name]? = some entry) :
      entry = f ∨ entry = g := by
    simp only [m, functions, Std.ExtTreeMap.getElem?_insert] at h
    grind
  have hframe := eval_frame ctx 3 e m "x" (fun name entry h => ?_) (by decide)
    (fun name entry body h hbody => ?_)
  · refine ⟨by decide +kernel, hframe.trans ?_⟩
    simp [m, outer, Environment.get?]
  · rcases hlookup name entry h with rfl | rfl <;> decide
  · rcases hlookup name entry h with rfl | rfl
    · cases hbody
      decide
    · cases hbody
      decide

end

end HostScript
