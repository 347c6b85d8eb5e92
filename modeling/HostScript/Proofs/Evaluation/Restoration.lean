import Mathlib.Data.List.Duplicate
import Mathlib.Tactic.ByContra
import HostScript.Proofs.Evaluation.Frame
import HostScript.Session

/-!
# Parameters after a call

A call binds its arguments in the environment of the caller, one parameter after the other, and remembers
what each of them replaced. When the body has ended, in whatever way, the remembered bindings are put
back in the same order. For a name that is listed twice this means that the binding put back last is the
one that the earlier argument had made. So a call leaves its parameters as they were exactly if they are
distinct.
-/
namespace HostScript

namespace Variables

theorem restoreAll_append (saved saved' : List (String × Option Value)) (vars : Variables) :
    restoreAll (saved ++ saved') vars = restoreAll saved' (restoreAll saved vars) := List.foldl_append

theorem getElem?_restoreAll_of_not_mem {saved : List (String × Option Value)} {x : String}
    (hx : x ∉ saved.map Prod.fst) (vars : Variables) : (restoreAll saved vars)[x]? = vars[x]? := by
  induction saved generalizing vars with
  | nil => rfl
  | cons s saved ih =>
    simp only [List.map_cons, List.mem_cons, not_or] at hx
    have hrest := ih hx.2 (vars.restore s)
    rw [getElem?_restore, if_neg (Ne.symm hx.1)] at hrest
    exact hrest

theorem map_fst_bindAll (bindings : List (String × Value)) (vars : Variables) :
    (bindAll bindings vars).1.map Prod.fst = bindings.map Prod.fst := by
  induction bindings generalizing vars with
  | nil => rfl
  | cons binding rest ih => simp only [bindAll, List.map_cons, ih]

theorem bindAll_append (bindings bindings' : List (String × Value)) (vars : Variables) :
    bindAll (bindings ++ bindings') vars =
      ((bindAll bindings vars).1 ++ (bindAll bindings' (bindAll bindings vars).2).1,
        (bindAll bindings' (bindAll bindings vars).2).2) := by
  induction bindings generalizing vars with
  | nil => rfl
  | cons binding rest ih => simp only [List.cons_append, bindAll, ih]

/-- What a name is bound to after a list of bindings, in which it may occur several times, has been undone:
what it was bound to right before its last occurrence. -/
theorem getElem?_restoreAll_last {before after : List (String × Value)} {x : String}
    (hx : x ∉ after.map Prod.fst) (v : Value) (vars later : Variables) :
    (restoreAll (bindAll (before ++ (x, v) :: after) vars).1 later)[x]? = (bindAll before vars).2[x]? := by
  have hafter (vars : Variables) : x ∉ (bindAll after vars).1.map Prod.fst := by
    rw [map_fst_bindAll]
    exact hx
  rw [bindAll_append, restoreAll_append]
  simp only [bindAll, restoreAll, List.foldl_cons]
  have hrest := getElem?_restoreAll_of_not_mem (hafter ((bindAll before vars).2.insert x v))
    ((restoreAll (bindAll before vars).1 later).restore (x, (bindAll before vars).2[x]?))
  rw [getElem?_restore, if_pos rfl] at hrest
  exact hrest

theorem isSome_bindAll_of_mem {bindings : List (String × Value)} {x : String}
    (hx : x ∈ bindings.map Prod.fst) (vars : Variables) : (bindAll bindings vars).2[x]?.isSome := by
  induction bindings generalizing vars with
  | nil => cases hx
  | cons binding rest ih =>
    obtain ⟨name, v⟩ := binding
    by_cases hrest : x ∈ rest.map Prod.fst
    · exact ih hrest (vars.insert name v)
    · obtain rfl : x = name := by simpa [hrest] using hx
      simp only [bindAll]
      rw [getElem?_bindAll_of_not_mem hrest, Std.ExtTreeMap.getElem?_insert_self]
      rfl

end Variables

section

variable {σ : Type} {callBody : List Expr → EvalM σ (Option Value)} {m : Machine σ} {name : String}
  {entry : FunctionEntry} {body : List Expr}

/-- A call runs the body with the parameters bound and releases them however the body ends. Its result is
that of the body, where nothing counts as zero. -/
theorem callFunction_run (callBody : List Expr → EvalM σ (Option Value))
    (hentry : m.env.functions[name]? = some entry) (hbody : entry.body = some body)
    (args : List Value) :
    callFunction callBody name args m =
      let ended := callBody body (EvalM.bound (entry.params.zip args) m)
      (ended.1.map (·.getD (.number 0)), EvalM.released (entry.params.zip args) m ended.2) := by
  have hrun := EvalM.withBindings_run (entry.params.zip args) (callBody body) m
  rcases hended : callBody body (EvalM.bound (entry.params.zip args) m) with ⟨r, m'⟩
  rw [hended] at hrun
  unfold callFunction
  rw [EvalM.get_bind_run, hentry]
  dsimp only
  rw [hbody]
  dsimp only
  cases r with
  | ok v =>
    rw [EvalM.bind_of_ok hrun]
    rfl
  | error stop =>
    rw [EvalM.bind_of_error hrun]
    rfl

/-- The binding that a parameter has after a call is the one that it had right before the last of its
arguments was bound. -/
theorem callFunction_get? (hentry : m.env.functions[name]? = some entry)
    (hbody : entry.body = some body) {args : List Value} {before after : List (String × Value)}
    {x : String} {v : Value} (hzip : entry.params.zip args = before ++ (x, v) :: after)
    (hx : x ∉ after.map Prod.fst) :
    (callFunction callBody name args m).2.env.get? x =
      (Variables.bindAll before m.env.vars).2[x]? := by
  rw [callFunction_run callBody hentry hbody]
  simp only [Environment.get?, EvalM.released, hzip]
  exact Variables.getElem?_restoreAll_last hx v m.env.vars _

theorem map_fst_zip_take (params : List String) (args : List Value) :
    (params.zip args).map Prod.fst = params.take args.length := by
  rw [List.zip_eq_zip_take_min, List.map_fst_zip (by simp), List.take_eq_take_min]
  simp [Nat.min_comm]

/-- A name among those of some bindings, with its last occurrence set apart. -/
theorem exists_last_binding {bindings : List (String × Value)} {x : String}
    (hx : x ∈ bindings.map Prod.fst) :
    ∃ before v after, bindings = before ++ (x, v) :: after ∧ x ∉ after.map Prod.fst := by
  induction bindings with
  | nil => cases hx
  | cons binding rest ih =>
    by_cases hrest : x ∈ rest.map Prod.fst
    · obtain ⟨before, v, after, rfl, hafter⟩ := ih hrest
      exact ⟨binding :: before, v, after, rfl, hafter⟩
    · obtain rfl : x = binding.1 := by simpa [hrest] using hx
      exact ⟨[], binding.2, rest, rfl, hrest⟩

/-- Parameters that are distinct are as they were before the call. -/
theorem callFunction_restores (hentry : m.env.functions[name]? = some entry)
    (hbody : entry.body = some body) (hdistinct : entry.params.Nodup) {args : List Value} {x : String}
    (hx : x ∈ entry.params.take args.length) :
    (callFunction callBody name args m).2.env.get? x = m.env.get? x := by
  rw [← map_fst_zip_take] at hx
  obtain ⟨before, v, after, hzip, hafter⟩ := exists_last_binding hx
  have hbefore : x ∉ before.map Prod.fst := by
    have hnodup := nodup_fst_zip hdistinct args
    rw [hzip, List.map_append, List.map_cons] at hnodup
    intro hmem
    exact (List.nodup_append.mp hnodup).2.2 x hmem x List.mem_cons_self rfl
  rw [callFunction_get? hentry hbody hzip hafter, Variables.getElem?_bindAll_of_not_mem hbefore]
  rfl

/-- Of parameters that are not distinct, one is bound after a call although it was not bound before. -/
theorem callFunction_leaves_binding (callBody : List Expr → EvalM σ (Option Value))
    (hentry : m.env.functions[name]? = some entry) (hbody : entry.body = some body)
    (hrepeated : ¬entry.params.Nodup) {args : List Value}
    (hargs : args.length = entry.params.length) :
    ∃ x ∈ entry.params, ((callFunction callBody name args m).2.env.get? x).isSome := by
  obtain ⟨x, hx⟩ := List.exists_duplicate_iff_not_nodup.mpr hrepeated
  have hnames : (entry.params.zip args).map Prod.fst = entry.params := by
    rw [map_fst_zip_take, hargs, List.take_length]
  have hmem : x ∈ (entry.params.zip args).map Prod.fst := by
    rw [hnames]
    exact hx.mem
  obtain ⟨before, v, after, hzip, hafter⟩ := exists_last_binding hmem
  have hbefore : x ∈ before.map Prod.fst := by
    by_contra hnot
    have hcount := List.duplicate_iff_two_le_count.mp hx
    rw [← hnames, hzip, List.map_append, List.map_cons, List.count_append, List.count_cons_self,
      List.count_eq_zero_of_not_mem hnot, List.count_eq_zero_of_not_mem hafter] at hcount
    omega
  refine ⟨x, hx.mem, ?_⟩
  rw [callFunction_get? hentry hbody hzip hafter]
  exact Variables.isSome_bindAll_of_mem hbefore m.env.vars

end

/-- Whether calls leave their parameters as they were depends on the parameters alone. For every function
with these parameters and an attached body, every environment and all arguments, a call gives each
parameter that received an argument the binding, or the lack of one, that it had before, exactly if no
parameter is listed twice. -/
theorem parameters_restored_iff {σ : Type} [Host σ] (ctx : Context σ) (fuel : Nat) (host : σ)
    (params : List String) :
    (∀ (m : Machine σ) (name : String) (entry : FunctionEntry) (body : List Expr) (args : List Value),
      m.env.functions[name]? = some entry → entry.params = params → entry.body = some body →
      ∀ x ∈ params.take args.length,
        (callFunction (runBody ctx fuel) name args m).2.env.get? x = m.env.get? x) ↔ params.Nodup := by
  constructor
  · intro hrestored
    by_contra hrepeated
    let entry : FunctionEntry := ⟨params, some []⟩
    let m : Machine σ := ⟨{ functions := (∅ : FunctionTable).insert "f" entry }, { host }⟩
    let args : List Value := List.replicate params.length (.boolean true)
    have hentry : m.env.functions["f"]? = some entry := Std.ExtTreeMap.getElem?_insert_self
    have hargs : args.length = entry.params.length := List.length_replicate
    have hall : params.take args.length = params := by
      rw [hargs]
      exact List.take_length
    obtain ⟨x, hx, hbound⟩ :=
      callFunction_leaves_binding (runBody ctx fuel) hentry rfl hrepeated hargs
    have hunbound := hrestored m "f" entry [] args hentry rfl rfl x (hall.symm ▸ hx)
    rw [hunbound] at hbound
    simp [m, Environment.get?] at hbound
  · rintro hdistinct m name entry body args hentry rfl hbody x hx
    exact callFunction_restores hentry hbody hdistinct hx

/-- A function with a parameter that is listed twice is accepted, and after a call of it the variable of
that name holds the first argument. -/
theorem repeated_parameter_overwrites :
    (evaluateOnce 2 ()
      "let a = \"outer\"; function f(a, a) { return true; } f(\"first\", \"second\"); a;").toOption =
      some (.text "first") := by
  decide +kernel

end HostScript
