import HostScript.Proofs.Evaluation.Contract
import HostScript.Proofs.Evaluation.Simulation
import HostScript.Proofs.Expr.Accounting
import HostScript.Proofs.Token.Calls
import HostScript.Proofs.TokenTree

/-!
# Scripts that compile

A source text is scanned, grouped and parsed. In what comes out, every call names a built-in or a
function that the script defines. While the script runs, bodies are attached to its functions, and its
table never becomes anything else than the parsed one with bodies of its own definitions.
-/
namespace HostScript

/-- What a source text is parsed to where the listed names are those of built-ins. -/
def parseSource (builtins : List String) (source : String) : Except ParseError Parsed :=
  parse (group (tokenize builtins source).tokens)

theorem Expr.headings_pos_iff {t : Token} {es : List Expr} :
    0 < Expr.headings t es ↔ ∃ e ∈ es, e.heading? = some t := by
  rw [Expr.headings, List.count_pos_iff, List.mem_filterMap]

/-- A token that heads a call or a definition stands in the source exactly if a construct begins with
it. -/
theorem parseSource_heading {builtins : List String} {source : String} {parsed : Parsed}
    (h : parseSource builtins source = .ok parsed) {t : Token} (ht : t.kind.heads) :
    t ∈ (tokenize builtins source).tokens ↔
      ∃ e ∈ Expr.nodesAll parsed.expressions, e.heading? = some t := by
  have hsemicolon : t.kind ≠ .semicolon := by
    intro hkind
    rw [hkind] at ht
    cases ht
  rw [← Expr.headings_pos_iff, ← parse_headings h ht, group_count hsemicolon, List.count_pos_iff]

/-- Every call of a parsed script, at any depth, names a built-in or a function of the script. -/
theorem parseSource_call {builtins : List String} {source : String} {parsed : Parsed}
    (h : parseSource builtins source = .ok parsed) {name : String} {arguments : List Expr}
    (hcall : .call name arguments ∈ Expr.nodesAll parsed.expressions) :
    name ∈ builtins ∨ name ∈ parsed.functions := by
  have htoken : ⟨.call, name⟩ ∈ (tokenize builtins source).tokens :=
    (parseSource_heading h rfl).mpr ⟨_, hcall, rfl⟩
  refine (tokenize_call htoken rfl).imp_right fun hheader => ?_
  obtain ⟨e, he, hheading⟩ := (parseSource_heading h rfl).mp hheader
  cases e with
  | define other body =>
    cases hheading
    obtain ⟨params, hentry⟩ := parse_finds h name body he
    exact Std.ExtTreeMap.mem_iff_isSome_getElem?.mpr (by rw [hentry]; rfl)
  | _ => cases hheading

/-- Tables that the functions of a parsed script can grow into. The functions and their parameters stay
the same, and every body is that of a definition of the script. -/
structure Parsed.GrowsTo (parsed : Parsed) (T : FunctionTable) : Prop where
  below : parsed.functions.Below T
  bodies : ∀ (name : String) (entry : FunctionEntry) (body : List Expr), T[name]? = some entry →
    entry.body = some body → .define name body ∈ Expr.nodesAll parsed.expressions

theorem FunctionTable.Below.refl (T : FunctionTable) : T.Below T := by
  intro name
  cases T[name]? with
  | none => exact .none
  | some entry => exact .some (.refl entry)

theorem FunctionTable.Below.mem_iff {T U : FunctionTable} (h : T.Below U) (name : String) :
    name ∈ T ↔ name ∈ U := by
  have hname := h name
  rw [Std.ExtTreeMap.mem_iff_isSome_getElem?, Std.ExtTreeMap.mem_iff_isSome_getElem?]
  revert hname
  generalize T[name]? = a, U[name]? = b
  rintro (_ | _)
  · exact Iff.rfl
  · exact Iff.rfl

namespace Parsed.GrowsTo

variable {builtins : List String} {source : String} {parsed : Parsed}
  (h : parseSource builtins source = .ok parsed)

include h

theorem start : parsed.GrowsTo parsed.functions where
  below := .refl _
  bodies name entry body hentry hbody := by
    rw [parse_bodyless h name entry hentry] at hbody
    cases hbody

theorem attached {T : FunctionTable} (hT : parsed.GrowsTo T) {name : String} {body : List Expr}
    (hdefine : .define name body ∈ Expr.nodesAll parsed.expressions) :
    parsed.GrowsTo (T.attached name body) where
  below other := by
    rw [FunctionTable.attached, Std.ExtTreeMap.getElem?_insert]
    split
    · rename_i heq
      obtain rfl := Std.LawfulEqCmp.eq_of_compare heq
      obtain ⟨params, hfound⟩ := parse_finds h name body hdefine
      have hname := hT.below name
      rw [hfound] at hname ⊢
      rw [Std.ExtTreeMap.getD_eq_getD_getElem?]
      revert hname
      cases T[name]? with
      | none => exact nofun
      | some entry =>
        rintro ⟨hentry⟩
        exact .some ⟨hentry.params, nofun⟩
    · exact hT.below other
  bodies other entry found hentry hfound := by
    rw [FunctionTable.attached, Std.ExtTreeMap.getElem?_insert] at hentry
    split at hentry
    · rename_i heq
      obtain rfl := Std.LawfulEqCmp.eq_of_compare heq
      cases hentry
      cases hfound
      exact hdefine
    · exact hT.bodies other entry found hentry hfound

end Parsed.GrowsTo

theorem Registry.mem_names {σ : Type} {registry : Registry σ} {name : String} :
    name ∈ registry.names ↔ name ∈ registry := Std.ExtTreeMap.mem_keys

/-- A call of a registered built-in answers that a function of this name is undefined, and leaves the
world as given. -/
def Registry.Denies {σ : Type} (registry : Registry σ) (name : String) (left : World σ) : Prop :=
  ∃ (other : String) (b : Builtin σ) (args : List Value) (w : World σ), registry[other]? = some b ∧
    b.call other args w = (.error (.undefinedReference .function name), left)

/-- What a run of a parsed script keeps to: it evaluates constructs of the script only, the table stays
one that the functions can grow into, and no function turns out to be undefined unless a built-in says
so. -/
def Parsed.contract {σ : Type} (ctx : Context σ) (source : String) (parsed : Parsed)
    (h : parseSource ctx.builtins.names source = .ok parsed) : Contract ctx where
  code n := n ∈ Expr.nodesAll parsed.expressions
  table := parsed.GrowsTo
  stops stop w :=
    ∀ name, stop = .failed (.undefinedReference .function name) → ctx.builtins.Denies name w
  attach _ _ _ hT hdefine := hT.attached h hdefine
  body T name entry body hT hentry hbody n hn := by
    obtain ⟨e, he, hdefine⟩ := Expr.mem_nodesAll.mp (hT.bodies name entry body hentry hbody)
    refine Expr.mem_nodesAll.mpr ⟨e, he, Expr.mem_nodes_trans ?_ hdefine⟩
    exact List.mem_cons_of_mem _ hn
  missing T name arguments hT hcall hbuiltin hmissing := by
    exfalso
    rcases parseSource_call h hcall with hname | hname
    · rw [Registry.mem_names, Std.ExtTreeMap.mem_iff_isSome_getElem?, hbuiltin] at hname
      cases hname
    · rw [hT.below.mem_iff, Std.ExtTreeMap.mem_iff_isSome_getElem?, hmissing] at hname
      cases hname
  builtin b other args w _ error hb herror name hname := by
    cases hname
    exact ⟨other, b, args, w, hb, herror⟩
  other stop hstop _ name hname := absurd hname (hstop name)

end HostScript
