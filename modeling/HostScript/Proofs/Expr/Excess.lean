import HostScript.Proofs.Expr.Printer
import HostScript.Proofs.Expr.Traversal

/-!
# Limits that are exceeded

A call has at most 30 arguments, a function at most 30 parameters and a body at most 64 statements.
`Expr.excess?` is the error for the first of these limits that an expression exceeds in the order of
reading. It is an error if and only if a construct somewhere in the expression has too many members, and
then it is the error for such a construct.
-/
namespace HostScript

mutual

/-- The error for the first limit that an expression exceeds, where `T` has the parameters of the
functions. -/
def Expr.excess? (T : FunctionTable) : Expr → Option ParseError
  | .binary _ left right | .write left _ right => (left.excess? T).or (right.excess? T)
  | .ternary condition yes no => (condition.excess? T).or ((yes.excess? T).or (no.excess? T))
  | .call _ arguments => listExcess? T (.missingDelimiter ')' .functionCall) listLimit arguments
  | .define name body =>
    (if (T.paramsOf name).length ≤ listLimit then none
      else some (.missingDelimiter ')' .functionDefinition)).or
      (listExcess? T (.bodyTooLong bodyLimit) bodyLimit body)
  | .forLoop init condition step body =>
    (init.excess? T).or ((condition.excess? T).or
      ((step.excess? T).or (listExcess? T (.bodyTooLong bodyLimit) bodyLimit body)))
  | .whileLoop condition body =>
    (condition.excess? T).or (listExcess? T (.bodyTooLong bodyLimit) bodyLimit body)
  | .block body => listExcess? T (.bodyTooLong bodyLimit) bodyLimit body
  | .letBinding _ value | .assign _ value | .compound _ _ value | .returns value | .access value _ =>
    value.excess? T
  | _ => none

/-- The error for the first limit that a list exceeds, of which `allowance` members are read. Behind them
stands the error for the length of the list. -/
def listExcess? (T : FunctionTable) (error : ParseError) : Nat → List Expr → Option ParseError
  | _, [] => none
  | 0, _ :: _ => some error
  | allowance + 1, e :: es => (e.excess? T).or (listExcess? T error allowance es)

end

/-- The error for the first limit that a script exceeds. The script itself may have any length. -/
def scriptExcess? (T : FunctionTable) (es : List Expr) : Option ParseError :=
  es.findSome? (Expr.excess? T)

theorem scriptExcess?_cons (T : FunctionTable) (e : Expr) (es : List Expr) :
    scriptExcess? T (e :: es) = (e.excess? T).or (scriptExcess? T es) := by
  cases hexcess : e.excess? T with
  | none => simp [scriptExcess?, hexcess]
  | some error => simp [scriptExcess?, hexcess]

theorem Expr.excess?_accessChain (T : FunctionTable) (e : Expr) (ms : List Token) :
    (accessChain e ms).excess? T = e.excess? T := by
  induction ms generalizing e with
  | nil => rfl
  | cons m ms ih => exact ih (.access e m.text)

@[simp] theorem listExcess?_nil (T : FunctionTable) (error : ParseError) (allowance : Nat) :
    listExcess? T error allowance [] = none := by
  cases allowance with
  | zero => rfl
  | succ allowance => rfl

/-- The limits that a construct exceeds itself, each given by its error. -/
inductive Expr.Exceeds (T : FunctionTable) : Expr → ParseError → Prop where
  | arguments {name arguments} (h : 30 < arguments.length) :
    Exceeds T (.call name arguments) (.missingDelimiter ')' .functionCall)
  | parameters {name body} (h : 30 < (T.paramsOf name).length) :
    Exceeds T (.define name body) (.missingDelimiter ')' .functionDefinition)
  | body {e body} (hbody : e.body? = some body) (h : 64 < body.length) : Exceeds T e (.bodyTooLong 64)

/-- An error that is one for the listed constructs, if they exceed a limit at all. -/
def Reports (T : FunctionTable) (ns : List Expr) : Option ParseError → Prop
  | none => ∀ n ∈ ns, ∀ error, ¬n.Exceeds T error
  | some error => ∃ n ∈ ns, n.Exceeds T error

namespace Reports

variable {T : FunctionTable} {ns ms : List Expr} {x y : Option ParseError} {e : Expr}

theorem congr (h : Reports T ns x) (hmem : ∀ n, n ∈ ns ↔ n ∈ ms) : Reports T ms x := by
  cases x with
  | none => exact fun n hn => h n ((hmem n).mpr hn)
  | some error =>
    obtain ⟨n, hn, hexceeds⟩ := h
    exact ⟨n, (hmem n).mp hn, hexceeds⟩

theorem or (h : Reports T ns x) (h' : Reports T ms y) : Reports T (ns ++ ms) (x.or y) := by
  cases x with
  | some error =>
    obtain ⟨n, hn, hexceeds⟩ := h
    exact ⟨n, List.mem_append_left ms hn, hexceeds⟩
  | none =>
    cases y with
    | none => exact List.forall_mem_append.mpr ⟨h, h'⟩
    | some error =>
      obtain ⟨n, hn, hexceeds⟩ := h'
      exact ⟨n, List.mem_append_right ns hn, hexceeds⟩

/-- A construct without limits of its own. -/
theorem cons (h : Reports T ns x) (he : ∀ error, ¬e.Exceeds T error) : Reports T (e :: ns) x := by
  have hnone : Reports T [e] none := List.forall_mem_singleton.mpr he
  exact hnone.or h

theorem list {error : ParseError} {allowance : Nat} {es : List Expr}
    (hes : ∀ e ∈ es, Reports T e.nodes (e.excess? T)) (hlong : allowance < es.length → e.Exceeds T error)
    (hshort : es.length ≤ allowance → ∀ other, ¬e.Exceeds T other) :
    Reports T (e :: Expr.nodesAll es) (listExcess? T error allowance es) := by
  induction es generalizing allowance with
  | nil =>
    rw [listExcess?_nil]
    exact List.forall_mem_singleton.mpr (hshort (Nat.zero_le _))
  | cons first es ih =>
    cases allowance with
    | zero => exact ⟨e, List.mem_cons_self, hlong (Nat.succ_pos _)⟩
    | succ allowance =>
      have hrest := ih (fun e he => hes e (List.mem_cons_of_mem first he))
        (fun hlt => hlong (Nat.succ_lt_succ hlt)) (fun hle => hshort (Nat.succ_le_succ hle))
      exact ((hes first List.mem_cons_self).or hrest).congr (by simp [or_left_comm])

end Reports

/-- Whether a construct keeps the limits for its own arguments, parameters and body. -/
def Expr.KeepsLimits (T : FunctionTable) : Expr → Prop
  | .call _ arguments => arguments.length ≤ 30
  | .define name body => (T.paramsOf name).length ≤ 30 ∧ body.length ≤ 64
  | .forLoop _ _ _ body | .whileLoop _ body | .block body => body.length ≤ 64
  | _ => True

theorem Expr.KeepsLimits.not_exceeds {T : FunctionTable} {e : Expr} (h : e.KeepsLimits T)
    (error : ParseError) : ¬e.Exceeds T error := by
  intro hexceeds
  cases hexceeds with
  | arguments hlt => exact absurd hlt (Nat.not_lt_of_le h)
  | parameters hlt => exact absurd hlt (Nat.not_lt_of_le h.1)
  | body hbody hlt =>
    cases e with
    | define name body =>
      cases hbody
      exact absurd hlt (Nat.not_lt_of_le h.2)
    | forLoop | whileLoop | block =>
      cases hbody
      exact absurd hlt (Nat.not_lt_of_le h)
    | _ => cases hbody

theorem Expr.not_exceeds_var {T : FunctionTable} {name : String} (error : ParseError) :
    ¬(Expr.var name).Exceeds T error := by
  have hvar : (Expr.var name).KeepsLimits T := trivial
  exact hvar.not_exceeds error

/-- The error for the first limit that is exceeded is the error for one of them. -/
theorem Expr.excess?_reports (T : FunctionTable) (e : Expr) : Reports T e.nodes (e.excess? T) := by
  have plain {e : Expr} (h : e.KeepsLimits T) : ∀ error, ¬e.Exceeds T error := h.not_exceeds
  induction e using Expr.induction with
  | step e ih =>
    cases e with
    | literal | query | var | namespaceName | usingName | importName =>
      exact List.forall_mem_singleton.mpr (plain trivial)
    | letBinding name value | assign name value | compound name op value | returns value
    | access value member =>
      have hvalue := ih value (by simp [Expr.parts])
      exact hvalue.cons (plain trivial)
    | binary op left right | write left member right =>
      have hleft := ih left (by simp [Expr.parts])
      have hright := ih right (by simp [Expr.parts])
      exact (hleft.or hright).cons (plain trivial)
    | ternary condition yes no =>
      have hcondition := ih condition (by simp [Expr.parts])
      have hyes := ih yes (by simp [Expr.parts])
      have hno := ih no (by simp [Expr.parts])
      rw [Expr.nodes, List.append_assoc]
      exact (hcondition.or (hyes.or hno)).cons (plain trivial)
    | call name arguments => exact Reports.list ih .arguments fun hle => plain hle
    | define name body =>
      rw [Expr.excess?]
      by_cases hle : (T.paramsOf name).length ≤ listLimit
      · rw [if_pos hle, Option.none_or]
        exact Reports.list ih (.body rfl) fun hbody => plain ⟨hle, hbody⟩
      · rw [if_neg hle]
        exact ⟨_, List.mem_cons_self, .parameters (Nat.lt_of_not_le hle)⟩
    | forLoop init condition step body =>
      have hinit := ih init (by simp [Expr.parts])
      have hcondition := ih condition (by simp [Expr.parts])
      have hstep := ih step (by simp [Expr.parts])
      have hbody := Reports.list (e := .forLoop init condition step body)
        (fun p hp => ih p (by simp [Expr.parts, hp])) (.body rfl) fun hle => plain hle
      refine (hinit.or (hcondition.or (hstep.or hbody))).congr fun n => ?_
      simp only [Expr.nodes, List.mem_append, List.mem_cons]
      tauto
    | whileLoop condition body =>
      have hcondition := ih condition (by simp [Expr.parts])
      have hbody := Reports.list (e := .whileLoop condition body)
        (fun p hp => ih p (by simp [Expr.parts, hp])) (.body rfl) fun hle => plain hle
      refine (hcondition.or hbody).congr fun n => ?_
      simp only [Expr.nodes, List.mem_append, List.mem_cons]
      tauto
    | block body => exact Reports.list ih (.body rfl) fun hle => plain hle

theorem scriptExcess?_reports (T : FunctionTable) (es : List Expr) :
    Reports T (Expr.nodesAll es) (scriptExcess? T es) := by
  induction es with
  | nil => exact nofun
  | cons e es ih =>
    rw [scriptExcess?_cons]
    exact (e.excess?_reports T).or ih

end HostScript
