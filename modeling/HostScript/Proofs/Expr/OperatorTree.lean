import Mathlib.Tactic.ByContra
import HostScript.Expr.Parser

/-!
# Chains of operators and their trees

Operands that are joined by operators can be arranged in a tree in many ways. In one of them, and in one
only, precedence grows towards the operands and operators of the same precedence associate to the left.
Precedence climbing finds it: it reads a chain from the left, and each operator takes as its right operand
all that is joined more tightly than by itself.
-/
namespace HostScript

/-- Operands with operators between them: the first operand, and each later one with the operator in front
of it. -/
@[ext] structure Chain (α : Type) where
  first : α
  rest : List (Operator × α)
deriving Repr, DecidableEq

/-- A binary tree of operators over operands that are not looked into. -/
inductive OperatorTree (α : Type) where
  | operand (a : α)
  | node (op : Operator) (left right : OperatorTree α)
deriving Repr, DecidableEq

namespace OperatorTree

variable {α : Type}

def inorder : OperatorTree α → Chain α
  | operand a => ⟨a, []⟩
  | node op left right =>
    ⟨left.inorder.first, left.inorder.rest ++ (op, right.inorder.first) :: right.inorder.rest⟩

def root? : OperatorTree α → Option Operator
  | operand _ => none
  | node op _ _ => some op

/-- Trees in which a left child that is no operand binds at least as tightly as its parent, and a right
child that is no operand binds more tightly. -/
def Graded : OperatorTree α → Prop
  | operand _ => True
  | node op left right =>
    left.Graded ∧ right.Graded ∧ (∀ o ∈ left.root?, op.precedence ≤ o.precedence) ∧
      ∀ o ∈ right.root?, op.precedence < o.precedence

/-- A graded tree whose operands and operators, from left to right, are those of a chain. -/
structure Arranges (t : OperatorTree α) (c : Chain α) : Prop where
  graded : t.Graded
  inorder : t.inorder = c

/-- In a graded tree no operator binds less tightly than the root. -/
theorem Graded.le_of_mem {t : OperatorTree α} (h : t.Graded) {n : Nat}
    (hroot : ∀ o ∈ t.root?, n ≤ o.precedence) {p : Operator × α} (hp : p ∈ t.inorder.rest) :
    n ≤ p.1.precedence := by
  induction t with
  | operand a => cases hp
  | node op left right ihleft ihright =>
    obtain ⟨hleft, hright, hlefts, hrights⟩ := h
    have hop : n ≤ op.precedence := hroot op rfl
    simp only [inorder, List.mem_append, List.mem_cons] at hp
    rcases hp with hp | rfl | hp
    · exact ihleft hleft (fun o ho => Nat.le_trans hop (hlefts o ho)) hp
    · exact hop
    · exact ihright hright (fun o ho => Nat.le_trans hop (Nat.le_of_lt (hrights o ho))) hp

/-- The root of a graded tree cannot stand in the left child of another one with the same chain. -/
theorem Graded.left_not_longer {op op' : Operator} {left right left' right' : OperatorTree α}
    (h : (node op left right).Graded) (h' : (node op' left' right').Graded)
    {between : List (Operator × α)} (hleft : left'.inorder.rest = left.inorder.rest ++ between)
    (hright : (op, right.inorder.first) :: right.inorder.rest =
      between ++ (op', right'.inorder.first) :: right'.inorder.rest) : between = [] := by
  cases between with
  | nil => rfl
  | cons p between =>
    obtain ⟨rfl, hrest⟩ := List.cons.inj hright
    have hle : op'.precedence ≤ op.precedence :=
      h'.1.le_of_mem h'.2.2.1 (p := (op, right.inorder.first)) (by simp [hleft])
    have hlt : op.precedence + 1 ≤ op'.precedence :=
      h.2.1.le_of_mem h.2.2.2 (p := (op', right'.inorder.first)) (by simp [hrest])
    omega

/-- There is at most one graded tree for a chain. -/
theorem Graded.eq_of_inorder_eq {t u : OperatorTree α} (ht : t.Graded) (hu : u.Graded)
    (h : t.inorder = u.inorder) : t = u := by
  induction t generalizing u with
  | operand a =>
    cases u with
    | operand b => simpa [inorder] using h
    | node op left right => simp [inorder] at h
  | node op left right ihleft ihright =>
    cases u with
    | operand b => simp [inorder] at h
    | node op' left' right' =>
      simp only [inorder, Chain.mk.injEq] at h
      obtain ⟨hfirst, hrest⟩ := h
      have hlefts : left.inorder.rest = left'.inorder.rest ∧
          (op, right.inorder.first) :: right.inorder.rest =
            (op', right'.inorder.first) :: right'.inorder.rest := by
        rcases List.append_eq_append_iff.mp hrest with ⟨between, hleft, hright⟩ | ⟨between, hleft, hright⟩
        · obtain rfl := ht.left_not_longer hu hleft hright
          exact ⟨by simpa using hleft.symm, by simpa using hright⟩
        · obtain rfl := hu.left_not_longer ht hleft hright
          exact ⟨by simpa using hleft, by simpa using hright.symm⟩
      obtain ⟨hleft, hright⟩ := hlefts
      simp only [List.cons.injEq, Prod.mk.injEq] at hright
      obtain ⟨⟨rfl, hright⟩, hrights⟩ := hright
      rw [ihleft ht.1 hu.1 (Chain.ext hfirst hleft), ihright ht.2.1 hu.2.1 (Chain.ext hright hrights)]

end OperatorTree

/-- Precedence climbing on a chain. From the tree `t`, with `rest` still to be read, operators that bind at
least as tightly as `strength` are joined until the tree `u` is complete and the second list is left. -/
inductive Climbs {α : Type} : Nat → OperatorTree α → List (Operator × α) → OperatorTree α →
    List (Operator × α) → Prop where
  | stop {strength t rest} (h : ∀ p ∈ rest.head?, p.1.precedence < strength) :
    Climbs strength t rest t rest
  | join {strength op a t right u rest rest₁ rest₂} (hop : strength ≤ op.precedence)
    (hright : Climbs (op.precedence + 1) (.operand a) rest right rest₁)
    (hmore : Climbs strength (.node op t right) rest₁ u rest₂) :
    Climbs strength t ((op, a) :: rest) u rest₂

namespace Climbs

variable {α : Type} {strength : Nat} {t u : OperatorTree α} {rest rest' : List (Operator × α)}

/-- What is left is the end of the chain, and what was read is appended to the tree. -/
theorem taken (h : Climbs strength t rest u rest') :
    ∃ taken, rest = taken ++ rest' ∧ u.inorder = ⟨t.inorder.first, t.inorder.rest ++ taken⟩ := by
  induction h with
  | stop => exact ⟨[], rfl, by simp⟩
  | @join strength op a t right u rest rest₁ rest₂ _ _ _ ihright ihmore =>
    obtain ⟨taken, rfl, hright⟩ := ihright
    obtain ⟨more, rfl, hmore⟩ := ihmore
    refine ⟨(op, a) :: taken ++ more, by simp, ?_⟩
    simp only [OperatorTree.inorder] at hmore hright
    rw [hmore, hright]
    simp

/-- Climbing stops at an operator that binds too weakly. -/
theorem left_lt (h : Climbs strength t rest u rest') : ∀ p ∈ rest'.head?, p.1.precedence < strength := by
  induction h with
  | stop h => exact h
  | join _ _ _ _ ihmore => exact ihmore

/-- Climbing keeps a tree graded if the next operator does not bind more tightly than its root. That is so
after each step, since the operators that do belong to the right operand. -/
theorem graded (h : Climbs strength t rest u rest') (ht : t.Graded)
    (hroot : ∀ o ∈ t.root?, strength ≤ o.precedence ∧ ∀ p ∈ rest.head?, p.1.precedence ≤ o.precedence) :
    u.Graded ∧ ∀ o ∈ u.root?, strength ≤ o.precedence := by
  induction h with
  | stop => exact ⟨ht, fun o ho => (hroot o ho).1⟩
  | @join strength op a t right u rest rest₁ rest₂ hop hright hmore ihright ihmore =>
    obtain ⟨hgraded, hrights⟩ := ihright trivial (by simp [OperatorTree.root?])
    refine ihmore ⟨ht, hgraded, fun o ho => (hroot o ho).2 _ rfl, hrights⟩ fun o ho => ?_
    obtain rfl : op = o := by simpa [OperatorTree.root?] using ho
    exact ⟨hop, fun p hp => Nat.le_of_lt_succ (hright.left_lt p hp)⟩

/-- A chain whose operators all bind tightly enough is read to its end. -/
theorem eq_nil (h : Climbs strength t rest u rest') (hall : ∀ p ∈ rest, strength ≤ p.1.precedence) :
    rest' = [] := by
  obtain ⟨taken, rfl, _⟩ := h.taken
  cases rest' with
  | nil => rfl
  | cons p rest' =>
    have hweak := h.left_lt p rfl
    have htight := hall p (by simp)
    omega

end Climbs

/-- Climbing always comes to an end. -/
theorem exists_climbs {α : Type} (strength : Nat) (t : OperatorTree α) (rest : List (Operator × α)) :
    ∃ u rest', Climbs strength t rest u rest' := by
  induction hn : rest.length using Nat.strongRecOn generalizing strength t rest with
  | ind n ih =>
    match rest with
    | [] => exact ⟨t, [], .stop nofun⟩
    | (op, a) :: rest =>
      by_cases hop : strength ≤ op.precedence
      · subst hn
        obtain ⟨right, rest₁, hright⟩ := ih rest.length (Nat.lt_succ_self _) (op.precedence + 1) (.operand a)
          rest rfl
        obtain ⟨taken, rfl, _⟩ := hright.taken
        have hshorter : rest₁.length < ((op, a) :: (taken ++ rest₁)).length := by
          rw [List.length_cons, List.length_append]
          omega
        obtain ⟨u, rest₂, hmore⟩ := ih rest₁.length hshorter strength (.node op t right) rest₁ rfl
        exact ⟨u, rest₂, .join hop hright hmore⟩
      · refine ⟨t, (op, a) :: rest, .stop fun p hp => ?_⟩
        cases hp
        exact Nat.lt_of_not_le hop

/-- Climbing arranges a chain whose operators all bind tightly enough. -/
theorem exists_climbs_arranges {α : Type} {strength : Nat} {c : Chain α}
    (hall : ∀ p ∈ c.rest, strength ≤ p.1.precedence) :
    ∃ u, Climbs strength (.operand c.first) c.rest u [] ∧ u.Arranges c := by
  obtain ⟨u, rest', h⟩ := exists_climbs strength (.operand c.first) c.rest
  obtain rfl := h.eq_nil hall
  obtain ⟨taken, htaken, hinorder⟩ := h.taken
  obtain ⟨hgraded, _⟩ := h.graded trivial (by simp [OperatorTree.root?])
  refine ⟨u, h, hgraded, ?_⟩
  rw [hinorder, OperatorTree.inorder]
  simp only [List.append_nil] at htaken
  rw [← htaken]
  rfl

namespace Chain

variable {α : Type}

/-- A chain with operands in front, each followed by an operator. -/
def prepend (before : List (α × Operator)) (c : Chain α) : Chain α :=
  before.foldr (fun p c => ⟨p.1, (p.2, c.first) :: c.rest⟩) c

/-- Chains in which every operator binds more tightly than the ternary. -/
def Tight (c : Chain α) : Prop := ∀ p ∈ c.rest, ternaryPrecedence < p.1.precedence

example (op : Operator) :
    ternaryPrecedence < op.precedence ↔ op = .less ∨ op = .greater ∨ op = .pow := by
  cases op <;> decide

/-- The longest end of a chain in which every operator binds more tightly than the ternary, and what
stands before it. -/
structure TightEnd (c : Chain α) (before : List (α × Operator)) (suffix : Chain α) : Prop where
  split : c = suffix.prepend before
  tight : suffix.Tight
  longest : ∀ before' suffix', c = prepend before' suffix' → suffix'.Tight → before.length ≤ before'.length

theorem exists_tightEnd (c : Chain α) : ∃ before suffix, c.TightEnd before suffix := by
  obtain ⟨a, rest⟩ := c
  induction rest generalizing a with
  | nil => exact ⟨[], ⟨a, []⟩, rfl, nofun, fun _ _ _ _ => Nat.zero_le _⟩
  | cons p rest ih =>
    obtain ⟨op, b⟩ := p
    by_cases htight : Tight ⟨a, (op, b) :: rest⟩
    · exact ⟨[], _, rfl, htight, fun _ _ _ _ => Nat.zero_le _⟩
    · obtain ⟨before, suffix, hsplit, htight', hlongest⟩ := ih b
      refine ⟨(a, op) :: before, suffix, ?_, htight', fun before' suffix' hsplit' hsuffix' => ?_⟩
      · rw [prepend, List.foldr_cons, ← prepend, ← hsplit]
      · cases before' with
        | nil =>
          rw [hsplit'] at htight
          exact absurd hsuffix' htight
        | cons p before' =>
          rw [prepend, List.foldr_cons, ← prepend, Chain.mk.injEq, List.cons.injEq, Prod.mk.injEq] at hsplit'
          obtain ⟨_, ⟨_, hfirst⟩, hrest⟩ := hsplit'
          exact Nat.succ_le_succ (hlongest before' suffix' (Chain.ext hfirst hrest) hsuffix')

/-- The operator before the tight end of a chain binds more weakly than the ternary. -/
theorem TightEnd.weak {before : List (α × Operator)} {c suffix : Chain α} (h : c.TightEnd before suffix) :
    ∀ p ∈ before.getLast?, p.2.precedence < ternaryPrecedence := by
  intro p hp
  obtain ⟨before, rfl⟩ := List.getLast?_eq_some_iff.mp hp
  by_contra hop
  have hne : p.2.precedence ≠ ternaryPrecedence := by cases p.2 <;> decide
  have hsuffix : Tight ⟨p.1, (p.2, suffix.first) :: suffix.rest⟩ := by
    intro q hq
    rcases List.mem_cons.mp hq with rfl | hq
    · exact Nat.lt_of_le_of_ne (Nat.le_of_not_lt hop) (Ne.symm hne)
    · exact h.tight q hq
  have hlonger := h.longest before _ (h.split.trans List.foldr_append) hsuffix
  rw [List.length_append, List.length_singleton] at hlonger
  omega

end Chain

end HostScript
