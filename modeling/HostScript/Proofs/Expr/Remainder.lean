import HostScript.Proofs.Expr.ParserStep
import HostScript.Proofs.TokenTree

/-!
# What is left to read

A parser state is seen as the list of the statements that are left in it, whether they are kept in a list or
in a queue of trees. Taking the next statement out of the queue takes the first one off that list, so the
regions of a tree make no difference. The size of a state bounds what can still be read.
-/
namespace HostScript

namespace TokenTree

mutual

/-- Taking the first statement of a tree leaves the other ones, in order. -/
theorem statements_eq_uncons? (tree : TokenTree) :
    tree.statements = match tree.uncons? with
      | some (first, rest) => first :: statementsAll rest
      | none => [] := by
  cases tree with
  | statement tokens => rfl
  | scope children =>
    rw [statements, uncons?]
    exact statementsAll_eq_unconsAll? children

/-- Taking the first statement of several trees leaves the other ones, in order. -/
theorem statementsAll_eq_unconsAll? (trees : List TokenTree) :
    statementsAll trees = match unconsAll? trees with
      | some (first, rest) => first :: statementsAll rest
      | none => [] := by
  cases trees with
  | nil => rfl
  | cons tree rest =>
    have htree := statements_eq_uncons? tree
    rw [statementsAll, unconsAll?, htree]
    cases tree.uncons? with
    | some p => simp
    | none => exact statementsAll_eq_unconsAll? rest

end

@[simp] theorem statementsAll_map_statement (statements : List (List Token)) :
    statementsAll (statements.map .statement) = statements := by
  induction statements with
  | nil => rfl
  | cons statement rest ih => simp [statementsAll, TokenTree.statements, ih]

end TokenTree

def TreeQueue.statements (queue : TreeQueue) : List (List Token) := TokenTree.statementsAll queue.trees

/-- The first of the statements in a queue, and the statements that it leaves. -/
theorem TreeQueue.next?_statements (queue : TreeQueue) :
    Std.Stream.next? queue.statements =
      (Std.Stream.next? queue).map fun p => (p.1, p.2.statements) := by
  have hstatements := TokenTree.statementsAll_eq_unconsAll? queue.trees
  rw [statements, hstatements]
  simp only [Std.Stream.next?]
  cases TokenTree.unconsAll? queue.trees with
  | some p => rfl
  | none => rfl

/-- A stream of statements, seen as the list of the statements in it. -/
class Listed (σ : Type) [Std.Stream σ (List Token)] where
  statements : σ → List (List Token)
  next?_statements (pending : σ) :
    Std.Stream.next? (statements pending) =
      (Std.Stream.next? pending).map fun p => (p.1, statements p.2)

instance : Listed (List (List Token)) where
  statements := id
  next?_statements pending := by cases pending <;> rfl

instance : Listed TreeQueue where
  statements := TreeQueue.statements
  next?_statements := TreeQueue.next?_statements

theorem parseFuel_pos (statements : List (List Token)) : 0 < parseFuel statements := by
  cases statements with
  | nil => exact Nat.zero_lt_one
  | cons statement rest =>
    rw [parseFuel]
    omega

theorem parseFuel_le_of_suffix {statements rest : List (List Token)} (h : rest <:+ statements) :
    parseFuel rest ≤ parseFuel statements := by
  obtain ⟨front, rfl⟩ := h
  induction front with
  | nil => exact Nat.le_refl _
  | cons statement front ih =>
    rw [List.cons_append, parseFuel]
    omega

variable {σ : Type} [Std.Stream σ (List Token)] [Listed σ]

theorem Listed.statements_of_next? {pending rest : σ} {statement : List Token}
    (h : Std.Stream.next? pending = some (statement, rest)) :
    statements pending = statement :: statements rest := by
  have hnext := next?_statements pending
  rw [h] at hnext
  cases hstatements : statements pending with
  | nil =>
    rw [hstatements] at hnext
    cases hnext
  | cons first others =>
    rw [hstatements] at hnext
    cases hnext
    rfl

theorem Listed.statements_eq_nil_of_next? {pending : σ} (h : Std.Stream.next? pending = none) :
    statements pending = [] := by
  have hnext := next?_statements pending
  rw [h] at hnext
  cases hstatements : statements pending with
  | nil => rfl
  | cons first others =>
    rw [hstatements] at hnext
    cases hnext

namespace ParserState

/-- The state with its statements in a list. -/
def listed (s : ParserState σ) : ParserState := ⟨s.tokens, Listed.statements s.pending, s.functions⟩

/-- The number of tokens and statements that are left to read, and one more. -/
def size (s : ParserState σ) : Nat := s.tokens.length + parseFuel (Listed.statements s.pending)

/-- What a state leaves once some of its tokens and some of its statements were read, or none. -/
structure Leaves (s t : ParserState σ) : Prop where
  tokens : t.tokens <:+ s.tokens
  statements : Listed.statements t.pending <:+ Listed.statements s.pending

/-- What a state leaves once at least one token of the current statement was read. -/
structure Eats (s t : ParserState σ) : Prop extends Leaves s t where
  used : t.tokens.length < s.tokens.length

variable {s t u : ParserState σ} {v : Token} {ts : List Token} {ps : σ} {fs : FunctionTable}

theorem size_pos (s : ParserState σ) : 0 < s.size :=
  Nat.lt_of_lt_of_le (parseFuel_pos _) (Nat.le_add_left _ _)

theorem size_lt_cons : size ⟨ts, ps, fs⟩ < size ⟨v :: ts, ps, fs⟩ :=
  Nat.add_lt_add_right (Nat.lt_succ_self _) _

/-- A statement that is taken off the ones that follow is smaller than these are. -/
theorem size_load_lt {statement : List Token} {rest : σ}
    (h : Listed.statements ps = statement :: Listed.statements rest) (fs : FunctionTable) :
    size ⟨statement, rest, fs⟩ < parseFuel (Listed.statements ps) := by
  simp only [size, h, parseFuel]
  omega

namespace Leaves

theorem of_listed (h : s.listed.Leaves t.listed) : s.Leaves t := ⟨h.tokens, h.statements⟩

theorem refl (s : ParserState σ) : s.Leaves s := ⟨List.suffix_rfl, List.suffix_rfl⟩

theorem trans (h : s.Leaves t) (h' : t.Leaves u) : s.Leaves u :=
  ⟨h'.tokens.trans h.tokens, h'.statements.trans h.statements⟩

theorem size_le (h : s.Leaves t) : t.size ≤ s.size :=
  Nat.add_le_add h.tokens.length_le (parseFuel_le_of_suffix h.statements)

theorem eats_cons (h : Leaves ⟨ts, ps, fs⟩ t) : Eats ⟨v :: ts, ps, fs⟩ t where
  tokens := h.tokens.trans (List.suffix_cons v ts)
  statements := h.statements
  used := Nat.lt_succ_of_le h.tokens.length_le

theorem cons (h : Leaves ⟨ts, ps, fs⟩ t) : Leaves ⟨v :: ts, ps, fs⟩ t := h.eats_cons.toLeaves

theorem drop {us : List Token} (h : s.Leaves ⟨us ++ ts, ps, fs⟩) : s.Leaves ⟨ts, ps, fs⟩ :=
  ⟨(List.suffix_append us ts).trans h.tokens, h.statements⟩

theorem behind (h : s.Leaves ⟨v :: ts, ps, fs⟩) : s.Leaves ⟨ts, ps, fs⟩ := h.trans (.cons (.refl _))

/-- The statements that follow are read on their own, and the rest of the current one afterwards. -/
theorem body {fs₀ fs' : FunctionTable} {ps' : σ} (h : s.Leaves ⟨ts, ps, fs⟩)
    (hbody : Leaves ⟨[], ps, fs₀⟩ ⟨[], ps', fs'⟩) : s.Leaves ⟨ts, ps', fs'⟩ :=
  ⟨h.tokens, hbody.statements.trans h.statements⟩

end Leaves

namespace Eats

theorem of_listed (h : s.listed.Eats t.listed) : s.Eats t := ⟨.of_listed h.toLeaves, h.used⟩

theorem size_lt (h : s.Eats t) : t.size < s.size :=
  Nat.add_lt_add_of_lt_of_le h.used (parseFuel_le_of_suffix h.statements)

theorem trans (h : s.Eats t) (h' : t.Leaves u) : s.Eats u :=
  ⟨h.toLeaves.trans h', Nat.lt_of_le_of_lt h'.tokens.length_le h.used⟩

end Eats

end ParserState

end HostScript
