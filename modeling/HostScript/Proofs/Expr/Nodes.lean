import HostScript.Expr.Basic

/-!
# The constructs inside an expression

`Expr.nodes` lists every construct that occurs in an expression, at any depth and bodies included, in
the order in which they begin in the script. What a program contains is said in terms of this list. The
induction principle of expressions is stated here for use with lists of parts: it gives the hypothesis
for every member of an argument list or of a body.
-/
namespace HostScript.Expr

mutual

/-- An expression and the constructs inside it, from left to right. -/
def nodes : Expr → List Expr
  | .literal value => [.literal value]
  | .query name => [.query name]
  | .var name => [.var name]
  | .binary op left right => .binary op left right :: (left.nodes ++ right.nodes)
  | .ternary condition yes no =>
    .ternary condition yes no :: (condition.nodes ++ yes.nodes ++ no.nodes)
  | .call name arguments => .call name arguments :: nodesAll arguments
  | .define name body => .define name body :: nodesAll body
  | .forLoop init condition step body =>
    .forLoop init condition step body
      :: (init.nodes ++ condition.nodes ++ step.nodes ++ nodesAll body)
  | .whileLoop condition body => .whileLoop condition body :: (condition.nodes ++ nodesAll body)
  | .block body => .block body :: nodesAll body
  | .letBinding name value => .letBinding name value :: value.nodes
  | .assign name value => .assign name value :: value.nodes
  | .compound name op value => .compound name op value :: value.nodes
  | .returns value => .returns value :: value.nodes
  | .namespaceName name => [.namespaceName name]
  | .usingName name => [.usingName name]
  | .importName name type => [.importName name type]
  | .access target member => .access target member :: target.nodes
  | .write target member value => .write target member value :: (target.nodes ++ value.nodes)

def nodesAll : List Expr → List Expr
  | [] => []
  | e :: es => e.nodes ++ nodesAll es

end

@[simp] theorem nodesAll_nil : nodesAll [] = [] := rfl

@[simp] theorem nodesAll_cons (e : Expr) (es : List Expr) :
    nodesAll (e :: es) = e.nodes ++ nodesAll es := rfl

@[simp] theorem nodesAll_append (es fs : List Expr) :
    nodesAll (es ++ fs) = nodesAll es ++ nodesAll fs := by
  induction es with
  | nil => rfl
  | cons e es ih => simp [ih]

theorem mem_nodesAll {n : Expr} {es : List Expr} : n ∈ nodesAll es ↔ ∃ e ∈ es, n ∈ e.nodes := by
  induction es with
  | nil => simp
  | cons e es ih => simp [ih]

theorem self_mem_nodes (e : Expr) : e ∈ e.nodes := by
  cases e <;> simp [nodes]

def parts : Expr → List Expr
  | .literal _ | .query _ | .var _ | .namespaceName _ | .usingName _ | .importName _ _ => []
  | .binary _ left right => [left, right]
  | .ternary condition yes no => [condition, yes, no]
  | .call _ arguments => arguments
  | .define _ body => body
  | .forLoop init condition step body => init :: condition :: step :: body
  | .whileLoop condition body => condition :: body
  | .block body => body
  | .letBinding _ value | .assign _ value | .compound _ _ value | .returns value => [value]
  | .access target _ => [target]
  | .write target _ value => [target, value]

theorem nodes_eq (e : Expr) : e.nodes = e :: nodesAll e.parts := by
  cases e <;> simp [nodes, parts]

theorem mem_nodes_of_part {n p e : Expr} (hp : p ∈ e.parts) (hn : n ∈ p.nodes) : n ∈ e.nodes := by
  rw [nodes_eq]
  exact List.mem_cons_of_mem _ (mem_nodesAll.mpr ⟨p, hp, hn⟩)

theorem sizeOf_lt_of_mem_parts {p e : Expr} (h : p ∈ e.parts) : sizeOf p < sizeOf e := by
  cases e with
  | literal | query | var | namespaceName | usingName | importName => cases h
  | letBinding name value | assign name value | compound name op value | returns value
  | access value member =>
    obtain rfl := List.mem_singleton.mp h
    simp only [letBinding.sizeOf_spec, assign.sizeOf_spec, compound.sizeOf_spec, returns.sizeOf_spec,
      access.sizeOf_spec]
    omega
  | binary op left right | write left member right =>
    simp only [parts, List.mem_cons, List.not_mem_nil, or_false] at h
    simp only [binary.sizeOf_spec, write.sizeOf_spec]
    rcases h with rfl | rfl <;> omega
  | ternary condition yes no =>
    simp only [parts, List.mem_cons, List.not_mem_nil, or_false] at h
    simp only [ternary.sizeOf_spec]
    rcases h with rfl | rfl | rfl <;> omega
  | call name body | define name body | block body =>
    have hlt := List.sizeOf_lt_of_mem h
    simp only [parts, call.sizeOf_spec, define.sizeOf_spec, block.sizeOf_spec] at hlt ⊢
    omega
  | forLoop init condition step body =>
    simp only [parts, List.mem_cons] at h
    simp only [forLoop.sizeOf_spec]
    rcases h with rfl | rfl | rfl | h
    · omega
    · omega
    · omega
    · have hlt := List.sizeOf_lt_of_mem h
      omega
  | whileLoop condition body =>
    simp only [parts, List.mem_cons] at h
    simp only [whileLoop.sizeOf_spec]
    rcases h with rfl | h
    · omega
    · have hlt := List.sizeOf_lt_of_mem h
      omega

/-- Induction on expressions: what holds of an expression whenever it holds of its parts holds of all. -/
theorem induction {P : Expr → Prop} (step : ∀ e, (∀ p ∈ e.parts, P p) → P e) (e : Expr) : P e :=
  step e fun p _ => induction step p
termination_by e
decreasing_by exact sizeOf_lt_of_mem_parts ‹_›

/-- What occurs inside a construct of an expression occurs in the expression. -/
theorem mem_nodes_trans {n m e : Expr} (hn : n ∈ m.nodes) (hm : m ∈ e.nodes) : n ∈ e.nodes := by
  induction e using Expr.induction with
  | step e ih =>
    rw [nodes_eq, List.mem_cons] at hm
    rcases hm with rfl | hm
    · exact hn
    · obtain ⟨p, hp, hmp⟩ := mem_nodesAll.mp hm
      exact mem_nodes_of_part hp (ih p hp hmp)

end HostScript.Expr
