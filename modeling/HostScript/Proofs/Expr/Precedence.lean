import HostScript.Proofs.Expr.Fuel
import HostScript.Proofs.Expr.OperatorTree
import HostScript.Proofs.Expr.RoundTrip

/-!
# Parsing operators by precedence

The parser reads a chain of operands and operators to the graded tree of the chain. It climbs: after an
operator it reads a right operand whose operators all bind more tightly, and what it leaves is joined to the
tree built so far. A ternary behind a chain takes as its condition the end of the chain whose operators bind
more tightly than the ternary itself, and it is then an operand of the operators that are left.
-/
namespace HostScript

open ParseM

/-- An operand of a chain stands at the front of a state: a token that is an expression by itself, or an
expression in parentheses or brackets. The second state is the one behind it. -/
inductive OperandAt : Expr → ParserState → ParserState → Prop where
  | atom {t e ts ps fs} (ht : t.leaf? = some e) : OperandAt e ⟨t :: ts, ps, fs⟩ ⟨ts, ps, fs⟩
  | group {t u e ts ps fs ts' ps' fs'} (ht : t.kind.closer? = some u.kind)
    (he : parseExpression 0 ⟨ts, ps, fs⟩ = .ok (e, ⟨u :: ts', ps', fs'⟩)) :
    OperandAt e ⟨t :: ts, ps, fs⟩ ⟨ts', ps', fs'⟩

/-- A chain of operands with operators between them stands at the front of a state. -/
inductive ChainAt : Chain Expr → ParserState → ParserState → Prop where
  | last {e s s'} (he : OperandAt e s s') : ChainAt ⟨e, []⟩ s s'
  | join {t op e first rest s ts ps fs s'} (he : OperandAt e s ⟨t :: ts, ps, fs⟩)
    (ht : Joint.ofKind? t.kind = some (.operator op)) (hc : ChainAt ⟨first, rest⟩ ⟨ts, ps, fs⟩ s') :
    ChainAt ⟨e, (op, first) :: rest⟩ s s'

/-- The two branches of a ternary stand at the front of a state, each a whole expression. -/
inductive BranchesAt : Expr → Expr → ParserState → ParserState → Prop where
  | mk {t u yes no ts ps fs ts' ps' fs' s'} (ht : t.kind = .question)
    (hyes : parseExpression 0 ⟨ts, ps, fs⟩ = .ok (yes, ⟨u :: ts', ps', fs'⟩)) (hu : u.kind = .colon)
    (hno : parseExpression 0 ⟨ts', ps', fs'⟩ = .ok (no, s')) :
    BranchesAt yes no ⟨t :: ts, ps, fs⟩ s'

/-- Whether a token of this kind, behind an operand, belongs to it. -/
def Kind.extendsOperand : Kind → Bool
  | .access | .equals | .increment | .decrement | .plusAssign | .minusAssign => true
  | _ => false

/-- Tokens of which the next one, if there is one, does not belong to the operand before it. -/
def EndsOperand (rest : List Token) : Prop := ∀ t ∈ rest.head?, t.kind.extendsOperand = false

def OperatorTree.expr : OperatorTree Expr → Expr
  | .operand e => e
  | .node op left right => .binary op left.expr right.expr

theorem extendsOperand_of_joint {k : Kind} {joint : Joint} (h : Joint.ofKind? k = some joint) :
    k.extendsOperand = false := by
  cases k with
  | access | equals | increment | decrement | plusAssign | minusAssign => cases h
  | _ => rfl

theorem EndsOperand.cons {t : Token} (h : t.kind.extendsOperand = false) (rest : List Token) :
    EndsOperand (t :: rest) := by
  intro u hu
  cases hu
  exact h

theorem EndsOperand.detached {rest : List Token} (h : EndsOperand rest) : Detached rest := by
  intro t ht
  have hkind := h t ht
  constructor
  · intro heq
    rw [heq] at hkind
    cases hkind
  · intro heq
    rw [heq] at hkind
    cases hkind

theorem EndsOperand.bind_compoundOf? {rest : List Token} (h : EndsOperand rest) :
    (rest.head?.map Token.kind).bind compoundOf? = none := by
  cases rest with
  | nil => rfl
  | cons t rest =>
    have hkind := h t rfl
    simp only [List.head?_cons, Option.map_some, Option.bind_some]
    revert hkind
    cases t.kind with
    | increment | decrement | plusAssign | minusAssign => nofun
    | _ => exact fun _ => rfl

section

variable {recur : Nat → ParseM Expr} {e : Expr} {s s' : ParserState}

/-- An operand of a chain is read as such if nothing behind it belongs to it. -/
theorem OperandAt.parsePrimary (h : OperandAt e s s') (hrest : EndsOperand s'.tokens) :
    parsePrimary parseExpression s = .ok (e, s') := by
  cases h with
  | atom ht =>
    refine parsePrimary_of_detached hrest.detached ?_
    exact parseOperand_of_leaf ht fun _ => hrest.bind_compoundOf?
  | @group t u _ ts ps fs ts' ps' fs' ht he =>
    refine parsePrimary_of_detached hrest.detached ?_
    unfold parseOperand
    rcases Kind.closer?_cases ht with ⟨ht, hu⟩ | ⟨ht, hu⟩
    · simp only [ht]
      rw [bind_of_ok he, bind_of_ok ((expect_cons ..).trans (if_pos hu))]
      rfl
    · simp only [ht]
      rw [bind_of_ok he, bind_of_ok ((expect_cons ..).trans (if_pos hu))]
      rfl

/-- An operand with what is joined to it. -/
theorem OperandAt.parseExpression (h : OperandAt e s s') (hrest : EndsOperand s'.tokens) (strength : Nat) :
    parseExpression strength s = climbOn strength e s' := by
  rw [parseExpression_eq]
  exact bind_of_ok (h.parsePrimary hrest)

end

section

/-! What an expression leaves does not begin with an operator that the expression could have joined. -/

variable {strength : Nat} {s s' : ParserState} {e : Expr}

theorem climb_loose {recur : Nat → ParseM Expr}
    (hrecur : ∀ {s e s'}, recur 0 s = .ok (e, s') → Loose 0 s'.tokens) (fuel : Nat) (left : Expr)
    (h : climb recur strength fuel left s = .ok (e, s')) : Loose strength s'.tokens := by
  induction fuel generalizing left s with
  | zero => cases h
  | succ fuel ih =>
    rw [climb, bind_of_ok (peekKind?_run s)] at h
    obtain ⟨_ | ⟨t, ts⟩, ps, fs⟩ := s
    · cases h
      exact .nil strength
    simp only [List.head?_cons, Option.map_some, Option.bind_some] at h
    cases hjoint : Joint.ofKind? t.kind with
    | none =>
      rw [hjoint] at h
      cases h
      rintro u ⟨⟩ joint hj
      cases hjoint.symm.trans hj
    | some joint =>
      simp only [hjoint] at h
      by_cases hweak : joint.precedence < strength
      · rw [if_pos hweak] at h
        cases h
        exact (Loose.cons hjoint ts).mono hweak
      rw [if_neg hweak, bind_of_ok (next?_cons ..)] at h
      cases joint with
      | operator op =>
        obtain ⟨right, s₁, _, h⟩ := bind_eq_ok.mp h
        exact ih _ h
      | ternary =>
        obtain ⟨yes, s₁, _, h⟩ := bind_eq_ok.mp h
        obtain ⟨colon, s₂, _, h⟩ := bind_eq_ok.mp h
        cases colon with
        | false => cases h
        | true =>
          obtain ⟨no, s₃, hno, h⟩ := bind_eq_ok.mp h
          cases h
          exact (hrecur hno).mono (Nat.zero_le _)

theorem parseExpr_loose {fuel : Nat} (h : parseExpr fuel strength s = .ok (e, s')) :
    Loose strength s'.tokens := by
  induction fuel generalizing strength s e s' with
  | zero => cases h
  | succ fuel ih =>
    obtain ⟨left, s₁, _, h⟩ := bind_eq_ok.mp h
    exact climb_loose ih fuel left h

end

/-- The later operands of a chain stand at the front of a state, each behind its operator. The last of them
is whatever the parser reads as the right operand of its operator. -/
inductive RestAt : List (Operator × Expr) → ParserState → ParserState → Prop where
  | nil {s} : RestAt [] s s
  | last {t op e ts ps fs s'} (ht : Joint.ofKind? t.kind = some (.operator op))
    (he : parseExpression (op.precedence + 1) ⟨ts, ps, fs⟩ = .ok (e, s')) :
    RestAt [(op, e)] ⟨t :: ts, ps, fs⟩ s'
  | join {t op e p rest ts ps fs s s'} (ht : Joint.ofKind? t.kind = some (.operator op))
    (he : OperandAt e ⟨ts, ps, fs⟩ s) (hrest : RestAt (p :: rest) s s') :
    RestAt ((op, e) :: p :: rest) ⟨t :: ts, ps, fs⟩ s'

section

variable {n : Nat} {s s' : ParserState} {rest : List (Operator × Expr)}

theorem RestAt.head {p : Operator × Expr} (h : RestAt (p :: rest) s s') :
    ∃ t ts, s.tokens = t :: ts ∧ Joint.ofKind? t.kind = some (.operator p.1) := by
  cases h with
  | last ht => exact ⟨_, _, rfl, ht⟩
  | join ht => exact ⟨_, _, rfl, ht⟩

theorem RestAt.endsOperand {p : Operator × Expr} (h : RestAt (p :: rest) s s') : EndsOperand s.tokens := by
  obtain ⟨t, ts, hts, hjoint⟩ := h.head
  rw [hts]
  exact .cons (extendsOperand_of_joint hjoint) ts

/-- An expression ends before operators that bind too weakly, and before what ends the chain. -/
theorem RestAt.loose (h : RestAt rest s s') (hweak : ∀ p ∈ rest.head?, p.1.precedence < n)
    (hend : Loose n s'.tokens) : Loose n s.tokens := by
  cases rest with
  | nil =>
    cases h
    exact hend
  | cons p rest =>
    obtain ⟨t, ts, hts, hjoint⟩ := h.head
    rw [hts]
    exact (Loose.cons hjoint ts).mono (hweak p rfl)

/-- The parser climbs as on the chain. Joining what stands at the front of a state to a tree comes to the
same as joining what is left to the tree that climbing has built. -/
theorem Climbs.climbOn {t u : OperatorTree Expr} {rest' : List (Operator × Expr)}
    (h : Climbs n t rest u rest') (hrest : RestAt rest s s')
    (hend : ∀ p ∈ rest, Loose (p.1.precedence + 1) s'.tokens) :
    ∃ s₁, RestAt rest' s₁ s' ∧ climbOn n t.expr s = climbOn n u.expr s₁ := by
  induction h generalizing s with
  | stop => exact ⟨s, hrest, rfl⟩
  | @join n op a t right u rest rest₁ rest₂ hop hright hmore ihright ihmore =>
    have hends := hend (op, a) List.mem_cons_self
    have hoperand : ∃ s₁, RestAt rest₁ s₁ s' ∧
        HostScript.climbOn n t.expr s = HostScript.climbOn n (OperatorTree.node op t right).expr s₁ := by
      cases hrest with
      | last ht he =>
        cases hright
        exact ⟨s', .nil, climbOn_operator ht hop he⟩
      | join ht he hrest =>
        obtain ⟨s₁, hrest₁, hclimb⟩ := ihright hrest fun p hp => hend p (List.mem_cons_of_mem _ hp)
        refine ⟨s₁, hrest₁, climbOn_operator ht hop ?_⟩
        rw [he.parseExpression hrest.endsOperand]
        exact hclimb.trans (climbOn_of_loose (hrest₁.loose hright.left_lt hends) _)
    obtain ⟨s₁, hrest₁, hclimb⟩ := hoperand
    obtain ⟨taken, htaken, _⟩ := hright.taken
    obtain ⟨s₂, hrest₂, hclimb₂⟩ := ihmore hrest₁ fun p hp => hend p (by simp [htaken, hp])
    exact ⟨s₂, hrest₂, hclimb.trans hclimb₂⟩

end

section

variable {c : Chain Expr} {s s' s'' : ParserState} {strength : Nat} {yes no : Expr}

/-- A chain of an operand and the later ones is read to its graded tree, to which the parser then goes on
to join what stands behind the chain. -/
theorem OperandAt.parseExpression_rest {s₁ : ParserState} (hfirst : OperandAt c.first s s₁)
    (hends : EndsOperand s₁.tokens) (hrest : RestAt c.rest s₁ s')
    (hloose : ∀ p ∈ c.rest, Loose (p.1.precedence + 1) s'.tokens)
    (hstrength : ∀ p ∈ c.rest, strength ≤ p.1.precedence) :
    ∃ t : OperatorTree Expr, t.Arranges c ∧
      HostScript.parseExpression strength s = climbOn strength t.expr s' := by
  obtain ⟨t, hclimbs, harranges⟩ := exists_climbs_arranges hstrength
  obtain ⟨s₂, hnil, hclimb⟩ := hclimbs.climbOn hrest hloose
  cases hnil
  exact ⟨t, harranges, (hfirst.parseExpression hends strength).trans hclimb⟩

theorem ChainAt.exists_restAt (h : ChainAt c s s') (hends : EndsOperand s'.tokens)
    (hloose : ∀ p ∈ c.rest, Loose (p.1.precedence + 1) s'.tokens) :
    ∃ s₁, OperandAt c.first s s₁ ∧ EndsOperand s₁.tokens ∧ RestAt c.rest s₁ s' := by
  induction h with
  | last he => exact ⟨_, he, hends, .nil⟩
  | @join t op e first rest s ts ps fs s' he ht _ ih =>
    obtain ⟨s₁, hfirst, hends₁, hrest⟩ := ih hends fun p hp => hloose p (List.mem_cons_of_mem _ hp)
    refine ⟨_, he, .cons (extendsOperand_of_joint ht) ts, ?_⟩
    cases rest with
    | nil =>
      cases hrest
      refine .last ht ?_
      rw [hfirst.parseExpression hends]
      exact climbOn_of_loose (hloose (op, first) List.mem_cons_self) first
    | cons p rest => exact .join ht hfirst hrest

theorem ChainAt.parseExpression (h : ChainAt c s s') (strength : Nat) (hends : EndsOperand s'.tokens)
    (hloose : ∀ p ∈ c.rest, Loose (p.1.precedence + 1) s'.tokens)
    (hstrength : ∀ p ∈ c.rest, strength ≤ p.1.precedence) :
    ∃ t : OperatorTree Expr, t.Arranges c ∧
      HostScript.parseExpression strength s = climbOn strength t.expr s' := by
  obtain ⟨s₁, hfirst, hends₁, hrest⟩ := h.exists_restAt hends hloose
  exact hfirst.parseExpression_rest hends₁ hrest hloose hstrength

/-- A chain with a ternary behind it, all of whose operators bind more tightly than the ternary, is its
condition, at any strength at which a ternary is joined. -/
theorem ChainAt.parseExpression_ternary (h : ChainAt c s s') (htight : c.Tight)
    (hbranches : BranchesAt yes no s' s'') (hstrength : strength ≤ ternaryPrecedence) :
    ∃ condition : OperatorTree Expr, condition.Arranges c ∧
      HostScript.parseExpression strength s = .ok (.ternary condition.expr yes no, s'') := by
  obtain ⟨hquestion, hyes, hcolon, hno⟩ := hbranches
  have hjoint := congrArg Joint.ofKind? hquestion
  obtain ⟨condition, harranges, hparse⟩ := h.parseExpression strength
    (.cons (extendsOperand_of_joint hjoint) _)
    (fun p hp => (Loose.cons hjoint _).mono (Nat.le_succ_of_le (htight p hp)))
    (fun p hp => Nat.le_trans hstrength (Nat.le_of_lt (htight p hp)))
  exact ⟨condition, harranges, hparse.trans (climbOn_ternary hquestion hstrength hyes hcolon hno)⟩

/-- A ternary behind a chain is the last operand of the operators before the tight end of the chain. -/
theorem ChainAt.exists_restAt_ternary {p : Expr × Operator} {before : List (Expr × Operator)}
    (h : ChainAt (c.prepend (p :: before)) s s') (htight : c.Tight)
    (hweak : ∀ q ∈ (p :: before).getLast?, q.2.precedence < ternaryPrecedence)
    (hbranches : BranchesAt yes no s' s'') :
    ∃ condition : OperatorTree Expr, condition.Arranges c ∧
      ∃ s₁, OperandAt p.1 s s₁ ∧ EndsOperand s₁.tokens ∧
        RestAt (Chain.prepend (p :: before) ⟨.ternary condition.expr yes no, []⟩).rest s₁ s'' := by
  induction before generalizing p s with
  | nil =>
    cases h with
    | join he ht hc =>
      obtain ⟨condition, harranges, hparse⟩ :=
        hc.parseExpression_ternary htight hbranches (hweak p rfl)
      exact ⟨condition, harranges, _, he, .cons (extendsOperand_of_joint ht) _, .last ht hparse⟩
  | cons q before ih =>
    cases h with
    | join he ht hc =>
      obtain ⟨condition, harranges, s₁, hfirst, _, hrest⟩ := ih hc (by simpa using hweak)
      exact ⟨condition, harranges, _, he, .cons (extendsOperand_of_joint ht) _, .join ht hfirst hrest⟩

/-- A chain with a ternary behind it is read to the graded tree of the operators before the tight end of
the chain, whose last operand is the ternary with the tight end as its condition. -/
theorem ChainAt.parseExpression_branches (h : ChainAt c s s') (hbranches : BranchesAt yes no s' s'') :
    ∃ before suffix, c.TightEnd before suffix ∧ ∃ condition t : OperatorTree Expr,
      condition.Arranges suffix ∧ t.Arranges (Chain.prepend before ⟨.ternary condition.expr yes no, []⟩) ∧
        HostScript.parseExpression 0 s = .ok (t.expr, s'') := by
  obtain ⟨before, suffix, htightEnd⟩ := c.exists_tightEnd
  refine ⟨before, suffix, htightEnd, ?_⟩
  rw [htightEnd.split] at h
  cases before with
  | nil =>
    obtain ⟨condition, harranges, hparse⟩ :=
      h.parseExpression_ternary htightEnd.tight hbranches (Nat.zero_le _)
    exact ⟨condition, .operand _, harranges, ⟨trivial, rfl⟩, hparse⟩
  | cons p before =>
    obtain ⟨condition, harranges, s₁, hfirst, hends, hrest⟩ :=
      h.exists_restAt_ternary htightEnd.tight htightEnd.weak hbranches
    obtain ⟨_, _, _, hno⟩ := hbranches
    have hloose : Loose 0 s''.tokens := parseExpr_loose hno
    obtain ⟨t, ht, hparse⟩ := hfirst.parseExpression_rest
      (c := Chain.prepend (p :: before) ⟨.ternary condition.expr yes no, []⟩)
      hends hrest (fun _ _ => hloose.mono (Nat.zero_le _)) (fun _ _ => Nat.zero_le _)
    exact ⟨condition, t, harranges, ht, hparse.trans (climbOn_of_loose hloose _)⟩

end

/-- Precedence climbing is correct. A chain of operands and operators, with neither an operator nor more of
the last operand behind it, is read to the one graded tree whose operands and operators, from left to right,
are those of the chain. If the branches of a ternary stand behind the chain, the condition is the longest
end of the chain whose operators all bind more tightly than the ternary, and the ternary is the last operand
of what stands before. -/
theorem parseExpr_chain {c : Chain Expr} {s s' : ParserState} (h : ChainAt c s s') {fuel : Nat}
    (hfuel : s.fuel ≤ fuel) :
    (EndsOperand s'.tokens → Loose 0 s'.tokens →
      ∃ t : OperatorTree Expr, t.Arranges c ∧ (∀ u : OperatorTree Expr, u.Arranges c → u = t) ∧
        parseExpr fuel 0 s = .ok (t.expr, s')) ∧
      ∀ yes no s'', BranchesAt yes no s' s'' →
        ∃ before suffix, c.TightEnd before suffix ∧ ∃ condition t : OperatorTree Expr,
          condition.Arranges suffix ∧
            t.Arranges (Chain.prepend before ⟨.ternary condition.expr yes no, []⟩) ∧
            parseExpr fuel 0 s = .ok (t.expr, s'') := by
  rw [parseExpr_eq hfuel]
  refine ⟨fun hends hloose => ?_, fun yes no s'' hbranches => h.parseExpression_branches hbranches⟩
  obtain ⟨t, ht, hparse⟩ := h.parseExpression 0 hends
    (fun _ _ => hloose.mono (Nat.zero_le _)) (fun _ _ => Nat.zero_le _)
  exact ⟨t, ht, fun u hu => hu.graded.eq_of_inorder_eq ht.graded (hu.inorder.trans ht.inorder.symm),
    hparse.trans (climbOn_of_loose hloose _)⟩

/-- The chain `a * (b + c) < d`, and a ternary behind it. -/
theorem parseExpr_chain_group :
    let sum : Expr := .binary .add (.var "b") (.var "c")
    let chain : Chain Expr := ⟨.var "a", [(.mul, sum), (.less, .var "d")]⟩
    let tokens : List Token :=
      [⟨.variableName, "a"⟩, ⟨.star, "*"⟩, ⟨.leftParen, "("⟩, ⟨.variableName, "b"⟩, ⟨.plus, "+"⟩,
        ⟨.variableName, "c"⟩, ⟨.rightParen, ")"⟩, ⟨.less, "<"⟩, ⟨.variableName, "d"⟩]
    let branches : List Token :=
      [⟨.question, "?"⟩, ⟨.trueWord, "true"⟩, ⟨.colon, ":"⟩, ⟨.falseWord, "false"⟩]
    (∃ t : OperatorTree Expr, t.Arranges chain ∧ (∀ u : OperatorTree Expr, u.Arranges chain → u = t) ∧
      parseExpr 20 0 ⟨tokens, [], ∅⟩ = .ok (t.expr, ⟨[], [], ∅⟩)) ∧
      ∃ before suffix, chain.TightEnd before suffix ∧ ∃ condition t : OperatorTree Expr,
        condition.Arranges suffix ∧
          t.Arranges (Chain.prepend before
            ⟨.ternary condition.expr (.literal (.boolean true)) (.literal (.boolean false)), []⟩) ∧
          parseExpr 20 0 ⟨tokens ++ branches, [], ∅⟩ = .ok (t.expr, ⟨[], [], ∅⟩) := by
  intro sum chain tokens branches
  have hchain (rest : List Token) : ChainAt chain ⟨tokens ++ rest, [], ∅⟩ ⟨rest, [], ∅⟩ :=
    .join (.atom rfl) rfl (.join (.group rfl rfl) rfl (.last (.atom rfl)))
  have hbranches : BranchesAt (.literal (.boolean true)) (.literal (.boolean false)) ⟨branches, [], ∅⟩
      ⟨[], [], ∅⟩ := .mk rfl rfl rfl rfl
  exact ⟨(parseExpr_chain (hchain []) (by decide)).1 nofun (.nil 0),
    (parseExpr_chain (hchain branches) (by decide)).2 _ _ _ hbranches⟩

end HostScript
