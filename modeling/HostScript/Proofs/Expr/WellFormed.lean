import HostScript.Proofs.Expr.Grammar
import HostScript.Proofs.Expr.Remainder

/-!
# Well-formed scripts

`WellFormed L p s s'` says that the fragment `p` of a script stands at the front of the parser state `s`,
and that `s'` is the state behind it. Unlike the rules of `Reads`, these ask for binding strengths and for
what comes next wherever the parser does, so what stands at the front of a state is determined. The limits
`L` say how long argument lists, parameter lists and bodies may be. With the limits of the parser whatever
it accepts is well-formed, and so it is with looser ones, such as none at all. What is well-formed can be
read by the rules of `Reads`.
-/
namespace HostScript

/-- Tokens before which an expression of the given strength ends: the next one, if there is one, does not
join operands that tightly. -/
def Loose (strength : Nat) (rest : List Token) : Prop :=
  ∀ t ∈ rest.head?, ∀ joint, Joint.ofKind? t.kind = some joint → joint.precedence < strength

theorem Loose.nil (strength : Nat) : Loose strength [] := by
  rintro t ⟨⟩

theorem Loose.mono {n strength : Nat} {rest : List Token} (h : Loose n rest) (hn : n ≤ strength) :
    Loose strength rest :=
  fun t ht joint hjoint => Nat.lt_of_lt_of_le (h t ht joint hjoint) hn

theorem Loose.cons {joint : Joint} {t : Token} (h : Joint.ofKind? t.kind = some joint) (ts : List Token) :
    Loose (joint.precedence + 1) (t :: ts) := by
  rintro u ⟨⟩ joint' hjoint'
  cases h.symm.trans hjoint'
  exact Nat.lt_succ_self _

/-- The numbers of arguments and of parameters that a list may have, and the numbers of statements that a
body may have. -/
structure Limits where
  lists : Nat → Prop
  bodies : Nat → Prop

def Limits.parser : Limits := ⟨(· ≤ listLimit), (· ≤ bodyLimit)⟩

/-- Lists and bodies of any length. -/
def Limits.unbounded : Limits := ⟨fun _ => True, fun _ => True⟩

/-- Limits that are not looser than other ones. -/
structure Limits.Within (L M : Limits) : Prop where
  lists : ∀ {n}, L.lists n → M.lists n
  bodies : ∀ {n}, L.bodies n → M.bodies n

theorem Limits.Within.refl {L : Limits} : L.Within L := ⟨id, id⟩

theorem Limits.within_unbounded {L : Limits} : L.Within .unbounded :=
  ⟨fun _ => trivial, fun _ => trivial⟩

/-- A fragment of a script: what a token begins as an operand, an operand with its members and a value
written to them, an expression at a binding strength that is joined to a left operand, an expression at a
binding strength, the arguments of a call, the statements of a body with its closing brace, or the
statements up to the end of the script. -/
inductive Fragment where
  | operand (t : Token) (e : Expr)
  | primary (e : Expr)
  | joined (strength : Nat) (left e : Expr)
  | expr (strength : Nat) (e : Expr)
  | arguments (es : List Expr)
  | body (es : List Expr)
  | program (es : List Expr)

/-- The rules of the grammar, with what they need to be unambiguous. A list of arguments stops before its
closing parenthesis, and it may have a comma behind its last argument. -/
inductive WellFormed (L : Limits) : Fragment → ParserState → ParserState → Prop where
  | leaf {t e s} (ht : t.leaf? = some e)
    (hend : t.kind = .variableName → (s.tokens.head?.map Token.kind).bind compoundOf? = none) :
    WellFormed L (.operand t e) s s
  | opening {t f e s s'} (ht : t.opening? = some f) (he : WellFormed L (.expr 0 e) s s') :
    WellFormed L (.operand t (f e)) s s'
  | step {t u op ts ps fs} (ht : t.kind = .variableName) (hu : compoundOf? u.kind = some (op, false)) :
    WellFormed L (.operand t (.compound t.text op (.literal (.number 1)))) ⟨u :: ts, ps, fs⟩ ⟨ts, ps, fs⟩
  | compound {t u op e ts ps fs s'} (ht : t.kind = .variableName)
    (hu : compoundOf? u.kind = some (op, true)) (he : WellFormed L (.expr 0 e) ⟨ts, ps, fs⟩ s') :
    WellFormed L (.operand t (.compound t.text op e)) ⟨u :: ts, ps, fs⟩ s'
  | group {t u e s ts ps fs} (ht : t.kind.closer? = some u.kind)
    (he : WellFormed L (.expr 0 e) s ⟨u :: ts, ps, fs⟩) : WellFormed L (.operand t e) s ⟨ts, ps, fs⟩
  | call {t u v es ts ps fs ts' ps' fs'} (ht : t.kind = .call) (hu : u.kind = .leftParen)
    (hv : v.kind = .rightParen) (hlen : L.lists es.length)
    (hes : WellFormed L (.arguments es) ⟨ts, ps, fs⟩ ⟨v :: ts', ps', fs'⟩) :
    WellFormed L (.operand t (.call t.text es)) ⟨u :: ts, ps, fs⟩ ⟨ts', ps', fs'⟩
  | define {t u v w params us es ts ps fs ps' fs'} (ht : t.kind = .function) (hu : u.kind = .leftParen)
    (hparams : ListsParameters params us) (hlist : L.lists params.length) (hv : v.kind = .rightParen)
    (hw : w.kind = .leftScope) (hnew : t.text ∉ fs) (hlen : L.bodies es.length)
    (hes : WellFormed L (.body es) ⟨[], ps, fs.insert t.text { params }⟩ ⟨[], ps', fs'⟩) :
    WellFormed L (.operand t (.define t.text es)) ⟨u :: (us ++ v :: w :: ts), ps, fs⟩ ⟨ts, ps', fs'⟩
  | forLoop {t u v w x y init condition step es ts ps fs ts₁ ps₁ fs₁ ts₂ ps₂ fs₂ ts₃ ps₃ fs₃ ps' fs'}
    (ht : t.kind = .forWord) (hu : u.kind = .leftParen)
    (hinit : WellFormed L (.expr 0 init) ⟨ts, ps, fs⟩ ⟨v :: ts₁, ps₁, fs₁⟩) (hv : v.kind = .semicolon)
    (hcondition : WellFormed L (.expr 0 condition) ⟨ts₁, ps₁, fs₁⟩ ⟨w :: ts₂, ps₂, fs₂⟩)
    (hw : w.kind = .semicolon)
    (hstep : WellFormed L (.expr 0 step) ⟨ts₂, ps₂, fs₂⟩ ⟨x :: y :: ts₃, ps₃, fs₃⟩)
    (hx : x.kind = .rightParen) (hy : y.kind = .leftScope) (hlen : L.bodies es.length)
    (hes : WellFormed L (.body es) ⟨[], ps₃, fs₃⟩ ⟨[], ps', fs'⟩) :
    WellFormed L (.operand t (.forLoop init condition step es)) ⟨u :: ts, ps, fs⟩ ⟨ts₃, ps', fs'⟩
  | whileLoop {t u v w condition es ts ps fs ts₁ ps₁ fs₁ ps' fs'} (ht : t.kind = .whileWord)
    (hu : u.kind = .leftParen)
    (hcondition : WellFormed L (.expr 0 condition) ⟨ts, ps, fs⟩ ⟨v :: w :: ts₁, ps₁, fs₁⟩)
    (hv : v.kind = .rightParen) (hw : w.kind = .leftScope) (hlen : L.bodies es.length)
    (hes : WellFormed L (.body es) ⟨[], ps₁, fs₁⟩ ⟨[], ps', fs'⟩) :
    WellFormed L (.operand t (.whileLoop condition es)) ⟨u :: ts, ps, fs⟩ ⟨ts₁, ps', fs'⟩
  | block {t es ts ps fs ps' fs'} (ht : t.kind = .leftScope) (hlen : L.bodies es.length)
    (hes : WellFormed L (.body es) ⟨[], ps, fs⟩ ⟨[], ps', fs'⟩) :
    WellFormed L (.operand t (.block es)) ⟨ts, ps, fs⟩ ⟨ts, ps', fs'⟩
  | members {t e ms ts ps fs ts' ps' fs'}
    (he : WellFormed L (.operand t e) ⟨ts, ps, fs⟩ ⟨ms ++ ts', ps', fs'⟩)
    (hms : ∀ m ∈ ms, m.kind = .access) (hend : ∀ u ∈ ts'.head?, u.kind ≠ .access)
    (hwrite : ∀ target member, accessChain e ms = .access target member →
      ∀ u ∈ ts'.head?, u.kind ≠ .equals) :
    WellFormed L (.primary (accessChain e ms)) ⟨t :: ts, ps, fs⟩ ⟨ts', ps', fs'⟩
  | write {t u e ms target member value ts ps fs ts' ps' fs' s'}
    (he : WellFormed L (.operand t e) ⟨ts, ps, fs⟩ ⟨ms ++ u :: ts', ps', fs'⟩)
    (hms : ∀ m ∈ ms, m.kind = .access) (hchain : accessChain e ms = .access target member)
    (hu : u.kind = .equals) (hvalue : WellFormed L (.expr 0 value) ⟨ts', ps', fs'⟩ s') :
    WellFormed L (.primary (.write target member value)) ⟨t :: ts, ps, fs⟩ s'
  | stop {strength e s} (hend : Loose strength s.tokens) : WellFormed L (.joined strength e e) s s
  | operator {t op strength left right e ts ps fs s s'} (ht : Joint.ofKind? t.kind = some (.operator op))
    (hstrength : strength ≤ op.precedence)
    (hright : WellFormed L (.expr (op.precedence + 1) right) ⟨ts, ps, fs⟩ s)
    (he : WellFormed L (.joined strength (.binary op left right) e) s s') :
    WellFormed L (.joined strength left e) ⟨t :: ts, ps, fs⟩ s'
  | ternary {t u strength condition yes no ts ps fs ts' ps' fs' s'} (ht : t.kind = .question)
    (hstrength : strength ≤ ternaryPrecedence)
    (hyes : WellFormed L (.expr 0 yes) ⟨ts, ps, fs⟩ ⟨u :: ts', ps', fs'⟩) (hu : u.kind = .colon)
    (hno : WellFormed L (.expr 0 no) ⟨ts', ps', fs'⟩ s') :
    WellFormed L (.joined strength condition (.ternary condition yes no)) ⟨t :: ts, ps, fs⟩ s'
  | expr {strength left e s s₁ s'} (hleft : WellFormed L (.primary left) s s₁)
    (he : WellFormed L (.joined strength left e) s₁ s') : WellFormed L (.expr strength e) s s'
  | noArgument {v ts ps fs} (hv : v.kind = .rightParen) :
    WellFormed L (.arguments []) ⟨v :: ts, ps, fs⟩ ⟨v :: ts, ps, fs⟩
  | lastArgument {e v s ts ps fs} (he : WellFormed L (.expr 0 e) s ⟨v :: ts, ps, fs⟩)
    (hv : v.kind = .rightParen) : WellFormed L (.arguments [e]) s ⟨v :: ts, ps, fs⟩
  | argument {t e es s ts ps fs s'} (he : WellFormed L (.expr 0 e) s ⟨t :: ts, ps, fs⟩)
    (ht : t.kind = .comma) (hes : WellFormed L (.arguments es) ⟨ts, ps, fs⟩ s') : WellFormed L (.arguments (e :: es)) s s'
  | bodyEnd {statement ps fs} (hclose : isClosing statement) :
    WellFormed L (.body []) ⟨[], statement :: ps, fs⟩ ⟨[], ps, fs⟩
  | bodyStatement {statement e es ps fs ps' fs' s'} (hopen : ¬isClosing statement)
    (he : WellFormed L (.expr 0 e) ⟨statement, ps, fs⟩ ⟨[], ps', fs'⟩)
    (hes : WellFormed L (.body es) ⟨[], ps', fs'⟩ s') :
    WellFormed L (.body (e :: es)) ⟨[], statement :: ps, fs⟩ s'
  | programEnd {fs} : WellFormed L (.program []) ⟨[], [], fs⟩ ⟨[], [], fs⟩
  | programStatement {statement e es ps fs ps' fs' s'} (hopen : ¬isClosing statement)
    (he : WellFormed L (.expr 0 e) ⟨statement, ps, fs⟩ ⟨[], ps', fs'⟩)
    (hes : WellFormed L (.program es) ⟨[], ps', fs'⟩ s') :
    WellFormed L (.program (e :: es)) ⟨[], statement :: ps, fs⟩ s'

section

variable {L : Limits}

theorem WellFormed.kind_of_operand {t : Token} {e : Expr} {s s' : ParserState}
    (h : WellFormed L (.operand t e) s s') : t.kind ≠ .rightParen := by
  intro hkind
  cases h with
  | leaf ht => simp [Token.leaf?, hkind] at ht
  | opening ht => simp [Token.opening?, hkind] at ht
  | group ht => simp [Kind.closer?, hkind] at ht
  | step ht | compound ht | call ht | define ht | forLoop ht | whileLoop ht | block ht =>
    simp [hkind] at ht

/-- No expression begins with a closing parenthesis. -/
theorem WellFormed.head_of_expr {strength : Nat} {e : Expr} {s s' : ParserState}
    (h : WellFormed L (.expr strength e) s s') : ∃ t ts, s.tokens = t :: ts ∧ t.kind ≠ .rightParen := by
  cases h with
  | expr hleft =>
    cases hleft with
    | members he => exact ⟨_, _, rfl, he.kind_of_operand⟩
    | write he => exact ⟨_, _, rfl, he.kind_of_operand⟩

/-- What is well-formed takes tokens and statements off the front. -/
theorem WellFormed.leaves {p : Fragment} {s s' : ParserState} (h : WellFormed L p s s') : s.Leaves s' := by
  induction h with
  | leaf | stop | noArgument | programEnd => exact .refl _
  | opening _ _ ih => exact ih
  | step => exact .cons (.refl _)
  | compound _ _ _ ih => exact ih.cons
  | group _ _ ih => exact ih.behind
  | call _ _ _ _ _ ih => exact ih.behind.cons
  | @define _ u v w _ us _ ts ps fs _ _ _ _ _ _ _ _ _ _ _ ih =>
    have hheader : ParserState.Leaves ⟨u :: (us ++ v :: w :: ts), ps, fs⟩ ⟨ts, ps, fs⟩ :=
      ⟨⟨u :: (us ++ [v, w]), by simp⟩, List.suffix_rfl⟩
    exact hheader.body ih
  | forLoop _ _ _ _ _ _ _ _ _ _ _ ihinit ihcondition ihstep ih =>
    exact (((ihinit.behind.trans ihcondition).behind.trans ihstep).behind.behind.body ih).cons
  | whileLoop _ _ _ _ _ _ _ ihcondition ih => exact (ihcondition.behind.behind.body ih).cons
  | block _ _ _ ih => exact .body (.refl _) ih
  | members _ _ _ _ ih => exact ih.drop.cons
  | write _ _ _ _ _ ih ihvalue => exact (ih.drop.behind.trans ihvalue).cons
  | operator _ _ _ _ ihright ih => exact (ihright.trans ih).cons
  | ternary _ _ _ _ _ ihyes ihno => exact (ihyes.behind.trans ihno).cons
  | expr _ _ ihleft ih => exact ihleft.trans ih
  | lastArgument _ _ ih => exact ih
  | argument _ _ _ ih ihrest => exact ih.behind.trans ihrest
  | bodyEnd => exact ⟨List.suffix_rfl, List.suffix_cons ..⟩
  | bodyStatement _ _ _ ih ihrest | programStatement _ _ _ ih ihrest =>
    exact ⟨ihrest.tokens, ((ihrest.statements.trans ih.statements).trans (List.suffix_cons ..))⟩

theorem WellFormed.eats_of_primary {e : Expr} {s s' : ParserState} (h : WellFormed L (.primary e) s s') :
    s.Eats s' := by
  cases h with
  | members he => exact he.leaves.drop.eats_cons
  | write he _ _ _ hvalue => exact (he.leaves.drop.behind.trans hvalue.leaves).eats_cons

/-- An expression takes at least one token. -/
theorem WellFormed.eats {strength : Nat} {e : Expr} {s s' : ParserState}
    (h : WellFormed L (.expr strength e) s s') : s.Eats s' := by
  cases h with
  | expr hleft he => exact hleft.eats_of_primary.trans he.leaves

end

/-- What the rules of `Reads` say of a fragment. -/
def Fragment.Reads (s s' : ParserState) : Fragment → Prop
  | .operand t e => HostScript.Reads (.expr e) ⟨t :: s.tokens, s.pending, s.functions⟩ s'
  | .primary e | .expr _ e => HostScript.Reads (.expr e) s s'
  | .joined _ left e => ∀ s₀, HostScript.Reads (.expr left) s₀ s → HostScript.Reads (.expr e) s₀ s'
  | .arguments es => HostScript.Reads (.arguments es) s s'
  | .body es => HostScript.Reads (.body es) s s'
  | .program es => HostScript.Reads (.program es) s s'

/-- Within the limits of the parser, what is well-formed can be read by the rules of the grammar. -/
theorem WellFormed.reads {p : Fragment} {s s' : ParserState} (h : WellFormed .parser p s s') :
    p.Reads s s' := by
  induction h with
  | leaf ht => exact .leaf ht
  | opening ht _ ih => exact .opening ht ih
  | step ht hu => exact .step ht hu
  | compound ht hu _ ih => exact .compound ht hu ih
  | group ht _ ih => exact .group ht ih
  | call ht hu hv hlen _ ih => exact .call ht hu hv hlen ih
  | define ht hu hparams hlist hv hw hnew hlen _ ih =>
    exact .define ht hu (parameterNames_of_le hparams hv hlist _) hv hw hnew hlen ih
  | forLoop ht hu _ hv _ hw _ hx hy hlen _ ihinit ihcondition ihstep ihbody =>
    exact .forLoop ht hu ihinit hv ihcondition hw ihstep hx hy hlen ihbody
  | whileLoop ht hu _ hv hw hlen _ ihcondition ihbody =>
    exact .whileLoop ht hu ihcondition hv hw hlen ihbody
  | block ht hlen _ ih => exact .block ht hlen ih
  | members _ hms _ _ ih => exact ih.accesses hms
  | write _ hms hchain hu _ ih ihvalue =>
    have htarget := ih.accesses hms
    rw [hchain] at htarget
    exact .write htarget hu ihvalue
  | stop => exact fun _ hleft => hleft
  | operator ht _ _ _ ihright ih => exact fun _ hleft => ih _ (.binary hleft ht ihright)
  | ternary ht _ _ hu _ ihyes ihno => exact fun _ hcondition => .ternary hcondition ht ihyes hu ihno
  | expr _ _ ihleft ih => exact ih _ ihleft
  | noArgument => exact .noArgument
  | lastArgument _ _ ih => exact .lastArgument ih
  | argument _ ht _ ih ihrest => exact .argument ih ht ihrest
  | bodyEnd hclose => exact .bodyEnd hclose
  | bodyStatement hopen _ _ ih ihrest => exact .bodyStatement hopen ih ihrest
  | programEnd => exact .programEnd
  | programStatement hopen _ _ ih ihrest => exact .programStatement hopen ih ihrest

end HostScript
