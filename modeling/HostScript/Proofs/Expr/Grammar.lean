import HostScript.Proofs.Expr.ParserStep

/-!
# The grammar as a relation

`Reads p s s'` says that the part `p` of a script can be read off the parser state `s`, which leaves the
state `s'`. There is one rule for each way in which tokens make up an expression, without fuel, without
binding strengths and without lookahead. The parser reads nothing that the rules do not allow, so a
property of everything that can be parsed is proved by induction on the rules.
-/
namespace HostScript

/-- The expression that a token is by itself. -/
def Token.leaf? (t : Token) : Option Expr :=
  match t.kind with
  | .number => (Number.readLiteral t.text.toList).map fun x => .literal (.number x)
  | .text => some (.literal (.text t.text))
  | .trueWord => some (.literal (.boolean true))
  | .falseWord => some (.literal (.boolean false))
  | .query => some (.query t.text)
  | .variableName => some (.var t.text)
  | .namespaceName => some (.namespaceName t.text)
  | .usingName => some (.usingName t.text)
  | .importName => some (.importName (importParts t.text).1 (importParts t.text).2)
  | _ => none

/-- The construct that a token makes of the expression after it. -/
def Token.opening? (t : Token) : Option (Expr → Expr) :=
  match t.kind with
  | .letName => some (.letBinding t.text)
  | .assign => some (.assign t.text)
  | .returnWord => some .returns
  | _ => none

def Expr.isLeaf : Expr → Bool
  | .literal _ | .query _ | .var _ | .namespaceName _ | .usingName _ | .importName _ _ => true
  | _ => false

theorem Token.isLeaf_of_leaf? {t : Token} {e : Expr} (h : t.leaf? = some e) : e.isLeaf := by
  unfold Token.leaf? at h
  cases hk : t.kind <;> simp only [hk, Option.map_eq_some_iff, Option.some.injEq, reduceCtorEq] at h
  case number =>
    obtain ⟨x, _, rfl⟩ := h
    rfl
  all_goals
    subst h
    rfl

theorem Token.opening?_cases {t : Token} {f : Expr → Expr} (h : t.opening? = some f) :
    (t.kind = .letName ∧ f = .letBinding t.text) ∨ (t.kind = .assign ∧ f = .assign t.text) ∨
      (t.kind = .returnWord ∧ f = .returns) := by
  unfold Token.opening? at h
  cases hk : t.kind <;> simp only [hk, Option.some.injEq, reduceCtorEq] at h
  all_goals
    subst h
    simp

/-- The token that closes a group opened by a token. -/
def Kind.closer? : Kind → Option Kind
  | .leftParen => some .rightParen
  | .leftBracket => some .rightBracket
  | _ => none

theorem Kind.closer?_cases {k l : Kind} (h : k.closer? = some l) :
    (k = .leftParen ∧ l = .rightParen) ∨ (k = .leftBracket ∧ l = .rightBracket) := by
  cases k <;> simp only [Kind.closer?, Option.some.injEq, reduceCtorEq] at h
  all_goals
    subst h
    simp

/-- Whether a token can stand for a parameter in the header of a function. -/
def Token.isParameter (t : Token) : Bool := t.kind == .parameter || t.kind == .variableName

/-- The tokens of a list of parameters, with commas between them and perhaps one more behind. -/
inductive ListsParameters : List String → List Token → Prop where
  | nil : ListsParameters [] []
  | last {t} (ht : t.isParameter) : ListsParameters [t.text] [t]
  | cons {t u names ts} (ht : t.isParameter) (hu : u.kind = .comma) (h : ListsParameters names ts) :
    ListsParameters (t.text :: names) (t :: u :: ts)

theorem parameterNames_lists (allowance : Nat) (ts : List Token) :
    ∃ us, ts = us ++ (parameterNames allowance ts).2 ∧
      ListsParameters (parameterNames allowance ts).1 us := by
  fun_induction parameterNames allowance ts with
  | case1 | case2 | case6 => exact ⟨[], rfl, .nil⟩
  | case3 allowance t ht => exact ⟨[t], rfl, .last ht⟩
  | case4 allowance t ht u after hu more ih =>
    obtain ⟨us, hsplit, hlists⟩ := ih
    refine ⟨t :: u :: us, ?_, .cons ht (beq_iff_eq.mp hu) hlists⟩
    rw [List.cons_append, List.cons_append, ← hsplit]
  | case5 allowance t ht u after hu => exact ⟨[t], rfl, .last ht⟩

theorem length_fst_parameterNames_le (allowance : Nat) (ts : List Token) :
    (parameterNames allowance ts).1.length ≤ allowance := by
  fun_induction parameterNames allowance ts with
  | case1 | case2 | case6 => exact Nat.zero_le _
  | case3 | case5 => exact Nat.succ_le_succ (Nat.zero_le _)
  | case4 _ _ _ _ _ _ _ ih => exact Nat.succ_le_succ ih

section

variable {params : List String} {us : List Token} {v : Token} {allowance : Nat}

/-- A parameter list that is short enough is read up to its closing parenthesis. -/
theorem parameterNames_of_le (h : ListsParameters params us) (hv : v.kind = .rightParen)
    (hle : params.length ≤ allowance) (ts : List Token) :
    parameterNames allowance (us ++ v :: ts) = (params, v :: ts) := by
  have hclose : (v.kind == .parameter || v.kind == .variableName) = false := by rw [hv]; rfl
  induction h generalizing allowance with
  | nil =>
    cases allowance with
    | zero => rfl
    | succ allowance => simp [parameterNames, hclose]
  | @last t ht =>
    obtain ⟨allowance, rfl⟩ := Nat.exists_eq_add_one.mpr hle
    have hkind : (t.kind == .parameter || t.kind == .variableName) = true := ht
    simp [parameterNames, hkind, hv]
  | @cons t _ _ _ ht hu _ ih =>
    obtain ⟨allowance, rfl⟩ := Nat.exists_eq_add_one.mpr (Nat.lt_of_lt_of_le (Nat.succ_pos _) hle)
    have hkind : (t.kind == .parameter || t.kind == .variableName) = true := ht
    have hrest := ih (Nat.le_of_succ_le_succ hle)
    simp [parameterNames, hkind, hu, hrest]

/-- Of a parameter list that is too long, a parameter is left. -/
theorem parameterNames_of_lt (h : ListsParameters params us) (hlt : allowance < params.length)
    (ts : List Token) :
    ∃ u rest, (parameterNames allowance (us ++ ts)).2 = u :: rest ∧ u.kind ≠ .rightParen := by
  have not_close {u : Token} (hu : u.isParameter) : u.kind ≠ .rightParen := by
    intro hkind
    simp [Token.isParameter, hkind] at hu
  induction h generalizing allowance with
  | nil => cases hlt
  | last ht =>
    obtain rfl : allowance = 0 := by simpa using hlt
    exact ⟨_, _, rfl, not_close ht⟩
  | @cons t _ _ _ ht hu _ ih =>
    cases allowance with
    | zero => exact ⟨_, _, rfl, not_close ht⟩
    | succ allowance =>
      have hkind : (t.kind == .parameter || t.kind == .variableName) = true := ht
      obtain ⟨u, rest, hrest, hu'⟩ := ih (Nat.lt_of_succ_lt_succ hlt)
      exact ⟨u, rest, by simp [parameterNames, hkind, hu, hrest], hu'⟩

end

/-- A part of a script: an expression, the arguments of a call, the statements of a body with its
closing brace, or the statements up to the end of the script. -/
inductive Part where
  | expr (e : Expr)
  | arguments (es : List Expr)
  | body (es : List Expr)
  | program (es : List Expr)

/-- The rules of the grammar. A state is given by the unread tokens of the statement, the statements
after it, and the functions found so far. Bodies are read from the statements that follow, so the rest
of the header does not take part in them. -/
inductive Reads : Part → ParserState → ParserState → Prop where
  | leaf {t e ts ps fs} (ht : t.leaf? = some e) : Reads (.expr e) ⟨t :: ts, ps, fs⟩ ⟨ts, ps, fs⟩
  | opening {t f e ts ps fs s'} (ht : t.opening? = some f) (he : Reads (.expr e) ⟨ts, ps, fs⟩ s') :
    Reads (.expr (f e)) ⟨t :: ts, ps, fs⟩ s'
  | step {t u op ts ps fs} (ht : t.kind = .variableName) (hu : compoundOf? u.kind = some (op, false)) :
    Reads (.expr (.compound t.text op (.literal (.number 1)))) ⟨t :: u :: ts, ps, fs⟩ ⟨ts, ps, fs⟩
  | compound {t u op e ts ps fs s'} (ht : t.kind = .variableName)
    (hu : compoundOf? u.kind = some (op, true)) (he : Reads (.expr e) ⟨ts, ps, fs⟩ s') :
    Reads (.expr (.compound t.text op e)) ⟨t :: u :: ts, ps, fs⟩ s'
  | group {t u e ts ps fs ts' ps' fs'} (ht : t.kind.closer? = some u.kind)
    (he : Reads (.expr e) ⟨ts, ps, fs⟩ ⟨u :: ts', ps', fs'⟩) :
    Reads (.expr e) ⟨t :: ts, ps, fs⟩ ⟨ts', ps', fs'⟩
  | call {t u v es ts ps fs ts' ps' fs'} (ht : t.kind = .call) (hu : u.kind = .leftParen)
    (hv : v.kind = .rightParen) (hlen : es.length ≤ listLimit)
    (hes : Reads (.arguments es) ⟨ts, ps, fs⟩ ⟨v :: ts', ps', fs'⟩) :
    Reads (.expr (.call t.text es)) ⟨t :: u :: ts, ps, fs⟩ ⟨ts', ps', fs'⟩
  | define {t u v w params es ts ts' ps fs ps' fs'} (ht : t.kind = .function)
    (hu : u.kind = .leftParen) (hparams : parameterNames listLimit ts = (params, v :: w :: ts'))
    (hv : v.kind = .rightParen) (hw : w.kind = .leftScope) (hnew : t.text ∉ fs)
    (hlen : es.length ≤ bodyLimit)
    (hes : Reads (.body es) ⟨[], ps, fs.insert t.text { params }⟩ ⟨[], ps', fs'⟩) :
    Reads (.expr (.define t.text es)) ⟨t :: u :: ts, ps, fs⟩ ⟨ts', ps', fs'⟩
  | forLoop {t u v w x y init condition step es ts ps fs ts₁ ps₁ fs₁ ts₂ ps₂ fs₂ ts₃ ps₃ fs₃ ps' fs'}
    (ht : t.kind = .forWord) (hu : u.kind = .leftParen)
    (hinit : Reads (.expr init) ⟨ts, ps, fs⟩ ⟨v :: ts₁, ps₁, fs₁⟩) (hv : v.kind = .semicolon)
    (hcondition : Reads (.expr condition) ⟨ts₁, ps₁, fs₁⟩ ⟨w :: ts₂, ps₂, fs₂⟩)
    (hw : w.kind = .semicolon)
    (hstep : Reads (.expr step) ⟨ts₂, ps₂, fs₂⟩ ⟨x :: y :: ts₃, ps₃, fs₃⟩) (hx : x.kind = .rightParen)
    (hy : y.kind = .leftScope) (hlen : es.length ≤ bodyLimit)
    (hes : Reads (.body es) ⟨[], ps₃, fs₃⟩ ⟨[], ps', fs'⟩) :
    Reads (.expr (.forLoop init condition step es)) ⟨t :: u :: ts, ps, fs⟩ ⟨ts₃, ps', fs'⟩
  | whileLoop {t u v w condition es ts ps fs ts₁ ps₁ fs₁ ps' fs'} (ht : t.kind = .whileWord)
    (hu : u.kind = .leftParen)
    (hcondition : Reads (.expr condition) ⟨ts, ps, fs⟩ ⟨v :: w :: ts₁, ps₁, fs₁⟩)
    (hv : v.kind = .rightParen) (hw : w.kind = .leftScope) (hlen : es.length ≤ bodyLimit)
    (hes : Reads (.body es) ⟨[], ps₁, fs₁⟩ ⟨[], ps', fs'⟩) :
    Reads (.expr (.whileLoop condition es)) ⟨t :: u :: ts, ps, fs⟩ ⟨ts₁, ps', fs'⟩
  | block {t es ts ps fs ps' fs'} (ht : t.kind = .leftScope) (hlen : es.length ≤ bodyLimit)
    (hes : Reads (.body es) ⟨[], ps, fs⟩ ⟨[], ps', fs'⟩) :
    Reads (.expr (.block es)) ⟨t :: ts, ps, fs⟩ ⟨ts, ps', fs'⟩
  | access {t e s ts ps fs} (he : Reads (.expr e) s ⟨t :: ts, ps, fs⟩) (ht : t.kind = .access) :
    Reads (.expr (.access e t.text)) s ⟨ts, ps, fs⟩
  | write {t target member value s ts ps fs s'}
    (htarget : Reads (.expr (.access target member)) s ⟨t :: ts, ps, fs⟩) (ht : t.kind = .equals)
    (hvalue : Reads (.expr value) ⟨ts, ps, fs⟩ s') : Reads (.expr (.write target member value)) s s'
  | binary {t op left right s ts ps fs s'} (hleft : Reads (.expr left) s ⟨t :: ts, ps, fs⟩)
    (ht : Joint.ofKind? t.kind = some (.operator op)) (hright : Reads (.expr right) ⟨ts, ps, fs⟩ s') :
    Reads (.expr (.binary op left right)) s s'
  | ternary {t u condition yes no s ts ps fs ts' ps' fs' s'}
    (hcondition : Reads (.expr condition) s ⟨t :: ts, ps, fs⟩) (ht : t.kind = .question)
    (hyes : Reads (.expr yes) ⟨ts, ps, fs⟩ ⟨u :: ts', ps', fs'⟩) (hu : u.kind = .colon)
    (hno : Reads (.expr no) ⟨ts', ps', fs'⟩ s') : Reads (.expr (.ternary condition yes no)) s s'
  | noArgument {s} : Reads (.arguments []) s s
  | lastArgument {e s s'} (he : Reads (.expr e) s s') : Reads (.arguments [e]) s s'
  | argument {t e es s ts ps fs s'} (he : Reads (.expr e) s ⟨t :: ts, ps, fs⟩) (ht : t.kind = .comma)
    (hes : Reads (.arguments es) ⟨ts, ps, fs⟩ s') : Reads (.arguments (e :: es)) s s'
  | bodyEnd {statement ps fs} (hclose : isClosing statement) :
    Reads (.body []) ⟨[], statement :: ps, fs⟩ ⟨[], ps, fs⟩
  | bodyStatement {statement e es ps fs ps' fs' s'} (hopen : ¬isClosing statement)
    (he : Reads (.expr e) ⟨statement, ps, fs⟩ ⟨[], ps', fs'⟩)
    (hes : Reads (.body es) ⟨[], ps', fs'⟩ s') : Reads (.body (e :: es)) ⟨[], statement :: ps, fs⟩ s'
  | programEnd {fs} : Reads (.program []) ⟨[], [], fs⟩ ⟨[], [], fs⟩
  | programStatement {statement e es ps fs ps' fs' s'} (hopen : ¬isClosing statement)
    (he : Reads (.expr e) ⟨statement, ps, fs⟩ ⟨[], ps', fs'⟩)
    (hes : Reads (.program es) ⟨[], ps', fs'⟩ s') :
    Reads (.program (e :: es)) ⟨[], statement :: ps, fs⟩ s'

/-- The members behind an expression, one after the other. -/
theorem Reads.accesses {e : Expr} {s : ParserState} {ms ts : List Token} {ps : List (List Token)}
    {fs : FunctionTable} (h : Reads (.expr e) s ⟨ms ++ ts, ps, fs⟩) (hms : ∀ m ∈ ms, m.kind = .access) :
    Reads (.expr (accessChain e ms)) s ⟨ts, ps, fs⟩ := by
  induction ms generalizing e with
  | nil => exact h
  | cons m ms ih =>
    exact ih (.access h (hms m List.mem_cons_self)) fun n hn => hms n (List.mem_cons_of_mem m hn)

open ParseM

/-- A token that is an expression by itself is read as one, unless it is a variable that is updated. -/
theorem parseOperand_of_leaf {t : Token} {e : Expr} {s : ParserState} {recur : Nat → ParseM Expr}
    (ht : t.leaf? = some e)
    (hend : t.kind = .variableName → (s.tokens.head?.map Token.kind).bind compoundOf? = none) :
    parseOperand recur t s = .ok (e, s) := by
  unfold Token.leaf? at ht
  unfold parseOperand
  revert ht hend
  cases t.kind with
  | number =>
    intro ht _
    obtain ⟨value, hvalue, rfl⟩ := Option.map_eq_some_iff.mp ht
    simp only [numberLiteral, hvalue]
    rfl
  | variableName =>
    rintro ⟨⟩ hend
    simp only [parseVariable]
    rw [bind_of_ok (peekKind?_run _)]
    simp only [hend rfl]
    rfl
  | text | trueWord | falseWord | query | namespaceName | usingName | importName =>
    rintro ⟨⟩ _
    rfl
  | _ => nofun

end HostScript
