import HostScript.Proofs.Expr.Excess
import HostScript.Proofs.Expr.Fuel

/-!
# Limits of lists and bodies

The parser reads at most 30 arguments and parameters and at most 64 statements of a body. On a script that
is well-formed apart from that, these limits are the only reason to fail: the parser stops with the error
for the first limit that is exceeded in the order of reading, or else it reads the whole script.
-/
namespace HostScript

namespace ParseM

/-- What a parser comes to if it may fail for a limit: with no error, it gives `a` and the state `s'`. -/
def Yields {α : Type} (c : ParseM α) (s : ParserState) (excess : Option ParseError) (a : α)
    (s' : ParserState) : Prop :=
  c s = match excess with
    | none => .ok (a, s')
    | some error => .error (.failed error)

namespace Yields

variable {α β : Type} {c : ParseM α} {f : α → ParseM β} {s s₁ s' : ParserState}
  {x y : Option ParseError} {a : α} {b : β}

theorem bind (hc : Yields c s x a s₁) (hf : Yields (f a) s₁ y b s') :
    Yields (c >>= f) s (x.or y) b s' := by
  unfold Yields at hc ⊢
  rw [bind_run, hc]
  cases x with
  | none => exact hf
  | some error => rfl

/-- Behind a parser that does not fail. -/
theorem after (hc : c s = .ok (a, s₁)) (hf : Yields (f a) s₁ x b s') : Yields (c >>= f) s x b s' := by
  unfold Yields
  rw [bind_of_ok hc]
  exact hf

/-- Before a parser that does not fail. -/
theorem andThen (hc : Yields c s x a s₁) (hf : f a s₁ = .ok (b, s')) : Yields (c >>= f) s x b s' := by
  have hnone : Yields (f a) s₁ none b s' := hf
  have hbind := hc.bind hnone
  rwa [Option.or_none] at hbind

theorem map (hc : Yields c s x a s₁) (g : α → β) : Yields (do return g (← c)) s x (g a) s₁ :=
  hc.andThen rfl

/-- A limit that is exceeded ends it all. -/
theorem stop {error : ParseError} (hc : Yields c s (some error) a s₁) :
    (c >>= f) s = .error (.failed error) := by
  unfold Yields at hc
  rw [bind_run, hc]

theorem expect {kind : Kind} {written : Char} {construct : Construct} {f : Unit → ParseM β} {t : Token}
    {ts : List Token} {ps : List (List Token)} {fs : FunctionTable} (ht : t.kind = kind)
    (hf : Yields (f ()) ⟨ts, ps, fs⟩ x b s') :
    Yields (ParseM.expect kind written construct >>= f) ⟨t :: ts, ps, fs⟩ x b s' :=
  after ((expect_cons ..).trans (if_pos ht)) hf

end Yields

end ParseM

open ParseM

section

variable {T : FunctionTable} {t u v w : Token} {e : Expr} {es : List Expr} {x : Option ParseError}
  {s s₁ s' : ParserState} {ts us : List Token} {ps ps' : List (List Token)} {fs fs' : FunctionTable}

/-! The statements of a body and the arguments of a call, as far as they are read. -/

/-- The arguments of a call up to the closing parenthesis, of which `allowance` are accepted. -/
def closedArguments (allowance : Nat) : ParseM (List Expr) := do
  let arguments ← callArguments parseExpression allowance
  expect .rightParen ')' .functionCall
  return arguments

theorem closedArguments_succ (allowance : Nat) (h : ∃ t ts, s.tokens = t :: ts ∧ t.kind ≠ .rightParen) :
    closedArguments (allowance + 1) s =
      (do
        let e ← parseExpression 0
        if ← eat .comma then return e :: (← closedArguments allowance)
        else
          expect .rightParen ')' .functionCall
          return [e] : ParseM (List Expr)) s := by
  obtain ⟨t, ts, hts, ht⟩ := h
  have hpeek : ¬(s.tokens.head?.map Token.kind == some Kind.rightParen) := by simpa [hts] using ht
  unfold closedArguments
  rw [callArguments, bind_assoc, bind_of_ok (peekKind?_run s), if_neg hpeek, bind_assoc]
  refine congrFun (bind_congr fun e => ?_) s
  rw [bind_assoc]
  refine bind_congr fun comma => ?_
  cases comma with
  | true => simp
  | false => simp

theorem closedArguments_zero (h : ∃ t ts, s.tokens = t :: ts ∧ t.kind ≠ .rightParen) :
    closedArguments 0 s = .error (.failed (.missingDelimiter ')' .functionCall)) := by
  obtain ⟨ts, ps, fs⟩ := s
  obtain ⟨t, ts, rfl, ht⟩ := h
  show (expect .rightParen ')' .functionCall >>= fun _ => pure []) _ = _
  rw [bind_run, expect_cons, if_neg ht]

theorem closedArguments_nil (allowance : Nat) (hv : v.kind = .rightParen) :
    closedArguments allowance ⟨v :: ts, ps, fs⟩ = .ok ([], ⟨ts, ps, fs⟩) := by
  have hnone : callArguments parseExpression allowance ⟨v :: ts, ps, fs⟩ =
      .ok ([], ⟨v :: ts, ps, fs⟩) := by
    cases allowance with
    | zero => rfl
    | succ allowance =>
      rw [callArguments, bind_of_ok (peekKind?_run _), if_pos (by simp [hv])]
      rfl
  rw [closedArguments, bind_of_ok hnone, bind_of_ok ((expect_cons ..).trans (if_pos hv))]
  rfl

theorem parseStatement_yields (h : Yields (parseExpression 0) s x e ⟨[], ps, fs⟩) :
    Yields (parseStatement parseExpression) s x e ⟨[], ps, fs⟩ := h.andThen rfl

/-- What the parser for a fragment comes to. The arguments of a call are read with the parenthesis that
closes them. A body and a script leave some tokens that nobody looks at. -/
def Fragment.Yields (T : FunctionTable) (s s' : ParserState) : Fragment → Prop
  | .operand t e => ParseM.Yields (parseOperand parseExpression t) s (e.excess? T) e s'
  | .primary e => ParseM.Yields (parsePrimary parseExpression) s (e.excess? T) e s'
  | .joined strength left e =>
    ∃ x, e.excess? T = (left.excess? T).or x ∧ ParseM.Yields (climbOn strength left) s x e s'
  | .expr strength e => ParseM.Yields (parseExpression strength) s (e.excess? T) e s'
  | .arguments es =>
    ∀ allowance, ParseM.Yields (closedArguments allowance) s
      (listExcess? T (.missingDelimiter ')' .functionCall) allowance es) es
      { s' with tokens := s'.tokens.tail }
  | .body es =>
    ∀ allowance ts, ∃ ts', ParseM.Yields (bodyStatements parseExpression allowance)
      ⟨ts, s.pending, s.functions⟩ (listExcess? T (.bodyTooLong bodyLimit) allowance es) es
      ⟨ts', s'.pending, s'.functions⟩
  | .program es =>
    ∀ fuel more ts, s.fuel ≤ fuel → s.fuel ≤ more →
      ∃ ts', ParseM.Yields (parseAll fuel more) ⟨ts, s.pending, s.functions⟩ (scriptExcess? T es) es
        ⟨ts', s'.pending, s'.functions⟩

theorem parseBody_yields (h : (Fragment.body es).Yields T ⟨[], ps, fs⟩ ⟨[], ps', fs'⟩) :
    Yields (parseBody parseExpression) ⟨ts, ps, fs⟩
      (listExcess? T (.bodyTooLong bodyLimit) bodyLimit es) es ⟨ts, ps', fs'⟩ := by
  obtain ⟨ts', hbody⟩ := h bodyLimit ts
  show Yields (bodyStatements parseExpression bodyLimit >>= fun body => load ts >>= fun _ => pure body)
    _ _ _ _
  exact hbody.andThen rfl

theorem FunctionTable.paramsOf_eq {name : String} {params : List String}
    (h : T[name]? = some { params }) : T.paramsOf name = params := by
  rw [FunctionTable.paramsOf, h]
  rfl

/-- A header whose parameters are too many is left before the body is read, and before the name is looked
up. -/
theorem parseFunction_yields {name : String} {params : List String} (hu : u.kind = .leftParen)
    (hparams : ListsParameters params us) (hv : v.kind = .rightParen) (hw : w.kind = .leftScope)
    (hnew : name ∉ fs) (hentry : T[name]? = some { params })
    (hbody : (Fragment.body es).Yields T ⟨[], ps, fs.insert name { params }⟩ ⟨[], ps', fs'⟩) :
    Yields (parseFunction parseExpression name) ⟨u :: (us ++ v :: w :: ts), ps, fs⟩
      ((Expr.define name es).excess? T) (.define name es) ⟨ts, ps', fs'⟩ := by
  rw [Expr.excess?, FunctionTable.paramsOf_eq hentry]
  apply Yields.expect hu
  unfold Yields
  rw [get_bind]
  by_cases hle : params.length ≤ listLimit
  · rw [if_pos hle, Option.none_or]
    simp only [parameterNames_of_le hparams hv hle]
    rw [bind_of_ok (load_run ..)]
    apply Yields.expect hv
    unfold Yields
    rw [get_bind, if_neg (by simpa using hnew), bind_of_ok (modify_run ..)]
    apply Yields.expect hw
    exact (parseBody_yields hbody).map _
  · obtain ⟨p, rest, hrest, hkind⟩ := parameterNames_of_lt hparams (Nat.lt_of_not_le hle) (v :: w :: ts)
    rw [if_neg hle, Option.some_or]
    rcases hnames : parameterNames listLimit (us ++ v :: w :: ts) with ⟨read, left⟩
    rw [hnames] at hrest
    dsimp only at hrest ⊢
    rw [bind_of_ok (load_run ..), bind_run]
    rw [hrest, expect_cons, if_neg hkind]

theorem parseVariable_yields {op : Operator} {name : String} (hu : compoundOf? u.kind = some (op, true))
    (he : Yields (parseExpression 0) ⟨ts, ps, fs⟩ x e s') :
    Yields (parseVariable parseExpression name) ⟨u :: ts, ps, fs⟩ x (.compound name op e) s' := by
  unfold parseVariable
  apply Yields.after (peekKind?_run _)
  simp only [List.head?_cons, Option.map_some, Option.bind_some, hu]
  apply Yields.after (next?_cons ..)
  exact he.map _

theorem parseVariable_step {op : Operator} {name : String} (hu : compoundOf? u.kind = some (op, false)) :
    parseVariable parseExpression name ⟨u :: ts, ps, fs⟩ =
      .ok (.compound name op (.literal (.number 1)), ⟨ts, ps, fs⟩) := by
  unfold parseVariable
  rw [bind_of_ok (peekKind?_run _)]
  simp only [List.head?_cons, Option.map_some, Option.bind_some, hu]
  rw [bind_of_ok (next?_cons ..)]
  rfl

theorem parsePrimary_members_yields {ms : List Token}
    (he : Yields (parseOperand parseExpression t) ⟨ts, ps, fs⟩ x e ⟨ms ++ us, ps', fs'⟩)
    (hms : ∀ m ∈ ms, m.kind = .access) (hend : ∀ u ∈ us.head?, u.kind ≠ .access)
    (hwrite : ∀ target member, accessChain e ms = .access target member →
      ∀ u ∈ us.head?, u.kind ≠ .equals) :
    Yields (parsePrimary parseExpression) ⟨t :: ts, ps, fs⟩ x (accessChain e ms) ⟨us, ps', fs'⟩ := by
  cases x with
  | none => exact parsePrimary_members hms hend hwrite he
  | some error => exact Yields.after (next?_cons ..) he.stop

theorem parsePrimary_write_yields {ms : List Token} {target value : Expr} {member : String}
    {y : Option ParseError}
    (he : Yields (parseOperand parseExpression t) ⟨ts, ps, fs⟩ x e ⟨ms ++ u :: us, ps', fs'⟩)
    (hms : ∀ m ∈ ms, m.kind = .access) (hchain : accessChain e ms = .access target member)
    (hu : u.kind = .equals) (hvalue : Yields (parseExpression 0) ⟨us, ps', fs'⟩ y value s') :
    Yields (parsePrimary parseExpression) ⟨t :: ts, ps, fs⟩ (x.or y) (.write target member value) s' := by
  cases x with
  | none =>
    unfold Yields
    rw [parsePrimary_write hms hchain hu he, Option.none_or]
    exact hvalue.map _
  | some error => exact Yields.after (next?_cons ..) he.stop

theorem lastArgument_yields (hhead : ∃ t ts, s.tokens = t :: ts ∧ t.kind ≠ .rightParen)
    (he : (Fragment.expr 0 e).Yields T s ⟨v :: ts, ps, fs⟩) (hv : v.kind = .rightParen) :
    (Fragment.arguments [e]).Yields T s ⟨v :: ts, ps, fs⟩ := by
  intro allowance
  cases allowance with
  | zero => exact closedArguments_zero hhead
  | succ allowance =>
    unfold Yields
    rw [closedArguments_succ allowance hhead]
    apply he.bind
    rw [listExcess?_nil]
    apply Yields.after (eat_of_ne (by simp [hv]))
    exact Yields.expect hv rfl

theorem argument_yields (hhead : ∃ t ts, s.tokens = t :: ts ∧ t.kind ≠ .rightParen)
    (he : (Fragment.expr 0 e).Yields T s ⟨t :: ts, ps, fs⟩) (ht : t.kind = .comma)
    (hes : (Fragment.arguments es).Yields T ⟨ts, ps, fs⟩ s') :
    (Fragment.arguments (e :: es)).Yields T s s' := by
  intro allowance
  cases allowance with
  | zero => exact closedArguments_zero hhead
  | succ allowance =>
    unfold Yields
    rw [closedArguments_succ allowance hhead]
    apply he.bind
    apply Yields.after ((eat_cons ..).trans (if_pos ht))
    exact (hes allowance).map _

theorem bodyEnd_yields {statement : List Token} (hclose : isClosing statement) :
    (Fragment.body []).Yields T ⟨[], statement :: ps, fs⟩ ⟨[], ps, fs⟩ := by
  intro allowance ts
  refine ⟨ts, ?_⟩
  rw [listExcess?_nil]
  cases allowance with
  | zero =>
    rw [bodyStatements]
    apply Yields.after (nextStatement?_cons ..)
    simp only [hclose, if_true]
    rfl
  | succ allowance =>
    rw [bodyStatements]
    apply Yields.after (nextStatement?_cons ..)
    simp only [hclose, if_true]
    rfl

theorem bodyStatement_yields {statement : List Token} (hopen : ¬isClosing statement)
    (he : (Fragment.expr 0 e).Yields T ⟨statement, ps, fs⟩ ⟨[], ps', fs'⟩)
    (hes : (Fragment.body es).Yields T ⟨[], ps', fs'⟩ s') :
    (Fragment.body (e :: es)).Yields T ⟨[], statement :: ps, fs⟩ s' := by
  intro allowance ts
  cases allowance with
  | zero =>
    refine ⟨ts, ?_⟩
    rw [bodyStatements]
    apply Yields.after (nextStatement?_cons ..)
    simp only [hopen]
    rfl
  | succ allowance =>
    obtain ⟨ts', hrest⟩ := hes allowance []
    refine ⟨ts', ?_⟩
    rw [bodyStatements]
    apply Yields.after (nextStatement?_cons ..)
    simp only [hopen]
    apply Yields.after (load_run ..)
    exact (parseStatement_yields he).bind (hrest.map _)

theorem parseAll_statement {fuel more : Nat} {statement : List Token} (hopen : ¬isClosing statement)
    (hfuel : ParserState.fuel ⟨statement, ps, fs⟩ ≤ fuel) :
    parseAll fuel (more + 1) ⟨ts, statement :: ps, fs⟩ =
      (parseStatement parseExpression >>= fun e => do return e :: (← parseAll fuel more))
        ⟨statement, ps, fs⟩ := by
  have hsame : parseStatement (parseExpr fuel) ⟨statement, ps, fs⟩ =
      parseStatement parseExpression ⟨statement, ps, fs⟩ :=
    (parseStatement_settled (parseExpr_interchangeable fuel) (.of_size hfuel)).eq
  have hclosing : closing? statement = none := by simpa [isClosing] using hopen
  rw [parseAll, bind_of_ok (nextStatement?_cons ..)]
  simp only [hclosing]
  rw [bind_of_ok (load_run ..), bind_run, bind_run, hsame]

/-- A statement of the script uses up fuel, so what is left of it suffices for the later statements. -/
theorem programStatement_yields {statement : List Token} (hopen : ¬isClosing statement)
    (he : (Fragment.expr 0 e).Yields T ⟨statement, ps, fs⟩ ⟨[], ps', fs'⟩)
    (hes : (Fragment.program es).Yields T ⟨[], ps', fs'⟩ s') :
    (Fragment.program (e :: es)).Yields T ⟨[], statement :: ps, fs⟩ s' := by
  intro fuel more ts hfuel hmore
  obtain ⟨more, rfl⟩ := Nat.exists_eq_add_one.mpr (Nat.lt_of_lt_of_le (ParserState.fuel_pos _) hmore)
  have hstatement :
      ParserState.fuel ⟨statement, ps, fs⟩ < ParserState.fuel ⟨[], statement :: ps, fs⟩ := by
    simp only [ParserState.fuel, parseFuel, List.length_nil]
    omega
  have hhead : parseAll fuel (more + 1) ⟨ts, statement :: ps, fs⟩ = _ :=
    parseAll_statement hopen (by omega)
  rw [Fragment.Yields] at he
  rw [scriptExcess?_cons]
  cases hexcess : e.excess? T with
  | some error =>
    rw [hexcess] at he
    refine ⟨[], ?_⟩
    unfold Yields
    rw [hhead]
    exact (parseStatement_yields he).stop
  | none =>
    rw [hexcess] at he
    have hused : ParserState.fuel ⟨[], ps', fs'⟩ < ParserState.fuel ⟨statement, ps, fs⟩ :=
      (parseExpression_eats he).size_lt
    obtain ⟨ts', hrest⟩ := hes fuel more [] (by omega) (by omega)
    refine ⟨ts', ?_⟩
    unfold Yields
    rw [hhead]
    exact (parseStatement_yields he).bind (hrest.map _)

end

/-- The functions found so far stay as they are. -/
theorem WellFormed.within {L : Limits} {p : Fragment} {s s' : ParserState} (h : WellFormed L p s s') :
    s.functions.Within s'.functions := by
  induction h with
  | leaf | step | stop | noArgument | bodyEnd | programEnd => exact fun _ _ hentry => hentry
  | opening _ _ ih | compound _ _ _ ih | group _ _ ih | call _ _ _ _ _ ih | block _ _ _ ih
  | members _ _ _ _ ih | lastArgument _ _ ih => exact ih
  | @define t _ _ _ params _ _ _ _ fs _ _ _ _ _ _ _ _ hnew _ _ ih =>
    intro name entry hentry
    apply ih
    rw [Std.ExtTreeMap.getElem?_insert, if_neg, hentry]
    intro hname
    obtain rfl := Std.LawfulEqCmp.eq_of_compare hname
    exact hnew (Std.ExtTreeMap.mem_iff_isSome_getElem?.mpr (by rw [hentry]; rfl))
  | forLoop _ _ _ _ _ _ _ _ _ _ _ ihinit ihcondition ihstep ihbody =>
    exact ((ihinit.trans ihcondition).trans ihstep).trans ihbody
  | whileLoop _ _ _ _ _ _ _ ih ih' | write _ _ _ _ _ ih ih' | operator _ _ _ _ ih ih'
  | ternary _ _ _ _ _ ih ih' | expr _ _ ih ih' | argument _ _ _ ih ih' | bodyStatement _ _ _ ih ih'
  | programStatement _ _ _ ih ih' => exact ih.trans ih'

/-- The parser reads whatever is well-formed, unless a limit is exceeded. Parameters are counted in a table
that may have more functions than those found up to the end of the fragment. -/
theorem WellFormed.yields {L : Limits} {T : FunctionTable} {p : Fragment} {s s' : ParserState}
    (h : WellFormed L p s s') (hT : s'.functions.Within T) : p.Yields T s s' := by
  induction h with
  | @leaf t e s ht hend =>
    have hnone : e.excess? T = none := by
      have hleaf := Token.isLeaf_of_leaf? ht
      cases e with
      | literal | query | var | namespaceName | usingName | importName => rfl
      | _ => cases hleaf
    rw [Fragment.Yields, hnone]
    exact parseOperand_of_leaf ht hend
  | opening ht _ ih =>
    have he := ih hT
    rcases Token.opening?_cases ht with ⟨hk, rfl⟩ | ⟨hk, rfl⟩ | ⟨hk, rfl⟩
    all_goals
      unfold Fragment.Yields parseOperand
      simp only [hk]
      exact he.map _
  | step ht hu =>
    unfold Fragment.Yields parseOperand
    simp only [ht]
    exact parseVariable_step hu
  | compound ht hu _ ih =>
    unfold Fragment.Yields parseOperand
    simp only [ht]
    exact parseVariable_yields hu (ih hT)
  | group ht _ ih =>
    have he := ih hT
    rcases Kind.closer?_cases ht with ⟨hk, hu⟩ | ⟨hk, hu⟩
    all_goals
      unfold Fragment.Yields parseOperand
      simp only [hk]
      exact he.andThen (bind_of_ok ((expect_cons ..).trans (if_pos hu)))
  | @call t u v es ts ps fs ts' ps' fs' ht hu hv _ _ ih =>
    have hes := (ih hT listLimit).map (Expr.call t.text)
    rw [Fragment.Yields, Expr.excess?]
    unfold parseOperand parseCall
    simp only [ht]
    apply Yields.expect hu
    simpa [closedArguments] using hes
  | define ht hu hparams _ hv hw hnew _ hes ih =>
    have hentry := hes.within.trans hT _ _ Std.ExtTreeMap.getElem?_insert_self
    unfold Fragment.Yields parseOperand
    simp only [ht]
    exact parseFunction_yields hu hparams hv hw hnew hentry (ih hT)
  | forLoop ht hu _ hv hcondition hw hstep hx hy _ hes ihinit ihcondition ihstep ihbody =>
    have hT₃ := hes.within.trans hT
    have hT₂ := hstep.within.trans hT₃
    have hT₁ := hcondition.within.trans hT₂
    unfold Fragment.Yields parseOperand parseFor
    simp only [ht]
    apply Yields.expect hu
    apply (ihinit hT₁).bind
    apply Yields.expect hv
    apply (ihcondition hT₂).bind
    apply Yields.expect hw
    apply (ihstep hT₃).bind
    apply Yields.expect hx
    apply Yields.expect hy
    exact (parseBody_yields (ihbody hT)).map _
  | whileLoop ht hu _ hv hw _ hes ihcondition ihbody =>
    unfold Fragment.Yields parseOperand parseWhile
    simp only [ht]
    apply Yields.expect hu
    apply (ihcondition (hes.within.trans hT)).bind
    apply Yields.expect hv
    apply Yields.expect hw
    exact (parseBody_yields (ihbody hT)).map _
  | block ht _ _ ih =>
    unfold Fragment.Yields parseOperand
    simp only [ht]
    exact (parseBody_yields (ih hT)).map _
  | @members t e ms _ _ _ _ _ _ _ hms hend hwrite ih =>
    rw [Fragment.Yields, Expr.excess?_accessChain]
    exact parsePrimary_members_yields (ih hT) hms hend hwrite
  | @write t u e ms target member value _ _ _ _ _ _ _ _ hms hchain hu hvalue ih ihvalue =>
    have htarget : target.excess? T = e.excess? T := by
      rw [← Expr.excess?_accessChain T e ms, hchain]
      rfl
    rw [Fragment.Yields, Expr.excess?, htarget]
    exact parsePrimary_write_yields (ih (hvalue.within.trans hT)) hms hchain hu (ihvalue hT)
  | stop hend => exact ⟨none, (Option.or_none).symm, climbOn_of_loose hend _⟩
  | @operator _ _ _ _ right _ _ _ _ _ _ ht hstrength _ he ihright ih =>
    obtain ⟨x, hx, hjoined⟩ := ih hT
    refine ⟨(right.excess? T).or x, ?_, ?_⟩
    · rw [hx, Expr.excess?, Option.or_assoc]
    · unfold Yields
      rw [climbOn_operator_eq ht hstrength]
      exact (ihright (he.within.trans hT)).bind hjoined
  | ternary ht hstrength _ hu hno ihyes ihno =>
    refine ⟨_, rfl, ?_⟩
    unfold Yields
    rw [climbOn_ternary_eq ht hstrength]
    apply (ihyes (hno.within.trans hT)).bind
    apply Yields.after ((eat_cons ..).trans (if_pos hu))
    exact (ihno hT).map _
  | expr _ he ihleft ih =>
    obtain ⟨x, hx, hjoined⟩ := ih hT
    rw [Fragment.Yields, hx]
    unfold Yields
    rw [parseExpression_eq]
    exact (ihleft (he.within.trans hT)).bind hjoined
  | noArgument hv =>
    intro allowance
    rw [listExcess?_nil]
    exact closedArguments_nil allowance hv
  | lastArgument he hv ih => exact lastArgument_yields he.head_of_expr (ih hT) hv
  | argument he ht hes ih ihrest =>
    exact argument_yields he.head_of_expr (ih (hes.within.trans hT)) ht (ihrest hT)
  | bodyEnd hclose => exact bodyEnd_yields hclose
  | bodyStatement hopen _ hes ih ihrest =>
    exact bodyStatement_yields hopen (ih (hes.within.trans hT)) (ihrest hT)
  | programEnd =>
    intro fuel more ts _ hmore
    obtain ⟨more, rfl⟩ := Nat.exists_eq_add_one.mpr (Nat.lt_of_lt_of_le (ParserState.fuel_pos _) hmore)
    exact ⟨ts, rfl⟩
  | programStatement hopen _ hes ih ihrest =>
    exact programStatement_yields hopen (ih (hes.within.trans hT)) (ihrest hT)

/-- A well-formed script is read as a whole, or the parser stops at the first limit that is exceeded. -/
theorem parse_of_wellFormed {tree : TokenTree} {es : List Expr} {fs : FunctionTable}
    (h : WellFormed .unbounded (.program es) ⟨[], tree.statements, ∅⟩ ⟨[], [], fs⟩) :
    parse tree = match scriptExcess? fs es with
      | none => .ok ⟨es, fs⟩
      | some error => .error error := by
  have hfuel : ParserState.fuel ⟨[], tree.statements, ∅⟩ ≤ parseFuel tree.statements := by
    simp [ParserState.fuel]
  obtain ⟨ts, hyields⟩ := h.yields (fun _ _ hentry => hentry) _ _ [] hfuel hfuel
  have hrun : (parseAll (parseFuel tree.statements) (parseFuel tree.statements)).run
      { pending := tree.statements } = _ := hyields
  rw [parse_eq, parseScript, parseStatements, hrun]
  cases scriptExcess? fs es with
  | none => rfl
  | some error => rfl

/-- The limits of lists and bodies are exact at every depth. A script is accepted if and only if it is
well-formed, without regard to limits, and no call in it has more than 30 arguments, no function more than
30 parameters and no body more than 64 statements. A well-formed script that exceeds a limit is refused for
that limit, if it exceeds no other, and in any case for the first that is exceeded in the order of
reading. -/
theorem parse_limits (tree : TokenTree) :
    (∀ parsed, parse tree = .ok parsed ↔
      WellFormed .unbounded (.program parsed.expressions) ⟨[], tree.statements, ∅⟩
          ⟨[], [], parsed.functions⟩ ∧
        ∀ n ∈ Expr.nodesAll parsed.expressions, ∀ error, ¬n.Exceeds parsed.functions error) ∧
      ∀ es fs, WellFormed .unbounded (.program es) ⟨[], tree.statements, ∅⟩ ⟨[], [], fs⟩ →
        (∀ n ∈ Expr.nodesAll es, ∀ error, n.Exceeds fs error →
          (∀ m ∈ Expr.nodesAll es, ∀ other, m.Exceeds fs other → other = error) →
            parse tree = .error error) ∧
        parse tree = match scriptExcess? fs es with
          | none => .ok ⟨es, fs⟩
          | some error => .error error := by
  constructor
  · intro parsed
    have hreports := scriptExcess?_reports parsed.functions parsed.expressions
    constructor
    · intro h
      have hwellFormed := parse_wellFormed Limits.within_unbounded h
      refine ⟨hwellFormed, ?_⟩
      rw [parse_of_wellFormed hwellFormed] at h
      cases hexcess : scriptExcess? parsed.functions parsed.expressions with
      | none => rwa [hexcess] at hreports
      | some error =>
        rw [hexcess] at h
        cases h
    · rintro ⟨hwellFormed, hwithin⟩
      rw [parse_of_wellFormed hwellFormed]
      cases hexcess : scriptExcess? parsed.functions parsed.expressions with
      | none => rfl
      | some error =>
        rw [hexcess] at hreports
        obtain ⟨n, hn, hexceeds⟩ := hreports
        exact absurd hexceeds (hwithin n hn error)
  · intro es fs hwellFormed
    have hparse := parse_of_wellFormed hwellFormed
    refine ⟨fun n hn error hexceeds hunique => ?_, hparse⟩
    have hreports := scriptExcess?_reports fs es
    rw [hparse]
    cases hexcess : scriptExcess? fs es with
    | none =>
      rw [hexcess] at hreports
      exact absurd hexceeds (hreports n hn error)
    | some first =>
      rw [hexcess] at hreports
      obtain ⟨m, hm, hfirst⟩ := hreports
      rw [hunique m hm first hfirst]

section

/-! Bodies and argument lists of any length, of one variable over and over. -/

variable {t : Token} {e : Expr} {ts rest : List Token} {ps ps' : List (List Token)}
  {fs fs' : FunctionTable}

theorem WellFormed.expr_of_operand
    (h : WellFormed .unbounded (.operand t e) ⟨ts, ps, fs⟩ ⟨rest, ps', fs'⟩)
    (hmember : ∀ u ∈ rest.head?, u.kind ≠ .access ∧ u.kind ≠ .equals) (hend : Loose 0 rest) :
    WellFormed .unbounded (.expr 0 e) ⟨t :: ts, ps, fs⟩ ⟨rest, ps', fs'⟩ := by
  have hoperand : WellFormed .unbounded (.operand t e) ⟨ts, ps, fs⟩ ⟨[] ++ rest, ps', fs'⟩ := h
  have hprimary :
      WellFormed .unbounded (.primary (accessChain e [])) ⟨t :: ts, ps, fs⟩ ⟨rest, ps', fs'⟩ :=
    .members hoperand nofun (fun u hu => (hmember u hu).1) fun _ _ _ u hu => (hmember u hu).2
  exact .expr hprimary (.stop hend)

theorem wellFormed_variable (name : String)
    (hupdate : (rest.head?.map Token.kind).bind compoundOf? = none)
    (hmember : ∀ u ∈ rest.head?, u.kind ≠ .access ∧ u.kind ≠ .equals) (hend : Loose 0 rest) :
    WellFormed .unbounded (.expr 0 (.var name)) ⟨⟨.variableName, name⟩ :: rest, ps, fs⟩ ⟨rest, ps, fs⟩ :=
  (WellFormed.leaf rfl fun _ => hupdate).expr_of_operand hmember hend

theorem wellFormed_body_replicate (n : Nat) (ps : List (List Token)) :
    WellFormed .unbounded (.body (List.replicate n (.var "a")))
      ⟨[], List.replicate n [⟨.variableName, "a"⟩] ++ [⟨.rightScope, "\x7d"⟩] :: ps, fs⟩
      ⟨[], ps, fs⟩ := by
  induction n with
  | zero => exact .bodyEnd rfl
  | succ n ih =>
    rw [List.replicate_succ, List.replicate_succ]
    exact .bodyStatement nofun (wellFormed_variable "a" rfl nofun (.nil 0)) ih

theorem wellFormed_arguments_replicate (n : Nat) :
    WellFormed .unbounded (.arguments (List.replicate n (.var "a")))
      ⟨(List.replicate n [⟨.variableName, "a"⟩, ⟨.comma, ","⟩]).flatten ++ [⟨.rightParen, ")"⟩], ps, fs⟩
      ⟨[⟨.rightParen, ")"⟩], ps, fs⟩ := by
  induction n with
  | zero => exact .noArgument rfl
  | succ n ih =>
    rw [List.replicate_succ, List.replicate_succ]
    refine .argument (wellFormed_variable "a" rfl ?_ ?_) rfl ih
    · rintro u ⟨⟩
      decide
    · rintro u ⟨⟩ joint hjoint
      cases hjoint

end

/-- `while(b){ { a; a; … } }`, with `n` statements in the inner body. -/
def nestedBodies (n : Nat) : TokenTree :=
  .scope (([⟨.whileWord, "while"⟩, ⟨.leftParen, "("⟩, ⟨.variableName, "b"⟩, ⟨.rightParen, ")"⟩,
      ⟨.leftScope, "\x7b"⟩]
    :: [⟨.leftScope, "\x7b"⟩]
    :: (List.replicate n [⟨.variableName, "a"⟩]
      ++ [[⟨.rightScope, "\x7d"⟩], [⟨.rightScope, "\x7d"⟩]])).map .statement)

theorem nestedBodies_wellFormed (n : Nat) :
    WellFormed .unbounded (.program [.whileLoop (.var "b") [.block (List.replicate n (.var "a"))]])
      ⟨[], (nestedBodies n).statements, ∅⟩ ⟨[], [], ∅⟩ := by
  rw [nestedBodies, TokenTree.statements, TokenTree.statementsAll_map_statement]
  have hblock (ps : List (List Token)) :
      WellFormed .unbounded (.expr 0 (.block (List.replicate n (.var "a"))))
        ⟨[⟨.leftScope, "\x7b"⟩],
          List.replicate n [⟨.variableName, "a"⟩] ++ [⟨.rightScope, "\x7d"⟩] :: ps, ∅⟩ ⟨[], ps, ∅⟩ :=
    (WellFormed.block rfl trivial (wellFormed_body_replicate n ps)).expr_of_operand nofun (.nil 0)
  have hcondition (ps : List (List Token)) : WellFormed .unbounded (.expr 0 (.var "b"))
      ⟨[⟨.variableName, "b"⟩, ⟨.rightParen, ")"⟩, ⟨.leftScope, "\x7b"⟩], ps, ∅⟩
      ⟨[⟨.rightParen, ")"⟩, ⟨.leftScope, "\x7b"⟩], ps, ∅⟩ := by
    refine wellFormed_variable "b" rfl ?_ ?_
    · rintro u ⟨⟩
      decide
    · rintro u ⟨⟩ joint hjoint
      cases hjoint
  refine .programStatement nofun ?_ .programEnd
  refine WellFormed.expr_of_operand ?_ nofun (.nil 0)
  exact .whileLoop rfl rfl (hcondition _) rfl rfl trivial (.bodyStatement nofun (hblock _) (.bodyEnd rfl))

/-- `f(a, a, …,)`, with `n` arguments and a comma behind the last one. -/
def trailingComma (n : Nat) : TokenTree :=
  .scope [.statement (⟨.call, "f"⟩ :: ⟨.leftParen, "("⟩
    :: ((List.replicate n [⟨.variableName, "a"⟩, ⟨.comma, ","⟩]).flatten ++ [⟨.rightParen, ")"⟩]))]

theorem trailingComma_wellFormed (n : Nat) :
    WellFormed .unbounded (.program [.call "f" (List.replicate n (.var "a"))])
      ⟨[], (trailingComma n).statements, ∅⟩ ⟨[], [], ∅⟩ := by
  refine .programStatement nofun ?_ .programEnd
  refine WellFormed.expr_of_operand ?_ nofun (.nil 0)
  exact .call rfl rfl rfl trivial (wellFormed_arguments_replicate n)

theorem exceeds_nestedBodies {T : FunctionTable} {n : Nat} {m : Expr} {error : ParseError}
    (hm : m ∈ Expr.nodesAll [.whileLoop (.var "b") [.block (List.replicate n (.var "a"))]])
    (h : m.Exceeds T error) : 64 < n ∧ error = .bodyTooLong 64 := by
  simp only [Expr.nodesAll_cons, Expr.nodes, Expr.nodesAll_nil, List.append_nil, List.mem_cons,
    List.mem_append, List.not_mem_nil, or_false, Expr.mem_nodesAll, List.mem_replicate] at hm
  obtain rfl | rfl | rfl | ⟨e, ⟨-, rfl⟩, hm⟩ := hm
  · cases h with
    | body hbody hlen =>
      cases hbody
      simp at hlen
  · exact absurd h (Expr.not_exceeds_var error)
  · cases h with
    | body hbody hlen =>
      cases hbody
      exact ⟨by simpa using hlen, rfl⟩
  · rw [Expr.nodes, List.mem_singleton] at hm
    subst hm
    exact absurd h (Expr.not_exceeds_var error)

theorem exceeds_trailingComma {T : FunctionTable} {n : Nat} {m : Expr} {error : ParseError}
    (hm : m ∈ Expr.nodesAll [.call "f" (List.replicate n (.var "a"))]) (h : m.Exceeds T error) :
    30 < n ∧ error = .missingDelimiter ')' .functionCall := by
  simp only [Expr.nodesAll_cons, Expr.nodes, Expr.nodesAll_nil, List.append_nil, List.mem_cons,
    Expr.mem_nodesAll, List.mem_replicate] at hm
  obtain rfl | ⟨e, ⟨-, rfl⟩, hm⟩ := hm
  · cases h with
    | arguments hlen => exact ⟨by simpa using hlen, rfl⟩
    | body hbody => cases hbody
  · rw [Expr.nodes, List.mem_singleton] at hm
    subst hm
    exact absurd h (Expr.not_exceeds_var error)

/-- A body of 64 statements in the body of a loop and one of 65, a call with 30 arguments and one with 31,
each with a comma behind the last argument. -/
theorem parse_limits_nested :
    (∃ parsed, parse (nestedBodies 64) = .ok parsed) ∧ parse (nestedBodies 65) = .error (.bodyTooLong 64) ∧
      (∃ parsed, parse (trailingComma 30) = .ok parsed) ∧
      parse (trailingComma 31) = .error (.missingDelimiter ')' .functionCall) := by
  refine ⟨⟨⟨[.whileLoop (.var "b") [.block (List.replicate 64 (.var "a"))]], ∅⟩, ?_⟩, ?_,
    ⟨⟨[.call "f" (List.replicate 30 (.var "a"))], ∅⟩, ?_⟩, ?_⟩
  · refine ((parse_limits _).1 _).mpr ⟨nestedBodies_wellFormed 64, fun m hm error h => ?_⟩
    exact absurd (exceeds_nestedBodies hm h).1 (by decide)
  · refine ((parse_limits _).2 _ ∅ (nestedBodies_wellFormed 65)).1
      (.block (List.replicate 65 (.var "a"))) ?_ _ (.body rfl (by simp))
      fun m hm other h => (exceeds_nestedBodies hm h).2
    simp [Expr.nodes]
  · refine ((parse_limits _).1 _).mpr ⟨trailingComma_wellFormed 30, fun m hm error h => ?_⟩
    exact absurd (exceeds_trailingComma hm h).1 (by decide)
  · refine ((parse_limits _).2 _ ∅ (trailingComma_wellFormed 31)).1
      (.call "f" (List.replicate 31 (.var "a"))) ?_ _ (.arguments (by simp))
      fun m hm other h => (exceeds_trailingComma hm h).2
    simp [Expr.nodes]

end HostScript
