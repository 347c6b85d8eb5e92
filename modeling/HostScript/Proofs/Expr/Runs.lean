import HostScript.Proofs.Expr.WellFormed

/-!
# Runs of the parser

What a run of the parser comes to is said once, for all of its parts. Two runs are compared, which may take
their statements from different streams and may call different parsers of expressions. They come to the same
end if these parsers do so on whatever is left to read. A run that ends with a result has read a well-formed
fragment. One that fails does so for a token that was there to read, and fuel runs out only if it may.
-/
namespace HostScript

/-- An error that is about a token with the property `T`, if it repeats the text of one. -/
def ParseError.Concerns (T : Token → Prop) : ParseError → Prop
  | .malformedNumber literal => T ⟨.number, literal⟩ ∧ Number.readLiteral literal.toList = none
  | .unexpectedToken text => ∃ kind, T ⟨kind, text⟩
  | .duplicateFunction name => T ⟨.function, name⟩
  | _ => True

/-- What two runs of the parser are compared by. The second one takes its statements from what `view` makes
of those of the first. All tokens that are left to read have the property `offers`, and `starves` says
whether a run may end for want of fuel. -/
structure Comparison (σ σ' : Type) [Std.Stream σ (List Token)] [Std.Stream σ' (List Token)] where
  view : σ → σ'
  next?_view (pending : σ) :
    Std.Stream.next? (view pending) = (Std.Stream.next? pending).map fun p => (p.1, view p.2)
  offers : Token → Prop
  starves : Prop

namespace Comparison

def same (σ : Type) [Std.Stream σ (List Token)] (starves : Prop) : Comparison σ σ where
  view := id
  next?_view _ := (congrFun Option.map_id _).symm
  offers _ := True
  starves := starves

/-- Runs on a stream and on the list of its statements, with fuel enough. -/
def listed (σ : Type) [Std.Stream σ (List Token)] [Listed σ] (offers : Token → Prop) :
    Comparison σ (List (List Token)) where
  view := Listed.statements
  next?_view := Listed.next?_statements
  offers := offers
  starves := False

end Comparison

variable {σ σ' : Type} [Std.Stream σ (List Token)] [Std.Stream σ' (List Token)]

def Comparison.state (K : Comparison σ σ') (s : ParserState σ) : ParserState σ' :=
  ⟨s.tokens, K.view s.pending, s.functions⟩

/-- What two parsers come to from a state: the same end, want of fuel only if it is allowed, an error only
about a token that was there to read, and otherwise a result and a state of which `Q` holds. -/
structure ParseM.Settled {α : Type} (K : Comparison σ σ') (Q : α → ParserState σ → Prop)
    (c : ParseFrom σ α) (c' : ParseFrom σ' α) (s : ParserState σ) : Prop where
  same : c' (K.state s) = (c s).map fun r => (r.1, K.state r.2)
  fuelled : c s = .error .outOfFuel → K.starves
  concerns : ∀ error, c s = .error (.failed error) → error.Concerns K.offers
  returns : ∀ a t, c s = .ok (a, t) → Q a t

open ParseM

namespace ParseM.Settled

variable {α β : Type} {K : Comparison σ σ'} {Q : α → ParserState σ → Prop} {R : β → ParserState σ → Prop}
  {c d : ParseFrom σ α} {c' d' : ParseFrom σ' α} {f : α → ParseFrom σ β} {f' : α → ParseFrom σ' β}
  {s t : ParserState σ}

theorem pure {a : α} (h : Q a s) : Settled K Q (Pure.pure a) (Pure.pure a) s := by
  refine ⟨rfl, nofun, nofun, fun b t hrun => ?_⟩
  cases hrun
  exact h

theorem fail {error : ParseError} (h : error.Concerns K.offers) :
    Settled K Q (ParseM.fail error : ParseFrom σ α) (ParseM.fail error) s := by
  refine ⟨rfl, nofun, fun other hrun => ?_, nofun⟩
  cases hrun
  exact h

theorem outOfFuel (h : K.starves) :
    Settled K Q (throw .outOfFuel : ParseFrom σ α) (throw .outOfFuel) s := ⟨rfl, fun _ => h, nofun, nofun⟩

theorem eq {starves : Prop} {c₁ c₂ : ParseFrom σ α} (h : Settled (.same σ starves) Q c₁ c₂ s) :
    c₁ s = c₂ s := by
  have hsame : c₂ s = (c₁ s).map id := h.same
  rw [hsame]
  cases c₁ s with
  | ok r => rfl
  | error stop => rfl

theorem mono (h : Settled K Q c c' s) {Q' : α → ParserState σ → Prop} (hQ : ∀ a t, Q a t → Q' a t) :
    Settled K Q' c c' s :=
  ⟨h.same, h.fuelled, h.concerns, fun a t hok => hQ a t (h.returns a t hok)⟩

theorem of_run (h : c s = d t) (h' : c' (K.state s) = d' (K.state t)) (hd : Settled K Q d d' t) :
    Settled K Q c c' s := by
  refine ⟨?_, ?_, ?_, ?_⟩
  · rw [h, h']
    exact hd.same
  all_goals rw [h]
  · exact hd.fuelled
  · exact hd.concerns
  · exact hd.returns

theorem bind (hc : Settled K Q c c' s) (hf : ∀ a t, Q a t → Settled K R (f a) (f' a) t) :
    Settled K R (c >>= f) (c' >>= f') s := by
  have hsame := hc.same
  cases h : c s with
  | ok r =>
    rw [h] at hsame
    exact of_run (bind_of_ok h) (bind_of_ok hsame) (hf r.1 r.2 (hc.returns r.1 r.2 h))
  | error stop =>
    rw [h] at hsame
    have hrun : (c >>= f) s = .error stop := by rw [bind_run, h]
    have hrun' : (c' >>= f') (K.state s) = .error stop := by
      rw [bind_run, hsame]
      rfl
    refine ⟨by rw [hrun, hrun']; rfl, ?_, ?_, ?_⟩
    all_goals rw [hrun]
    · rintro ⟨⟩
      exact hc.fuelled h
    · rintro error ⟨⟩
      exact hc.concerns error h
    · nofun

/-- Behind a parser that comes to the same result in both runs. -/
theorem after {a : α} (h : c s = .ok (a, t)) (h' : c' (K.state s) = .ok (a, K.state t))
    (hf : Settled K R (f a) (f' a) t) : Settled K R (c >>= f) (c' >>= f') s :=
  of_run (bind_of_ok h) (bind_of_ok h') hf

theorem get_bind {f : ParserState σ → ParseFrom σ β} {f' : ParserState σ' → ParseFrom σ' β}
    (hf : Settled K R (f s) (f' (K.state s)) s) : Settled K R (get >>= f) (get >>= f') s :=
  of_run (ParseM.get_bind f s) (ParseM.get_bind f' _) hf

theorem load_bind {tokens : List Token} {f : Unit → ParseFrom σ β} {f' : Unit → ParseFrom σ' β}
    (hf : Settled K R (f ()) (f' ()) { s with tokens }) :
    Settled K R (load tokens >>= f) (load tokens >>= f') s := after rfl rfl hf

theorem peekKind?_bind {f : Option Kind → ParseFrom σ β} {f' : Option Kind → ParseFrom σ' β}
    (hf : Settled K R (f (s.tokens.head?.map Token.kind)) (f' (s.tokens.head?.map Token.kind)) s) :
    Settled K R (peekKind? >>= f) (peekKind? >>= f') s := after (peekKind?_run s) (peekKind?_run _) hf

theorem next?_bind {u : Token} {ts : List Token} {ps : σ} {fs : FunctionTable}
    {f : Option Token → ParseFrom σ β} {f' : Option Token → ParseFrom σ' β}
    (hf : Settled K R (f (some u)) (f' (some u)) ⟨ts, ps, fs⟩) :
    Settled K R (next? >>= f) (next? >>= f') ⟨u :: ts, ps, fs⟩ :=
  after (next?_cons ..) (next?_cons ..) hf

end ParseM.Settled

variable [Listed σ] {K : Comparison σ σ'} {k : Nat} {u : Token} {ts statement : List Token} {ps rest : σ}
  {fs fs' : FunctionTable}

/-- States of size `k` and less, with tokens that are offered. -/
structure Comparison.Admits (K : Comparison σ σ') (k : Nat) (s : ParserState σ) : Prop where
  small : s.size ≤ k
  tokens : ∀ t ∈ s.tokens, K.offers t
  statements : ∀ statement ∈ Listed.statements s.pending, ∀ t ∈ statement, K.offers t

namespace Comparison.Admits

variable {s t : ParserState σ}

theorem of_size {starves : Prop} (h : s.size ≤ k) : (Comparison.same σ starves).Admits k s :=
  ⟨h, fun _ _ => trivial, fun _ _ _ _ => trivial⟩

theorem mono (h : K.Admits k s) {n : Nat} (hn : k ≤ n) : K.Admits n s :=
  ⟨Nat.le_trans h.small hn, h.tokens, h.statements⟩

theorem leaves (h : K.Admits k s) (ht : s.Leaves t) : K.Admits k t where
  small := Nat.le_trans ht.size_le h.small
  tokens u hu := h.tokens u (ht.tokens.subset hu)
  statements statement hstatement := h.statements statement (ht.statements.subset hstatement)

theorem eats (h : K.Admits (k + 1) s) (ht : s.Eats t) : K.Admits k t where
  small := Nat.le_of_lt_succ (Nat.lt_of_lt_of_le ht.size_lt h.small)
  tokens := (h.leaves ht.toLeaves).tokens
  statements := (h.leaves ht.toLeaves).statements

theorem tail (h : K.Admits k ⟨u :: ts, ps, fs⟩) : K.Admits k ⟨ts, ps, fs⟩ := h.leaves (.cons (.refl _))

/-- The statements behind the current one. -/
theorem pending (h : K.Admits k ⟨ts, ps, fs⟩) : K.Admits k ⟨[], ps, fs'⟩ :=
  h.leaves ⟨List.nil_suffix, List.suffix_rfl⟩

/-- Without a current statement, the next one is smaller than those that are left. -/
theorem load (h : K.Admits (k + 1) ⟨[], ps, fs⟩)
    (hstatements : Listed.statements ps = statement :: Listed.statements rest) :
    K.Admits k ⟨statement, rest, fs'⟩ := by
  have hall := h.statements
  rw [hstatements] at hall
  obtain ⟨hstatement, hrest⟩ := List.forall_mem_cons.mp hall
  have hsmall : parseFuel (Listed.statements ps) ≤ k + 1 := Nat.le_trans (Nat.le_add_left ..) h.small
  have hsize := Nat.lt_of_lt_of_le (ParserState.size_load_lt hstatements fs') hsmall
  exact ⟨Nat.le_of_lt_succ hsize, hstatement, hrest⟩

end Comparison.Admits

namespace ParseM.Settled

variable {β : Type} {R : β → ParserState σ → Prop}

theorem eat_bind {kind : Kind} {f : Bool → ParseFrom σ β} {f' : Bool → ParseFrom σ' β}
    (hs : K.Admits k ⟨ts, ps, fs⟩)
    (hfound : ∀ u us, ts = u :: us → u.kind = kind → K.Admits k ⟨us, ps, fs⟩ →
      Settled K R (f true) (f' true) ⟨us, ps, fs⟩)
    (hmissing : (∀ u ∈ ts.head?, u.kind ≠ kind) → Settled K R (f false) (f' false) ⟨ts, ps, fs⟩) :
    Settled K R (eat kind >>= f) (eat kind >>= f') ⟨ts, ps, fs⟩ := by
  by_cases hkind : ∀ u ∈ ts.head?, u.kind ≠ kind
  · exact after (eat_of_ne hkind) (eat_of_ne hkind) (hmissing hkind)
  · cases ts with
    | nil => exact absurd nofun hkind
    | cons u us =>
      have hu : u.kind = kind := by simpa using hkind
      exact after ((eat_cons ..).trans (if_pos hu)) ((eat_cons ..).trans (if_pos hu))
        (hfound u us rfl hu hs.tail)

theorem expect_bind {kind : Kind} {written : Char} {construct : Construct} {f : Unit → ParseFrom σ β}
    {f' : Unit → ParseFrom σ' β} (hs : K.Admits k ⟨ts, ps, fs⟩)
    (hf : ∀ u us, ts = u :: us → u.kind = kind → K.Admits k ⟨us, ps, fs⟩ →
      Settled K R (f ()) (f' ()) ⟨us, ps, fs⟩) :
    Settled K R (expect kind written construct >>= f) (expect kind written construct >>= f')
      ⟨ts, ps, fs⟩ := by
  unfold expect
  rw [bind_assoc, bind_assoc]
  refine eat_bind hs (fun u us hts hu hus => ?_) fun _ => ?_
  · exact hf u us hts hu hus
  · exact bind (Q := fun _ _ => False) (fail trivial) nofun

theorem nextStatement?_bind {f : Option (List Token) → ParseFrom σ β} {f' : Option (List Token) → ParseFrom σ' β}
    (hnone : Listed.statements ps = [] → Settled K R (f none) (f' none) ⟨ts, ps, fs⟩)
    (hsome : ∀ statement rest, Listed.statements ps = statement :: Listed.statements rest →
      Settled K R (f (some statement)) (f' (some statement)) ⟨ts, rest, fs⟩) :
    Settled K R (nextStatement? >>= f) (nextStatement? >>= f') ⟨ts, ps, fs⟩ := by
  have hview := K.next?_view ps
  cases hnext : Std.Stream.next? ps with
  | none =>
    rw [hnext] at hview
    exact after (nextStatement?_of_none hnext) (nextStatement?_of_none hview)
      (hnone (Listed.statements_eq_nil_of_next? hnext))
  | some p =>
    rw [hnext] at hview
    exact after (nextStatement?_of_some hnext) (nextStatement?_of_some hview)
      (hsome p.1 p.2 (Listed.statements_of_next? hnext))

end ParseM.Settled

/-- Parsers of expressions that come to the same end from states of size `k` and less, and that read only
well-formed expressions. -/
def Interchangeable (K : Comparison σ σ') (L : Limits) (k : Nat) (recur : Nat → ParseFrom σ Expr)
    (recur' : Nat → ParseFrom σ' Expr) : Prop :=
  ∀ n s, K.Admits k s →
    Settled K (fun e t => WellFormed L (.expr n e) s.listed t.listed) (recur n) (recur' n) s

section

/-! The parsers over an expression parser are settled where the expression parser is. -/

variable {L : Limits} {recur : Nat → ParseFrom σ Expr} {recur' : Nat → ParseFrom σ' Expr}
  (h : Interchangeable K L k recur recur')
include h

theorem Interchangeable.bind {β : Type} {R : β → ParserState σ → Prop} (n : Nat)
    {f : Expr → ParseFrom σ β} {f' : Expr → ParseFrom σ' β} {s : ParserState σ} (hs : K.Admits k s)
    (hf : ∀ e ts ps fs, WellFormed L (.expr n e) s.listed ⟨ts, Listed.statements ps, fs⟩ →
      K.Admits k ⟨ts, ps, fs⟩ → Settled K R (f e) (f' e) ⟨ts, ps, fs⟩) :
    Settled K R (recur n >>= f) (recur' n >>= f') s :=
  (h n s hs).bind fun e t he => hf e t.tokens t.pending t.functions he (hs.leaves (.of_listed he.leaves))

/-- A parser that ends with an expression. -/
theorem Interchangeable.map {β : Type} {R : β → ParserState σ → Prop} (n : Nat) {f : Expr → β}
    {s : ParserState σ} (hs : K.Admits k s)
    (hf : ∀ e t, WellFormed L (.expr n e) s.listed t.listed → R (f e) t) :
    Settled K R (do return f (← recur n)) (do return f (← recur' n)) s :=
  h.bind n hs fun e ts ps fs he _ => .pure (hf e ⟨ts, ps, fs⟩ he)

theorem parseStatement_settled {s : ParserState σ} (hs : K.Admits k s) :
    Settled K (fun e t => t.tokens = [] ∧ WellFormed L (.expr 0 e) s.listed t.listed)
      (parseStatement recur) (parseStatement recur') s := by
  refine h.bind 0 hs fun e ts ps fs he ht => .get_bind ?_
  cases ts with
  | nil => exact .pure ⟨rfl, he⟩
  | cons u ts => exact .fail ⟨u.kind, ht.tokens u List.mem_cons_self⟩

/-- The statements of a body are taken off those that follow. The current one does not take part. -/
theorem bodyStatements_settled (allowance : Nat) (hs : K.Admits (k + 1) ⟨[], ps, fs⟩) :
    Settled K
      (fun es t => es.length ≤ allowance ∧
        WellFormed L (.body es) ⟨[], Listed.statements ps, fs⟩ ⟨[], Listed.statements t.pending, t.functions⟩)
      (bodyStatements recur allowance) (bodyStatements recur' allowance) ⟨ts, ps, fs⟩ := by
  induction allowance generalizing ts ps fs with
  | zero =>
    refine .nextStatement?_bind (fun _ => .fail trivial) fun statement rest hstatements => ?_
    dsimp only
    split
    · refine .pure ⟨Nat.le_refl 0, ?_⟩
      rw [hstatements]
      exact .bodyEnd ‹_›
    · exact .fail trivial
  | succ allowance ih =>
    refine .nextStatement?_bind (fun _ => .fail trivial) fun statement rest hstatements => ?_
    dsimp only
    rw [hstatements]
    split
    · exact .pure ⟨Nat.zero_le _, .bodyEnd ‹_›⟩
    · refine .load_bind ((parseStatement_settled h (hs.load hstatements)).bind ?_)
      rintro e ⟨_, ps', fs'⟩ ⟨rfl, he⟩
      have hs' : K.Admits k ⟨[], ps', fs'⟩ := (hs.load hstatements).leaves (.of_listed he.leaves)
      refine (ih (hs'.mono (Nat.le_succ k))).bind fun es t hes => .pure ?_
      exact ⟨Nat.succ_le_succ hes.1, .bodyStatement ‹_› he hes.2⟩

theorem parseBody_settled (hs : K.Admits k ⟨ts, ps, fs⟩) :
    Settled K
      (fun es t => t.tokens = ts ∧ es.length ≤ bodyLimit ∧
        WellFormed L (.body es) ⟨[], Listed.statements ps, fs⟩ ⟨[], Listed.statements t.pending, t.functions⟩)
      (parseBody recur) (parseBody recur') ⟨ts, ps, fs⟩ := by
  refine .get_bind ((bodyStatements_settled h bodyLimit (hs.pending.mono (Nat.le_succ k))).bind ?_)
  rintro es t hes
  exact .load_bind (.pure ⟨rfl, hes⟩)

/-- The arguments of a call are well-formed if a parenthesis closes them. -/
theorem callArguments_settled (allowance : Nat) (hs : K.Admits k ⟨ts, ps, fs⟩) :
    Settled K
      (fun es t => ParserState.Leaves ⟨ts, ps, fs⟩ t ∧
        ∀ v us, t.tokens = v :: us → v.kind = .rightParen →
          es.length ≤ allowance ∧ WellFormed L (.arguments es) ⟨ts, Listed.statements ps, fs⟩ t.listed)
      (callArguments recur allowance) (callArguments recur' allowance) ⟨ts, ps, fs⟩ := by
  induction allowance generalizing ts ps fs with
  | zero =>
    refine .pure ⟨.refl _, ?_⟩
    rintro v us rfl hv
    exact ⟨Nat.le_refl 0, .noArgument hv⟩
  | succ allowance ih =>
    refine .peekKind?_bind ?_
    split
    · refine .pure ⟨.refl _, ?_⟩
      rintro v us rfl hv
      exact ⟨Nat.zero_le _, .noArgument hv⟩
    · refine h.bind 0 hs fun e ts₁ ps₁ fs₁ he hs₁ => ?_
      have hleaves : ParserState.Leaves ⟨ts, ps, fs⟩ ⟨ts₁, ps₁, fs₁⟩ := .of_listed he.leaves
      refine .eat_bind hs₁ ?_ fun _ => .pure ⟨hleaves, ?_⟩
      · rintro u us rfl hu hs₂
        refine (ih hs₂).bind fun es t hes => .pure ⟨hleaves.behind.trans hes.1, fun v vs ht hv => ?_⟩
        obtain ⟨hlen, hes⟩ := hes.2 v vs ht hv
        exact ⟨Nat.succ_le_succ hlen, .argument he hu hes⟩
      · rintro v us rfl hv
        exact ⟨Nat.succ_le_succ (Nat.zero_le _), .lastArgument he hv⟩

section

variable (hL : Limits.parser.Within L) {t : Token}
include hL

theorem parseCall_settled (ht : t.kind = .call) (hs : K.Admits k ⟨ts, ps, fs⟩) :
    Settled K (fun e s => WellFormed L (.operand t e) ⟨ts, Listed.statements ps, fs⟩ s.listed)
      (parseCall recur t.text) (parseCall recur' t.text) ⟨ts, ps, fs⟩ := by
  refine .expect_bind hs ?_
  rintro u ts rfl hu hs₁
  refine (callArguments_settled h listLimit hs₁).bind ?_
  rintro es ⟨ts₂, ps₂, fs₂⟩ ⟨hleaves, hes⟩
  refine .expect_bind (hs₁.leaves hleaves) ?_
  rintro v ts₂ rfl hv hs₂
  obtain ⟨hlen, hes⟩ := hes v ts₂ rfl hv
  exact .pure (.call ht hu hv (hL.lists hlen) hes)

theorem parseFunction_settled (ht : t.kind = .function) (hoffers : K.offers t)
    (hs : K.Admits k ⟨ts, ps, fs⟩) :
    Settled K (fun e s => WellFormed L (.operand t e) ⟨ts, Listed.statements ps, fs⟩ s.listed)
      (parseFunction recur t.text) (parseFunction recur' t.text) ⟨ts, ps, fs⟩ := by
  refine .expect_bind hs ?_
  rintro u ts rfl hu hs₁
  obtain ⟨us, hsplit, hlists⟩ := parameterNames_lists listLimit ts
  have hlist := length_fst_parameterNames_le listLimit ts
  refine .get_bind ?_
  simp only [Comparison.state]
  rcases hparams : parameterNames listLimit ts with ⟨params, rest⟩
  rw [hparams] at hsplit hlists hlist
  subst hsplit
  refine .load_bind (.expect_bind (hs₁.leaves (ParserState.Leaves.refl _).drop) ?_)
  rintro v ts rfl hv hs₂
  refine .get_bind ?_
  by_cases hnew : t.text ∈ fs
  · have hcontains : fs.contains t.text = true := by simpa using hnew
    simp only [Comparison.state, hcontains, if_true]
    have hconcerns : K.offers ⟨.function, t.text⟩ := ht ▸ hoffers
    exact .bind (Q := fun _ _ => False) (.fail hconcerns) nofun
  · have hcontains : ¬fs.contains t.text = true := by simpa using hnew
    simp only [Comparison.state, hcontains]
    refine .after rfl rfl (.expect_bind ⟨hs₂.small, hs₂.tokens, hs₂.statements⟩ ?_)
    rintro w ts rfl hw hs₃
    refine (parseBody_settled h hs₃).bind ?_
    rintro es ⟨_, ps', fs'⟩ ⟨rfl, hlen, hes⟩
    exact .pure (.define ht hu hlists (hL.lists hlist) hv hw hnew (hL.bodies hlen) hes)

theorem parseFor_settled (ht : t.kind = .forWord) (hs : K.Admits k ⟨ts, ps, fs⟩) :
    Settled K (fun e s => WellFormed L (.operand t e) ⟨ts, Listed.statements ps, fs⟩ s.listed)
      (parseFor recur) (parseFor recur') ⟨ts, ps, fs⟩ := by
  refine .expect_bind hs ?_
  rintro u ts rfl hu hs₁
  refine h.bind 0 hs₁ fun init ts₂ ps₂ fs₂ hinit hs₂ => .expect_bind hs₂ ?_
  rintro v ts₂ rfl hv hs₃
  refine h.bind 0 hs₃ fun condition ts₄ ps₄ fs₄ hcondition hs₄ => .expect_bind hs₄ ?_
  rintro w ts₄ rfl hw hs₅
  refine h.bind 0 hs₅ fun step ts₆ ps₆ fs₆ hstep hs₆ => .expect_bind hs₆ ?_
  rintro x ts₆ rfl hx hs₇
  refine .expect_bind hs₇ ?_
  rintro y ts₆ rfl hy hs₈
  refine (parseBody_settled h hs₈).bind ?_
  rintro es ⟨_, ps', fs'⟩ ⟨rfl, hlen, hes⟩
  exact .pure (.forLoop ht hu hinit hv hcondition hw hstep hx hy (hL.bodies hlen) hes)

theorem parseWhile_settled (ht : t.kind = .whileWord) (hs : K.Admits k ⟨ts, ps, fs⟩) :
    Settled K (fun e s => WellFormed L (.operand t e) ⟨ts, Listed.statements ps, fs⟩ s.listed)
      (parseWhile recur) (parseWhile recur') ⟨ts, ps, fs⟩ := by
  refine .expect_bind hs ?_
  rintro u ts rfl hu hs₁
  refine h.bind 0 hs₁ fun condition ts₂ ps₂ fs₂ hcondition hs₂ => .expect_bind hs₂ ?_
  rintro v ts₂ rfl hv hs₃
  refine .expect_bind hs₃ ?_
  rintro w ts₂ rfl hw hs₄
  refine (parseBody_settled h hs₄).bind ?_
  rintro es ⟨_, ps', fs'⟩ ⟨rfl, hlen, hes⟩
  exact .pure (.whileLoop ht hu hcondition hv hw (hL.bodies hlen) hes)

omit hL in
theorem parseVariable_settled (ht : t.kind = .variableName) (hs : K.Admits k ⟨ts, ps, fs⟩) :
    Settled K (fun e s => WellFormed L (.operand t e) ⟨ts, Listed.statements ps, fs⟩ s.listed)
      (parseVariable recur t.text) (parseVariable recur' t.text) ⟨ts, ps, fs⟩ := by
  have hleaf : t.leaf? = some (.var t.text) := by simp [Token.leaf?, ht]
  refine .peekKind?_bind ?_
  cases hupdate : (ts.head?.map Token.kind).bind compoundOf? with
  | none => exact .pure (.leaf hleaf fun _ => hupdate)
  | some update =>
    obtain ⟨op, written⟩ := update
    cases ts with
    | nil => cases hupdate
    | cons u ts =>
      refine .next?_bind ?_
      cases written with
      | false => exact .pure (.step ht hupdate)
      | true => exact h.map 0 hs.tail fun e _ he => .compound ht hupdate he

theorem parseOperand_settled (hoffers : K.offers t) (hs : K.Admits k ⟨ts, ps, fs⟩) :
    Settled K (fun e s => WellFormed L (.operand t e) ⟨ts, Listed.statements ps, fs⟩ s.listed)
      (parseOperand recur t) (parseOperand recur' t) ⟨ts, ps, fs⟩ := by
  unfold parseOperand
  cases hk : t.kind with
  | number =>
    unfold numberLiteral
    cases hx : Number.readLiteral t.text.toList with
    | some x => exact .pure (.leaf (by simp [Token.leaf?, hk, hx]) (by simp [hk]))
    | none => exact .fail ⟨hk ▸ hoffers, hx⟩
  | text | trueWord | falseWord | query | namespaceName | usingName | importName =>
    exact .pure (.leaf (by simp [Token.leaf?, hk]) (by simp [hk]))
  | variableName => exact parseVariable_settled h hk hs
  | leftParen | leftBracket =>
    refine h.bind 0 hs fun e ts₁ ps₁ fs₁ he hs₁ => .expect_bind hs₁ ?_
    rintro u ts₁ rfl hu hs₂
    exact .pure (.group (by simp [Kind.closer?, hk, hu]) he)
  | call => exact parseCall_settled h hL hk hs
  | function => exact parseFunction_settled h hL hk hoffers hs
  | forWord => exact parseFor_settled h hL hk hs
  | whileWord => exact parseWhile_settled h hL hk hs
  | leftScope =>
    refine (parseBody_settled h hs).bind ?_
    rintro es ⟨_, ps', fs'⟩ ⟨rfl, hlen, hes⟩
    exact .pure (.block hk (hL.bodies hlen) hes)
  | letName | assign | returnWord =>
    exact h.map 0 hs fun e _ he => .opening (by simp [Token.opening?, hk]) he
  | _ => exact .fail ⟨t.kind, hoffers⟩

theorem parsePrimary_settled {s : ParserState σ} (hs : K.Admits (k + 1) s) :
    Settled K (fun e s' => WellFormed L (.primary e) s.listed s'.listed)
      (parsePrimary recur) (parsePrimary recur') s := by
  obtain ⟨_ | ⟨t, ts⟩, ps, fs⟩ := s
  · exact .after (t := ⟨[], ps, fs⟩) rfl rfl (.fail trivial)
  · have hs₁ : K.Admits k ⟨ts, ps, fs⟩ := hs.eats (ParserState.Leaves.refl _).eats_cons
    refine .next?_bind ((parseOperand_settled h hL (hs.tokens t List.mem_cons_self) hs₁).bind ?_)
    rintro operand ⟨ts₁, ps₁, fs₁⟩ hoperand
    obtain ⟨ms, rest, rfl, hms, hend⟩ := exists_accesses ts₁
    obtain ⟨htake, hdrop⟩ := accesses_append hms hend
    have hleaves : ParserState.Leaves ⟨ts, ps, fs⟩ ⟨ms ++ rest, ps₁, fs₁⟩ := .of_listed hoperand.leaves
    refine .get_bind ?_
    simp only [Comparison.state, htake, hdrop]
    refine .load_bind ?_
    have hmembers (hwrite : ∀ target member, accessChain operand ms = .access target member →
        ∀ u ∈ rest.head?, u.kind ≠ .equals) :
        WellFormed L (.primary (accessChain operand ms)) ⟨t :: ts, Listed.statements ps, fs⟩
          ⟨rest, Listed.statements ps₁, fs₁⟩ := .members hoperand hms hend hwrite
    cases hchain : accessChain operand ms with
    | access target member =>
      rw [hchain] at hmembers
      refine .eat_bind (hs₁.leaves hleaves.drop) ?_ fun hequals => ?_
      · rintro u rest rfl hu hs₂
        exact h.map 0 hs₂ fun value _ hvalue => .write hoperand hms hchain hu hvalue
      · exact .pure (hmembers fun _ _ _ => hequals)
    | _ =>
      rw [hchain] at hmembers
      exact .pure (hmembers nofun)

omit hL

/-- Both runs of the loop have fuel enough, or they have the same fuel and may run out of it. -/
theorem climb_settled (strength : Nat) {fuel fuel' : Nat} (left : Expr) {s : ParserState σ}
    (hs : K.Admits (k + 1) s) (hfuel : K.starves ∧ fuel = fuel' ∨ s.size ≤ fuel ∧ s.size ≤ fuel') :
    Settled K (fun e t => WellFormed L (.joined strength left e) s.listed t.listed)
      (climb recur strength fuel left) (climb recur' strength fuel' left) s := by
  have hpos := s.size_pos
  induction fuel generalizing fuel' left s with
  | zero =>
    obtain ⟨hstarves, rfl⟩ : K.starves ∧ 0 = fuel' := hfuel.resolve_right (by omega)
    exact .outOfFuel hstarves
  | succ fuel ih =>
    obtain ⟨fuel', rfl⟩ : ∃ n, fuel' = n + 1 := ⟨fuel' - 1, by omega⟩
    obtain ⟨_ | ⟨t, ts⟩, ps, fs⟩ := s
    · exact .peekKind?_bind (.pure (.stop (.nil strength)))
    · refine .peekKind?_bind ?_
      simp only [List.head?_cons, Option.map_some, Option.bind_some]
      cases hjoint : Joint.ofKind? t.kind with
      | none =>
        refine .pure (.stop ?_)
        rintro u ⟨⟩ joint hj
        cases hjoint.symm.trans hj
      | some joint =>
        dsimp only
        split
        · exact .pure (.stop ((Loose.cons hjoint ts).mono ‹_›))
        · have hstrength : strength ≤ joint.precedence := Nat.le_of_not_lt ‹_›
          have hs₁ : K.Admits k ⟨ts, ps, fs⟩ := hs.eats (ParserState.Leaves.refl _).eats_cons
          refine .next?_bind ?_
          cases joint with
          | ternary =>
            have ht : t.kind = .question := by
              revert hjoint
              cases t.kind <;> simp [Joint.ofKind?]
            refine h.bind 0 hs₁ fun yes ts₁ ps₁ fs₁ hyes hs₂ => .eat_bind hs₂ ?_ fun _ => ?_
            · rintro u ts₁ rfl hu hs₃
              exact h.map 0 hs₃ fun no _ hno => .ternary ht hstrength hyes hu hno
            · exact .bind (Q := fun _ _ => False) (.fail trivial) nofun
          | operator op =>
            refine h.bind _ hs₁ fun right ts₁ ps₁ fs₁ hright hs₂ => ?_
            have hsize : ParserState.size ⟨ts₁, ps₁, fs₁⟩ < ParserState.size ⟨t :: ts, ps, fs⟩ :=
              Nat.lt_of_le_of_lt (ParserState.Leaves.of_listed hright.leaves).size_le ParserState.size_lt_cons
            refine (ih (.binary op left right) (hs₂.mono (Nat.le_succ k)) ?_ (ParserState.size_pos _)).mono
              fun e t' he => .operator hjoint hstrength hright he
            exact hfuel.imp (fun hsame => ⟨hsame.1, by omega⟩) fun henough => ⟨by omega, by omega⟩

include hL

/-- An operand and what is joined to it. -/
theorem expression_settled (strength : Nat) {fuel fuel' : Nat} {s : ParserState σ} (hs : K.Admits (k + 1) s)
    (hfuel : K.starves ∧ fuel = fuel' ∨ k ≤ fuel ∧ k ≤ fuel') :
    Settled K (fun e t => WellFormed L (.expr strength e) s.listed t.listed)
      (parsePrimary recur >>= climb recur strength fuel)
      (parsePrimary recur' >>= climb recur' strength fuel') s := by
  refine (parsePrimary_settled h hL hs).bind fun left t hleft => ?_
  have heats : s.Eats t := .of_listed hleft.eats_of_primary
  have hsmall := (hs.eats heats).small
  refine (climb_settled h strength left (hs.leaves heats.toLeaves) ?_).mono fun e u he => .expr hleft he
  exact hfuel.imp id fun henough => ⟨by omega, by omega⟩

end

end

/-- The parser comes to the same end with whatever fuel is enough. With too little of it, it takes no
more than it would with enough. -/
theorem parseExpr_settled {L : Limits} (hL : Limits.parser.Within L) {fuel fuel' : Nat}
    (hfuel : K.starves ∧ fuel = fuel' ∨ k ≤ fuel ∧ k ≤ fuel') :
    Interchangeable K L k (parseExpr fuel) (parseExpr fuel') := by
  intro strength s hs
  have hpos := s.size_pos
  have hsmall := hs.small
  induction fuel generalizing fuel' k strength s with
  | zero =>
    obtain ⟨hstarves, rfl⟩ : K.starves ∧ 0 = fuel' := hfuel.resolve_right (by omega)
    exact .outOfFuel hstarves
  | succ fuel ih =>
    obtain ⟨fuel', rfl⟩ : ∃ n, fuel' = n + 1 := ⟨fuel' - 1, by omega⟩
    obtain ⟨k, rfl⟩ : ∃ n, k = n + 1 := ⟨k - 1, by omega⟩
    have hfuel' : K.starves ∧ fuel = fuel' ∨ k ≤ fuel ∧ k ≤ fuel' :=
      hfuel.imp (fun hsame => ⟨hsame.1, by omega⟩) fun henough => ⟨by omega, by omega⟩
    exact expression_settled (fun n t ht => ih hfuel' n t ht t.size_pos ht.small) hL strength hs hfuel'

/-- The statements at the top level of a script. -/
theorem parseAll_settled {L : Limits} (hL : Limits.parser.Within L) {fuel fuel' more more' : Nat}
    (hs : K.Admits k ⟨[], ps, fs⟩)
    (hfuel : K.starves ∧ fuel = fuel' ∧ more = more' ∨ (k ≤ fuel ∧ k ≤ fuel') ∧ k ≤ more ∧ k ≤ more') :
    Settled K (fun es t => WellFormed L (.program es) ⟨[], Listed.statements ps, fs⟩ ⟨[], [], t.functions⟩)
      (parseAll fuel more) (parseAll fuel' more') ⟨ts, ps, fs⟩ := by
  have hpos := ParserState.size_pos (⟨[], ps, fs⟩ : ParserState σ)
  have hsmall := hs.small
  induction more generalizing more' k ts ps fs with
  | zero =>
    obtain ⟨hstarves, rfl, rfl⟩ : K.starves ∧ fuel = fuel' ∧ 0 = more' := hfuel.resolve_right (by omega)
    exact .outOfFuel hstarves
  | succ more ih =>
    obtain ⟨more', rfl⟩ : ∃ n, more' = n + 1 := ⟨more' - 1, by omega⟩
    obtain ⟨k, rfl⟩ : ∃ n, k = n + 1 := ⟨k - 1, by omega⟩
    refine .nextStatement?_bind (fun hstatements => ?_) fun statement rest hstatements => ?_
    · rw [hstatements]
      exact .pure .programEnd
    · rw [hstatements]
      dsimp only
      have hload : K.Admits k ⟨statement, rest, fs⟩ := hs.load hstatements
      cases hclosing : closing? statement with
      | some t => exact .fail ⟨t.kind, hload.tokens t (mem_of_closing? hclosing)⟩
      | none =>
        have hrecur : Interchangeable K L k (parseExpr fuel) (parseExpr fuel') :=
          parseExpr_settled hL (hfuel.imp (fun hsame => ⟨hsame.1, hsame.2.1⟩) fun henough => ⟨by omega, by omega⟩)
        refine .load_bind ((parseStatement_settled hrecur hload).bind ?_)
        rintro e ⟨_, ps', fs'⟩ ⟨rfl, he⟩
        have hs' : K.Admits k ⟨[], ps', fs'⟩ := hload.leaves (.of_listed he.leaves)
        refine (ih hs' ?_ (ParserState.size_pos _) hs'.small).bind fun es t hes => .pure ?_
        · exact hfuel.imp (fun hsame => ⟨hsame.1, hsame.2.1, by omega⟩) fun henough => ⟨by omega, by omega⟩
        · exact .programStatement (by simp [isClosing, hclosing]) he hes

end HostScript
