import HostScript.Proofs.Expr.Printer
import HostScript.Proofs.Expr.Outcome

/-!
# Parsing printed programs

Parsing undoes printing. Operands are read back token by token, where all that matters of the tokens
behind an operand is that they do not continue it. A construct with a body reads its header off one line
and its statements off the lines that follow. Its functions come into the table in the order of their
headers.
-/
namespace HostScript

open ParseM

/-- The kinds of tokens that end an expression. -/
def Kind.follows : Kind → Bool
  | .rightParen | .comma | .semicolon | .colon => true
  | _ => false

/-- Tokens behind an expression that do not continue it. -/
def Follows (rest : List Token) : Prop := ∀ t ∈ rest.head?, t.kind.follows

/-- Tokens behind an operand that neither access a member of it nor write one. -/
def Detached (rest : List Token) : Prop := ∀ t ∈ rest.head?, t.kind ≠ .access ∧ t.kind ≠ .equals

theorem Follows.detached {rest : List Token} (h : Follows rest) : Detached rest := by
  intro t ht
  have hkind := h t ht
  constructor
  · intro heq
    rw [heq] at hkind
    cases hkind
  · intro heq
    rw [heq] at hkind
    cases hkind

/-- What looks at the next token and is about no token that ends an expression finds nothing. -/
theorem Follows.bind_eq_none {α : Type} {rest : List Token} (h : Follows rest) {f : Kind → Option α}
    (hf : ∀ k : Kind, k.follows → f k = none) : (rest.head?.map Token.kind).bind f = none := by
  cases rest with
  | nil => rfl
  | cons t rest => exact hf t.kind (h t rfl)

theorem Follows.nil : Follows [] := nofun

theorem Follows.cons {t : Token} (h : t.kind.follows) (rest : List Token) : Follows (t :: rest) := by
  intro u hu
  cases hu
  exact h

theorem Detached.cons {t : Token} (h : t.kind ≠ .access ∧ t.kind ≠ .equals) (rest : List Token) :
    Detached (t :: rest) := by
  intro u hu
  cases hu
  exact h

theorem parens_append (ts rest : List Token) :
    parens ts ++ rest = Kind.leftParen.token :: (ts ++ Kind.rightParen.token :: rest) := by
  simp [parens]

section

variable {recur : Nat → ParseM Expr} {e : Expr} {t : Token} {ts rest : List Token}
  {ps ps' : List (List Token)} {fs fs' : FunctionTable}

theorem eat_token (kind : Kind) : eat kind ⟨kind.token :: rest, ps, fs⟩ = .ok (true, ⟨rest, ps, fs⟩) := by
  rw [eat_cons, if_pos kind.kind_token]

theorem expect_token (kind : Kind) (written : Char) (construct : Construct) :
    expect kind written construct ⟨kind.token :: rest, ps, fs⟩ = .ok ((), ⟨rest, ps, fs⟩) := by
  rw [expect_cons, if_pos kind.kind_token]

/-- An operand without members. -/
theorem parsePrimary_of_detached (hrest : Detached rest)
    (h : parseOperand recur t ⟨ts, ps, fs⟩ = .ok (e, ⟨rest, ps', fs'⟩)) :
    parsePrimary recur ⟨t :: ts, ps, fs⟩ = .ok (e, ⟨rest, ps', fs'⟩) := by
  have hmembers : parseOperand recur t ⟨ts, ps, fs⟩ = .ok (e, ⟨[] ++ rest, ps', fs'⟩) := h
  exact parsePrimary_members (List.forall_mem_nil _) (fun u hu => (hrest u hu).1)
    (fun _ _ _ u hu => (hrest u hu).2) hmembers

theorem parseOperand_parens
    (h : recur 0 ⟨ts ++ Kind.rightParen.token :: rest, ps, fs⟩ =
      .ok (e, ⟨Kind.rightParen.token :: rest, ps, fs⟩)) :
    parseOperand recur Kind.leftParen.token ⟨ts ++ Kind.rightParen.token :: rest, ps, fs⟩ =
      .ok (e, ⟨rest, ps, fs⟩) := by
  simp only [parseOperand, Kind.kind_token]
  rw [bind_of_ok h, bind_of_ok (expect_token ..)]
  rfl

theorem climb_of_follows (hrest : Follows rest) (strength fuel : Nat) (left : Expr) :
    climb recur strength (fuel + 1) left ⟨rest, ps, fs⟩ = .ok (left, ⟨rest, ps, fs⟩) := by
  have hjoint : (rest.head?.map Token.kind).bind Joint.ofKind? = none := by
    refine hrest.bind_eq_none fun k hk => ?_
    cases k with
    | rightParen | comma | semicolon | colon => rfl
    | _ => cases hk
  unfold climb
  rw [bind_of_ok (peekKind?_run _)]
  dsimp only
  rw [hjoint]
  rfl

theorem parseExpr_of_primary {fuel : Nat} (strength : Nat) (hrest : Follows rest)
    (h : parsePrimary (parseExpr (fuel + 1)) ⟨ts, ps, fs⟩ = .ok (e, ⟨rest, ps', fs'⟩)) :
    parseExpr (fuel + 2) strength ⟨ts, ps, fs⟩ = .ok (e, ⟨rest, ps', fs'⟩) := by
  unfold parseExpr
  rw [bind_of_ok h]
  exact climb_of_follows hrest strength fuel e

/-- An expression in parentheses, at any strength. -/
theorem parseExpr_parens {fuel : Nat} (strength : Nat) (hrest : Follows rest)
    (h : parseExpr (fuel + 1) 0 ⟨ts ++ Kind.rightParen.token :: rest, ps, fs⟩ =
      .ok (e, ⟨Kind.rightParen.token :: rest, ps, fs⟩)) :
    parseExpr (fuel + 2) strength ⟨parens ts ++ rest, ps, fs⟩ = .ok (e, ⟨rest, ps, fs⟩) := by
  rw [parens_append]
  exact parseExpr_of_primary strength hrest (parsePrimary_of_detached hrest.detached (parseOperand_parens h))

variable {w : Wording} {fuel : Nat}

/-- A printed operand that is read back, whatever comes behind it. -/
def ReadsBack (w : Wording) (p : ParseM Expr) (e : Expr) : Prop :=
  ∀ rest ps fs, Follows rest → p ⟨e.print w ++ rest, ps, fs⟩ = .ok (e, ⟨rest, ps, fs⟩)

theorem ReadsBack.parens {strength : Nat} (h : ReadsBack w (parseExpr (fuel + 1) 0) e)
    (hrest : Follows rest) :
    parseExpr (fuel + 2) strength ⟨HostScript.parens (e.print w) ++ rest, ps, fs⟩ =
      .ok (e, ⟨rest, ps, fs⟩) :=
  parseExpr_parens strength hrest (h _ _ _ (.cons rfl rest))

theorem ReadsBack.operand (h : ReadsBack w (recur 0) e) :
    parseOperand recur Kind.leftParen.token
      ⟨e.print w ++ Kind.rightParen.token :: rest, ps, fs⟩ = .ok (e, ⟨rest, ps, fs⟩) :=
  parseOperand_parens (h _ _ _ (.cons rfl rest))

theorem Joint.ofKind?_kind (op : Operator) : Joint.ofKind? op.kind = some (.operator op) := by
  cases op <;> rfl

theorem climb_operator {op : Operator} {left right : Expr} {us : List Token}
    (h : recur (op.precedence + 1) ⟨ts, ps, fs⟩ = .ok (right, ⟨us, ps', fs'⟩)) :
    climb recur 0 (fuel + 1) left ⟨op.kind.token :: ts, ps, fs⟩ =
      climb recur 0 fuel (.binary op left right) ⟨us, ps', fs'⟩ := by
  rw [climb, bind_of_ok (peekKind?_run _)]
  simp only [List.head?_cons, Option.map_some, Kind.kind_token, Option.bind_some, Joint.ofKind?_kind,
    Nat.not_lt_zero, if_false]
  rw [bind_of_ok (next?_cons ..)]
  exact bind_of_ok h

theorem climb_ternary {condition yes no : Expr} {us : List Token}
    (hyes : recur 0 ⟨ts, ps, fs⟩ = .ok (yes, ⟨Kind.colon.token :: us, ps, fs⟩))
    (hno : recur 0 ⟨us, ps, fs⟩ = .ok (no, ⟨rest, ps, fs⟩)) :
    climb recur 0 (fuel + 1) condition ⟨Kind.question.token :: ts, ps, fs⟩ =
      .ok (.ternary condition yes no, ⟨rest, ps, fs⟩) := by
  rw [climb, bind_of_ok (peekKind?_run _)]
  simp only [List.head?_cons, Option.map_some, Kind.kind_token, Option.bind_some, Joint.ofKind?,
    Nat.not_lt_zero, if_false]
  rw [bind_of_ok (next?_cons ..), bind_of_ok hyes, bind_of_ok (eat_token _)]
  exact bind_of_ok hno

theorem readsBack_binary {op : Operator} {left right : Expr}
    (hleft : ReadsBack w (parseExpr (fuel + 2) 0) left)
    (hright : ReadsBack w (parseExpr (fuel + 1) 0) right) :
    ReadsBack w (parseExpr (fuel + 3) 0) (.binary op left right) := by
  intro rest ps fs hrest
  have hprint : (Expr.binary op left right).print w ++ rest =
      Kind.leftParen.token :: (left.print w ++ Kind.rightParen.token :: op.kind.token
        :: (parens (right.print w) ++ rest)) := by
    simp [Expr.print, parens]
  have hdetached : Detached (op.kind.token :: (parens (right.print w) ++ rest)) := by
    refine .cons ?_ _
    cases op <;> decide
  rw [hprint, parseExpr, bind_of_ok (parsePrimary_of_detached hdetached hleft.operand),
    climb_operator (hright.parens hrest)]
  exact climb_of_follows hrest 0 fuel _

theorem readsBack_ternary {condition yes no : Expr}
    (hcondition : ReadsBack w (parseExpr (fuel + 2) 0) condition)
    (hyes : ReadsBack w (parseExpr (fuel + 1) 0) yes)
    (hno : ReadsBack w (parseExpr (fuel + 1) 0) no) :
    ReadsBack w (parseExpr (fuel + 3) 0) (.ternary condition yes no) := by
  intro rest ps fs hrest
  have hprint : (Expr.ternary condition yes no).print w ++ rest =
      Kind.leftParen.token :: (condition.print w ++ Kind.rightParen.token :: Kind.question.token
        :: (parens (yes.print w) ++ Kind.colon.token :: (parens (no.print w) ++ rest))) := by
    simp [Expr.print, parens]
  have hdetached : Detached (Kind.question.token
      :: (parens (yes.print w) ++ Kind.colon.token :: (parens (no.print w) ++ rest))) :=
    .cons (by decide) _
  rw [hprint, parseExpr, bind_of_ok (parsePrimary_of_detached hdetached hcondition.operand)]
  exact climb_ternary (hyes.parens (.cons rfl _)) (hno.parens hrest)

theorem readsBack_access {target : Expr} {member : String}
    (htarget : ReadsBack w (parseExpr (fuel + 1) 0) target) :
    ReadsBack w (parseExpr (fuel + 2) 0) (.access target member) := by
  intro rest ps fs hrest
  have hprint : (Expr.access target member).print w ++ rest =
      Kind.leftParen.token :: (target.print w ++ Kind.rightParen.token :: ⟨.access, member⟩ :: rest) := by
    simp [Expr.print, parens]
  rw [hprint]
  apply parseExpr_of_primary 0 hrest
  have hmember : ∀ m ∈ [(⟨.access, member⟩ : Token)], m.kind = .access :=
    List.forall_mem_singleton.mpr rfl
  exact parsePrimary_members hmember (fun u hu => (hrest.detached u hu).1)
    (fun _ _ _ u hu => (hrest.detached u hu).2) htarget.operand

theorem readsBack_write {target value : Expr} {member : String}
    (htarget : ReadsBack w (parseExpr (fuel + 2) 0) target)
    (hvalue : ReadsBack w (parseExpr (fuel + 1) 0) value) :
    ReadsBack w (parseExpr (fuel + 3) 0) (.write target member value) := by
  intro rest ps fs hrest
  have hprint : (Expr.write target member value).print w ++ rest =
      Kind.leftParen.token :: (target.print w ++ Kind.rightParen.token :: ⟨.access, member⟩
        :: Kind.equals.token :: (parens (value.print w) ++ rest)) := by
    simp [Expr.print, parens]
  have hmember : ∀ m ∈ [(⟨.access, member⟩ : Token)], m.kind = .access :=
    List.forall_mem_singleton.mpr rfl
  rw [hprint]
  apply parseExpr_of_primary 0 hrest
  refine (parsePrimary_write hmember rfl Kind.equals.kind_token htarget.operand).trans ?_
  exact bind_of_ok (hvalue.parens hrest)

/-- An operand that is printed as a token and what the token begins. -/
theorem readsBack_of_operand {t : Token} {us : List Token} (hprint : e.print w = t :: us)
    (h : ∀ rest (ps : List (List Token)) fs, Follows rest →
      parseOperand (parseExpr (fuel + 1)) t ⟨us ++ rest, ps, fs⟩ = .ok (e, ⟨rest, ps, fs⟩)) :
    ReadsBack w (parseExpr (fuel + 2) 0) e := by
  intro rest ps fs hrest
  rw [hprint]
  exact parseExpr_of_primary 0 hrest (parsePrimary_of_detached hrest.detached (h rest ps fs hrest))

theorem parseVariable_of_follows (hrest : Follows rest) (name : String) :
    parseVariable recur name ⟨rest, ps, fs⟩ = .ok (.var name, ⟨rest, ps, fs⟩) := by
  have hupdate : (rest.head?.map Token.kind).bind compoundOf? = none := by
    refine hrest.bind_eq_none fun k hk => ?_
    cases k with
    | rightParen | comma | semicolon | colon => rfl
    | _ => cases hk
  unfold parseVariable
  rw [bind_of_ok (peekKind?_run _)]
  dsimp only
  rw [hupdate]
  rfl

theorem parseVariable_update {op : Operator} (hop : op = .add ∨ op = .sub)
    (h : recur 0 ⟨ts, ps, fs⟩ = .ok (e, ⟨rest, ps, fs⟩)) (name : String) :
    parseVariable recur name ⟨op.updateKind.token :: ts, ps, fs⟩ =
      .ok (.compound name op e, ⟨rest, ps, fs⟩) := by
  have hupdate : compoundOf? op.updateKind = some (op, true) := by
    rcases hop with rfl | rfl <;> rfl
  unfold parseVariable
  rw [bind_of_ok (peekKind?_run _)]
  simp only [List.head?_cons, Option.map_some, Kind.kind_token, Option.bind_some, hupdate]
  rw [bind_of_ok (next?_cons ..), if_pos trivial]
  exact bind_of_ok h

theorem importParts_append {name type : String} (h : '-' ∉ name.toList) :
    importParts (name ++ "-" ++ type) = (name, type) := by
  have hname : ∀ c ∈ name.toList, (c != '-') = true := by
    intro c hc
    simp only [bne_iff_ne]
    rintro rfl
    exact h hc
  have hdrop : (name.toList ++ '-' :: type.toList).dropWhile (· != '-') = '-' :: type.toList := by
    rw [List.dropWhile_append_of_pos hname]
    rfl
  have htake : (name.toList ++ '-' :: type.toList).takeWhile (· != '-') = name.toList := by
    rw [List.takeWhile_append_of_pos hname]
    simp
  have htext : (name ++ "-" ++ type).toList = name.toList ++ '-' :: type.toList := by simp
  simp only [importParts, Text.splitOnce, htext, hdrop, htake, String.ofList_toList]

theorem printArguments_cons_cons (w : Wording) (e f : Expr) (es : List Expr) :
    printArguments w (e :: f :: es) = e.print w ++ Kind.comma.token :: printArguments w (f :: es) := by
  simp [printArguments, printMoreArguments]

theorem callArguments_print {es : List Expr} {allowance : Nat} (hlen : es.length ≤ allowance)
    (h : ∀ e ∈ es, e.body? = none ∧ ReadsBack w (recur 0) e) :
    callArguments recur allowance ⟨printArguments w es ++ Kind.rightParen.token :: rest, ps, fs⟩ =
      .ok (es, ⟨Kind.rightParen.token :: rest, ps, fs⟩) := by
  induction es generalizing allowance with
  | nil =>
    cases allowance with
    | zero => rfl
    | succ allowance => rfl
  | cons e es ih =>
    obtain ⟨hbody, hback⟩ := h e List.mem_cons_self
    obtain ⟨allowance, rfl⟩ : ∃ n, allowance = n + 1 :=
      Nat.exists_eq_add_one.mpr (Nat.lt_of_lt_of_le (Nat.succ_pos _) hlen)
    obtain ⟨t, ts, hhead, hcloses⟩ := e.header_head (w := w)
    rw [Expr.header_of_inline hbody] at hhead
    have hpeek (us : List Token) :
        ¬((e.print w ++ us).head?.map Token.kind == some Kind.rightParen) = true := by
      rw [hhead]
      simp only [List.cons_append, List.head?_cons, Option.map_some, beq_iff_eq, Option.some.injEq]
      intro hkind
      rw [hkind] at hcloses
      cases hcloses
    unfold callArguments
    cases es with
    | nil =>
      simp only [printArguments, printMoreArguments, List.append_nil]
      rw [bind_of_ok (peekKind?_run _)]
      dsimp only
      rw [if_neg (hpeek _), bind_of_ok (hback _ _ _ (.cons rfl rest)), bind_of_ok (eat_of_ne (by simp))]
      rfl
    | cons f es =>
      have hrest := ih (Nat.le_of_succ_le_succ hlen) fun g hg => h g (List.mem_cons_of_mem e hg)
      rw [printArguments_cons_cons, List.append_assoc, List.cons_append,
        bind_of_ok (peekKind?_run _)]
      dsimp only
      rw [if_neg (hpeek _), bind_of_ok (hback _ _ _ (.cons rfl _)),
        bind_of_ok (eat_token _), if_pos rfl, bind_of_ok hrest]
      rfl

theorem parseCall_print {es : List Expr} (hlen : es.length ≤ listLimit)
    (h : ∀ e ∈ es, e.body? = none ∧ ReadsBack w (recur 0) e) (name : String) :
    parseCall recur name ⟨parens (printArguments w es) ++ rest, ps, fs⟩ =
      .ok (.call name es, ⟨rest, ps, fs⟩) := by
  unfold parseCall
  rw [parens_append, bind_of_ok (expect_token ..), bind_of_ok (callArguments_print hlen h),
    bind_of_ok (expect_token ..)]
  rfl

/-- Expressions without a body are read back: one case for each of them. -/
theorem Expr.readsBack (e : Expr) (hprintable : ∀ n ∈ e.nodes, n.Printable w) (hbody : e.body? = none)
    (hfuel : (e.print w).length < fuel) : ReadsBack w (parseExpr fuel 0) e := by
  induction e using Expr.induction generalizing fuel with
  | step e parts_back =>
    have part_body (p : Expr) (hp : p ∈ e.parts) : p.body? = none := by
      apply (hprintable e e.self_mem_nodes).1 p
      rw [operands_of_body?_eq_none hbody]
      exact hp
    have ih (p : Expr) (hp : p ∈ e.parts) {fuel : Nat} (hfuel : (p.print w).length < fuel) :
        ReadsBack w (parseExpr fuel 0) p :=
      parts_back p hp (fun n hn => hprintable n (mem_nodes_of_part hp hn)) (part_body p hp) hfuel
    have hself := (hprintable e e.self_mem_nodes).2.2
    obtain ⟨fuel, rfl⟩ : ∃ n, fuel = n + 2 := by
      obtain ⟨t, ts, hhead, _⟩ := e.header_head (w := w)
      rw [header_of_inline hbody] at hhead
      rw [hhead, List.length_cons] at hfuel
      exact ⟨fuel - 2, by omega⟩
    cases e with
    | literal value =>
      refine readsBack_of_operand rfl fun rest ps fs _ => ?_
      match value with
      | .number x =>
        have hx : numberLiteral (w.number x) = .ok x := hself
        simp only [Literal.token, parseOperand, hx]
        rfl
      | .text _ | .boolean true | .boolean false => rfl
    | query | namespaceName | usingName => exact readsBack_of_operand rfl fun rest ps fs _ => rfl
    | var name =>
      exact readsBack_of_operand rfl fun rest ps fs hrest => parseVariable_of_follows hrest name
    | importName name type =>
      refine readsBack_of_operand rfl fun rest ps fs _ => ?_
      simp only [parseOperand, importParts_append hself]
      rfl
    | binary op left right =>
      simp only [print, parens, List.length_append, List.length_cons, List.length_nil] at hfuel
      obtain ⟨fuel, rfl⟩ : ∃ n, fuel = n + 1 := ⟨fuel - 1, by omega⟩
      have hleft : ReadsBack w (parseExpr (fuel + 2) 0) left := ih left (by simp [parts]) (by omega)
      have hright : ReadsBack w (parseExpr (fuel + 1) 0) right := ih right (by simp [parts]) (by omega)
      exact readsBack_binary hleft hright
    | ternary condition yes no =>
      simp only [print, parens, List.length_append, List.length_cons, List.length_nil] at hfuel
      obtain ⟨fuel, rfl⟩ : ∃ n, fuel = n + 1 := ⟨fuel - 1, by omega⟩
      have hcondition : ReadsBack w (parseExpr (fuel + 2) 0) condition :=
        ih condition (by simp [parts]) (by omega)
      have hyes : ReadsBack w (parseExpr (fuel + 1) 0) yes := ih yes (by simp [parts]) (by omega)
      have hno : ReadsBack w (parseExpr (fuel + 1) 0) no := ih no (by simp [parts]) (by omega)
      exact readsBack_ternary hcondition hyes hno
    | call name arguments =>
      have hargument (p : Expr) (hp : p ∈ arguments) :
          p.body? = none ∧ ReadsBack w (parseExpr (fuel + 1) 0) p := by
        have hlength := length_print_le_arguments (w := w) hp
        simp only [print, parens, List.length_append, List.length_cons, List.length_nil] at hfuel
        exact ⟨part_body p hp, ih p hp (by omega)⟩
      exact readsBack_of_operand rfl fun rest ps fs _ => parseCall_print hself hargument name
    | letBinding name value | assign name value | returns value =>
      simp only [print, List.length_cons] at hfuel
      have hvalue : ReadsBack w (parseExpr (fuel + 1) 0) value := ih value (by simp [parts]) (by omega)
      exact readsBack_of_operand rfl fun rest ps fs hrest => bind_of_ok (hvalue rest ps fs hrest)
    | compound name op value =>
      simp only [print, List.length_cons] at hfuel
      have hvalue : ReadsBack w (parseExpr (fuel + 1) 0) value := ih value (by simp [parts]) (by omega)
      refine readsBack_of_operand rfl fun rest ps fs hrest => ?_
      exact parseVariable_update hself (hvalue rest ps fs hrest) name
    | access target member =>
      simp only [print, parens, List.length_append, List.length_cons, List.length_nil] at hfuel
      exact readsBack_access (ih target (by simp [parts]) (by omega))
    | write target member value =>
      simp only [print, parens, List.length_append, List.length_cons, List.length_nil] at hfuel
      obtain ⟨fuel, rfl⟩ : ∃ n, fuel = n + 1 := ⟨fuel - 1, by omega⟩
      have htarget : ReadsBack w (parseExpr (fuel + 2) 0) target := ih target (by simp [parts]) (by omega)
      have hvalue : ReadsBack w (parseExpr (fuel + 1) 0) value := ih value (by simp [parts]) (by omega)
      exact readsBack_write htarget hvalue
    | define | forLoop | whileLoop | block => cases hbody

end

section

/-! The functions of a program, in the order of their headers. -/

variable {w : Wording} {fs : FunctionTable}

@[simp] theorem definedNames_append (es es' : List Expr) :
    definedNames (es ++ es') = definedNames es ++ definedNames es' := by
  simp [definedNames]

/-- The functions defined by a statement are itself, if it is a definition, and those in its body. -/
theorem Expr.definedNames_nodes (e : Expr) (hprintable : ∀ n ∈ e.nodes, n.Printable w) :
    definedNames e.nodes = e.defines?.toList ++ definedNames (nodesAll (e.body?.getD [])) := by
  induction e using Expr.induction with
  | step e ih =>
    have operand_none (es : List Expr) (hes : es ⊆ e.operands) : definedNames (nodesAll es) = [] := by
      induction es with
      | nil => rfl
      | cons p es ihes =>
        have hp : p ∈ e.operands := hes List.mem_cons_self
        have hpart := mem_parts_of_operand hp
        have hnone := (hprintable e e.self_mem_nodes).1 p hp
        have hdefines : p.defines? = none := by
          cases p with
          | define => cases hnone
          | _ => rfl
        rw [nodesAll_cons, definedNames_append, ihes fun q hq => hes (List.mem_cons_of_mem p hq),
          ih p hpart fun n hn => hprintable n (mem_nodes_of_part hpart hn), hdefines, hnone]
        rfl
    have hself : definedNames [e] = e.defines?.toList := by
      cases hdefines : e.defines? <;> simp [definedNames, hdefines]
    rw [nodes_eq, parts_eq, nodesAll_append, ← List.singleton_append, definedNames_append,
      definedNames_append, operand_none _ (List.Subset.refl _), List.nil_append, hself]

/-- A table with the functions of the given names added, without bodies. -/
def Wording.declare (w : Wording) (fs : FunctionTable) (names : List String) : FunctionTable :=
  names.foldl (fun fs name => fs.insert name { params := w.params name }) fs

theorem Wording.declare_append (names names' : List String) :
    w.declare fs (names ++ names') = w.declare (w.declare fs names) names' := by
  simp [Wording.declare]

theorem Wording.getElem?_declare (names : List String) (name : String) :
    (w.declare fs names)[name]? =
      if name ∈ names then some { params := w.params name } else fs[name]? := by
  induction names generalizing fs with
  | nil => simp [Wording.declare]
  | cons first names ih =>
    have hcons : w.declare fs (first :: names) =
        w.declare (fs.insert first { params := w.params first }) names := rfl
    rw [hcons, ih, Std.ExtTreeMap.getElem?_insert]
    by_cases hmem : name ∈ names
    · rw [if_pos hmem, if_pos (List.mem_cons_of_mem first hmem)]
    · by_cases heq : first = name
      · subst heq
        simp [hmem]
      · have hcompare : compare first name ≠ .eq := fun h => heq (Std.LawfulEqCmp.eq_of_compare h)
        rw [if_neg hmem, if_neg hcompare, if_neg]
        simp [hmem, Ne.symm heq]

/-- Names that are distinct and not yet in a table. -/
structure Fresh (fs : FunctionTable) (names : List String) : Prop where
  distinct : names.Nodup
  unknown : ∀ name ∈ names, name ∉ fs

theorem Fresh.left {names names' : List String} (h : Fresh fs (names ++ names')) : Fresh fs names where
  distinct := (List.nodup_append.mp h.distinct).1
  unknown name hname := h.unknown name (List.mem_append_left _ hname)

theorem Fresh.right {names names' : List String} (h : Fresh fs (names ++ names')) :
    Fresh (w.declare fs names) names' where
  distinct := (List.nodup_append.mp h.distinct).2.1
  unknown name hname hmem := by
    have hnew : name ∉ names := fun hold => (List.nodup_append.mp h.distinct).2.2 name hold name hname rfl
    rw [Std.ExtTreeMap.mem_iff_isSome_getElem?, Wording.getElem?_declare, if_neg hnew,
      ← Std.ExtTreeMap.mem_iff_isSome_getElem?] at hmem
    exact h.unknown name (List.mem_append_right _ hname) hmem

end

section

variable {w : Wording} {recur : Nat → ParseM Expr} {rest : List Token} {ps : List (List Token)}
  {fs : FunctionTable}

/-- A statement that is read back off its lines, with its functions added to the table. -/
def Rebuilds (w : Wording) (p : ParseM Expr) (e : Expr) : Prop :=
  ∀ ps fs, Fresh fs (definedNames e.nodes) → p ⟨e.header w, (e.lines w).tail ++ ps, fs⟩ =
    .ok (e, ⟨[], ps, w.declare fs (definedNames e.nodes)⟩)

theorem Expr.lines_eq (e : Expr) : e.lines w = e.header w :: (e.lines w).tail := by
  cases hbody : e.body? with
  | none => rw [lines_of_inline hbody, header_of_inline hbody, List.tail_cons]
  | some body => rw [lines_of_body hbody, List.tail_cons]

theorem closing?_header (e : Expr) : closing? (e.header w) = none := by
  obtain ⟨t, ts, hhead, hcloses⟩ := e.header_head (w := w)
  rw [hhead]
  unfold closing?
  split
  · rename_i u heq
    cases heq
    rw [if_neg]
    intro hkind
    rw [hkind] at hcloses
    cases hcloses
  · rfl

theorem parseStatement_header {e : Expr} (h : Rebuilds w (recur 0) e)
    (hfresh : Fresh fs (definedNames e.nodes)) :
    parseStatement recur ⟨e.header w, (e.lines w).tail ++ ps, fs⟩ =
      .ok (e, ⟨[], ps, w.declare fs (definedNames e.nodes)⟩) := by
  unfold parseStatement
  rw [bind_of_ok (h ps fs hfresh), get_bind]
  rfl

theorem bodyStatements_lines {es : List Expr} {allowance : Nat} (hlen : es.length ≤ allowance)
    (h : ∀ e ∈ es, Rebuilds w (recur 0) e) (hfresh : Fresh fs (definedNames (Expr.nodesAll es)))
    (ts : List Token) :
    ∃ us, bodyStatements recur allowance ⟨ts, linesAll w es ++ [Kind.rightScope.token] :: ps, fs⟩ =
      .ok (es, ⟨us, ps, w.declare fs (definedNames (Expr.nodesAll es))⟩) := by
  induction es generalizing allowance fs ts with
  | nil =>
    refine ⟨ts, ?_⟩
    cases allowance with
    | zero => rfl
    | succ allowance => rfl
  | cons e es ih =>
    obtain ⟨allowance, rfl⟩ : ∃ n, allowance = n + 1 :=
      Nat.exists_eq_add_one.mpr (Nat.lt_of_lt_of_le (Nat.succ_pos _) hlen)
    rw [Expr.nodesAll_cons, definedNames_append] at hfresh ⊢
    obtain ⟨us, hrest⟩ := ih (Nat.le_of_succ_le_succ hlen)
      (fun f hf => h f (List.mem_cons_of_mem e hf)) (hfresh.right (w := w)) []
    refine ⟨us, ?_⟩
    have hclosing : ¬isClosing (e.header w) = true := by
      rw [isClosing, closing?_header]
      exact Bool.false_ne_true
    rw [linesAll, e.lines_eq, List.append_assoc, List.cons_append, bodyStatements,
      bind_of_ok (nextStatement?_cons ..)]
    dsimp only
    rw [if_neg hclosing, bind_of_ok (load_run ..),
      bind_of_ok (parseStatement_header (h e List.mem_cons_self) hfresh.left), bind_of_ok hrest,
      ← Wording.declare_append]
    rfl

/-- The body behind a header, which leaves the rest of the header as it is. -/
theorem parseBody_lines {es : List Expr} (hlen : es.length ≤ bodyLimit)
    (h : ∀ e ∈ es, Rebuilds w (recur 0) e) (hfresh : Fresh fs (definedNames (Expr.nodesAll es))) :
    parseBody recur ⟨rest, linesAll w es ++ [Kind.rightScope.token] :: ps, fs⟩ =
      .ok (es, ⟨rest, ps, w.declare fs (definedNames (Expr.nodesAll es))⟩) := by
  obtain ⟨us, hbody⟩ := bodyStatements_lines hlen h hfresh rest
  unfold parseBody
  rw [get_bind, bind_of_ok hbody, bind_of_ok (load_run ..)]
  rfl

theorem parameterNames_print {names : List String} {allowance : Nat}
    (hlen : names.length ≤ allowance) :
    parameterNames allowance (printParameters names ++ Kind.rightParen.token :: rest) =
      (names, Kind.rightParen.token :: rest) := by
  fun_induction printParameters names generalizing allowance with
  | case1 =>
    cases allowance with
    | zero => rfl
    | succ allowance => rfl
  | case2 name =>
    obtain ⟨allowance, rfl⟩ : ∃ n, allowance = n + 1 := Nat.exists_eq_add_one.mpr hlen
    rfl
  | case3 name names _ ih =>
    obtain ⟨allowance, rfl⟩ : ∃ n, allowance = n + 1 :=
      Nat.exists_eq_add_one.mpr (Nat.lt_of_lt_of_le (Nat.succ_pos _) hlen)
    have hcons (ts : List Token) :
        parameterNames (allowance + 1) (⟨.parameter, name⟩ :: Kind.comma.token :: ts) =
          (name :: (parameterNames allowance ts).1, (parameterNames allowance ts).2) := rfl
    rw [List.cons_append, List.cons_append, hcons, ih (Nat.le_of_succ_le_succ hlen)]

theorem parseFunction_header {name : String} {es : List Expr}
    (hparams : (w.params name).length ≤ listLimit) (hlen : es.length ≤ bodyLimit)
    (h : ∀ e ∈ es, Rebuilds w (recur 0) e) (hfresh : Fresh fs (name :: definedNames (Expr.nodesAll es))) :
    parseFunction recur name
      ⟨parens (printParameters (w.params name)) ++ [Kind.leftScope.token],
        linesAll w es ++ [Kind.rightScope.token] :: ps, fs⟩ =
      .ok (.define name es, ⟨[], ps, w.declare fs (name :: definedNames (Expr.nodesAll es))⟩) := by
  have hnew : ¬fs.contains name = true := hfresh.unknown name List.mem_cons_self
  have hcons : Fresh fs ([name] ++ definedNames (Expr.nodesAll es)) := hfresh
  have hbody : Fresh (fs.insert name { params := w.params name }) (definedNames (Expr.nodesAll es)) :=
    hcons.right (w := w)
  unfold parseFunction
  rw [parens_append, bind_of_ok (expect_token ..), get_bind]
  dsimp only
  rw [parameterNames_print hparams, bind_of_ok (load_run ..), bind_of_ok (expect_token ..), get_bind]
  dsimp only
  rw [if_neg hnew, bind_of_ok (modify_run ..), bind_of_ok (expect_token ..),
    bind_of_ok (parseBody_lines hlen h hbody)]
  rfl

theorem parseFor_header {init condition step : Expr} {es : List Expr}
    (hinit : ReadsBack w (recur 0) init) (hcondition : ReadsBack w (recur 0) condition)
    (hstep : ReadsBack w (recur 0) step) (hlen : es.length ≤ bodyLimit)
    (h : ∀ e ∈ es, Rebuilds w (recur 0) e) (hfresh : Fresh fs (definedNames (Expr.nodesAll es))) :
    parseFor recur
      ⟨parens (init.print w ++ Kind.semicolon.token :: condition.print w
        ++ Kind.semicolon.token :: step.print w) ++ [Kind.leftScope.token],
        linesAll w es ++ [Kind.rightScope.token] :: ps, fs⟩ =
      .ok (.forLoop init condition step es,
        ⟨[], ps, w.declare fs (definedNames (Expr.nodesAll es))⟩) := by
  unfold parseFor
  simp only [parens_append, List.append_assoc, List.cons_append]
  rw [bind_of_ok (expect_token ..), bind_of_ok (hinit _ _ _ (.cons rfl _)),
    bind_of_ok (expect_token ..), bind_of_ok (hcondition _ _ _ (.cons rfl _)),
    bind_of_ok (expect_token ..), bind_of_ok (hstep _ _ _ (.cons rfl _)),
    bind_of_ok (expect_token ..), bind_of_ok (expect_token ..),
    bind_of_ok (parseBody_lines hlen h hfresh)]
  rfl

theorem parseWhile_header {condition : Expr} {es : List Expr} (hcondition : ReadsBack w (recur 0) condition)
    (hlen : es.length ≤ bodyLimit) (h : ∀ e ∈ es, Rebuilds w (recur 0) e)
    (hfresh : Fresh fs (definedNames (Expr.nodesAll es))) :
    parseWhile recur
      ⟨parens (condition.print w) ++ [Kind.leftScope.token],
        linesAll w es ++ [Kind.rightScope.token] :: ps, fs⟩ =
      .ok (.whileLoop condition es, ⟨[], ps, w.declare fs (definedNames (Expr.nodesAll es))⟩) := by
  unfold parseWhile
  rw [parens_append, bind_of_ok (expect_token ..), bind_of_ok (hcondition _ _ _ (.cons rfl _)),
    bind_of_ok (expect_token ..), bind_of_ok (expect_token ..),
    bind_of_ok (parseBody_lines hlen h hfresh)]
  rfl

/-- Statements are read back off their lines. -/
theorem Expr.rebuilds (e : Expr) (hprintable : ∀ n ∈ e.nodes, n.Printable w) {fuel : Nat}
    (hfuel : (e.print w).length < fuel) : Rebuilds w (parseExpr fuel 0) e := by
  induction e using Expr.induction generalizing fuel with
  | step e ih =>
    intro ps fs hfresh
    have hnames := e.definedNames_nodes hprintable
    have hself := hprintable e e.self_mem_nodes
    cases hbody : e.body? with
    | none =>
      have hdefines : e.defines? = none := by
        cases e with
        | define => cases hbody
        | _ => rfl
      have hback := e.readsBack hprintable hbody hfuel [] ps fs .nil
      rw [List.append_nil] at hback
      rw [hnames, hdefines, hbody, header_of_inline hbody, lines_of_inline hbody]
      exact hback
    | some body =>
      have hlen := hself.2.1 body hbody
      rw [hnames, hbody] at hfresh ⊢
      rw [lines_of_body hbody, List.tail_cons, List.append_assoc, List.singleton_append]
      rw [print_of_body hbody, List.length_append, List.length_append] at hfuel
      obtain ⟨fuel, rfl⟩ : ∃ n, fuel = n + 2 := by
        obtain ⟨t, ts, hhead, _⟩ := e.header_head (w := w)
        rw [hhead, List.length_cons, List.length_singleton] at hfuel
        exact ⟨fuel - 2, by omega⟩
      have hstatements (p : Expr) (hp : p ∈ body) : Rebuilds w (parseExpr (fuel + 1) 0) p := by
        have hpart := mem_parts_of_body hbody hp
        have hlength := length_print_lt_statements (w := w) hp
        exact ih p hpart (fun n hn => hprintable n (mem_nodes_of_part hpart hn)) (by omega)
      have hoperand (p : Expr) (hp : p ∈ e.operands)
          (hlength : (p.print w).length < (e.header w).length) :
          ReadsBack w (parseExpr (fuel + 1) 0) p := by
        have hpart := mem_parts_of_operand hp
        exact p.readsBack (fun n hn => hprintable n (mem_nodes_of_part hpart hn)) (hself.1 p hp)
          (by rw [List.length_singleton] at hfuel; omega)
      cases e with
      | define name es =>
        cases hbody
        exact parseExpr_of_primary 0 .nil (parsePrimary_of_detached Follows.nil.detached
          (parseFunction_header hself.2.2 hlen hstatements hfresh))
      | forLoop init condition step es =>
        cases hbody
        have hlengths (p : Expr) (hp : p ∈ [init, condition, step]) :
            (p.print w).length < ((Expr.forLoop init condition step body).header w).length := by
          simp only [List.mem_cons, List.not_mem_nil, or_false] at hp
          simp only [header, parens, List.length_append, List.length_cons]
          rcases hp with rfl | rfl | rfl <;> omega
        have hback (p : Expr) (hp : p ∈ [init, condition, step]) := hoperand p hp (hlengths p hp)
        exact parseExpr_of_primary 0 .nil (parsePrimary_of_detached Follows.nil.detached
          (parseFor_header (hback init (by simp)) (hback condition (by simp)) (hback step (by simp)) hlen
            hstatements hfresh))
      | whileLoop condition es =>
        cases hbody
        have hlength : (condition.print w).length < ((Expr.whileLoop condition body).header w).length := by
          simp only [header, parens, List.length_append, List.length_cons]
          omega
        exact parseExpr_of_primary 0 .nil (parsePrimary_of_detached Follows.nil.detached
          (parseWhile_header (hoperand condition (by simp [operands]) hlength) hlen hstatements hfresh))
      | block es =>
        cases hbody
        exact parseExpr_of_primary 0 .nil (parsePrimary_of_detached Follows.nil.detached
          (bind_of_ok (parseBody_lines hlen hstatements hfresh)))
      | _ => cases hbody

theorem parseAll_lines {es : List Expr} {fuel more : Nat} (hmore : es.length < more)
    (h : ∀ e ∈ es, Rebuilds w (parseExpr fuel 0) e)
    (hfresh : Fresh fs (definedNames (Expr.nodesAll es))) (ts : List Token) :
    ∃ us, parseAll fuel more ⟨ts, linesAll w es, fs⟩ =
      .ok (es, ⟨us, [], w.declare fs (definedNames (Expr.nodesAll es))⟩) := by
  induction es generalizing more fs ts with
  | nil =>
    obtain ⟨more, rfl⟩ : ∃ n, more = n + 1 := Nat.exists_eq_add_one.mpr hmore
    exact ⟨ts, rfl⟩
  | cons e es ih =>
    obtain ⟨more, rfl⟩ : ∃ n, more = n + 1 :=
      Nat.exists_eq_add_one.mpr (Nat.lt_of_le_of_lt (Nat.zero_le _) hmore)
    rw [Expr.nodesAll_cons, definedNames_append] at hfresh ⊢
    obtain ⟨us, hrest⟩ := ih (Nat.lt_of_succ_lt_succ hmore)
      (fun f hf => h f (List.mem_cons_of_mem e hf)) (hfresh.right (w := w)) []
    refine ⟨us, ?_⟩
    rw [linesAll, e.lines_eq, List.cons_append, parseAll, bind_of_ok (nextStatement?_cons ..)]
    dsimp only
    rw [closing?_header]
    dsimp only
    rw [bind_of_ok (load_run ..),
      bind_of_ok (parseStatement_header (h e List.mem_cons_self) hfresh.left), bind_of_ok hrest,
      ← Wording.declare_append]
    rfl

end

/-- Parsing undoes printing. The tokens of a printable program are grouped and parsed to exactly its
statements, with a table that has exactly its functions, their parameters, and no bodies. -/
theorem parse_print (w : Wording) (es : List Expr) (h : PrintableProgram w es) :
    ∃ parsed, parse (group (printStatements w es)) = .ok parsed ∧ parsed.expressions = es ∧
      ∀ name : String, parsed.functions[name]? =
        if name ∈ definedNames (Expr.nodesAll es) then some { params := w.params name } else none := by
  have hlength := length_printStatements_lt fun e (_ : e ∈ es) => e.length_print_lt (w := w)
  have hrebuilds (e : Expr) (he : e ∈ es) :
      Rebuilds w (parseExpr (parseFuel (linesAll w es)) 0) e := by
    have hlt := length_print_lt_statements (w := w) he
    exact e.rebuilds (fun n hn => h.nodes n (Expr.mem_nodesAll.mpr ⟨e, he, hn⟩)) (by omega)
  have hmore : es.length < parseFuel (linesAll w es) :=
    Nat.lt_of_le_of_lt (length_le_statements w es) hlength
  have hfresh : Fresh ∅ (definedNames (Expr.nodesAll es)) := ⟨h.distinct, by simp⟩
  obtain ⟨us, hparse⟩ := parseAll_lines hmore hrebuilds hfresh []
  refine ⟨⟨es, w.declare ∅ (definedNames (Expr.nodesAll es))⟩, ?_, rfl, fun name => ?_⟩
  · have hstatements : parseStatements (parseFuel (linesAll w es)) (linesAll w es) =
        .ok ⟨es, w.declare ∅ (definedNames (Expr.nodesAll es))⟩ := by
      simp only [parseStatements, StateT.run, hparse]
      rfl
    rw [parse_eq, parseScript, group_print h.nodes, hstatements]
  · rw [Wording.getElem?_declare]
    simp

/-- A function inside a function, with a loop and a block in its body. -/
theorem parse_print_nested :
    let w : Wording := ⟨fun _ => "0", fun name => if name = "f" then ["x", "y"] else []⟩
    let zero : Expr := .literal (.number (Number.withSign false 0))
    let es : List Expr :=
      [.importName "a" "float",
        .define "f"
          [.define "g" [.returns (.binary .mul (.access (.var "a") "b") zero)],
            .forLoop (.letBinding "i" zero) (.binary .less (.var "i") (.var "x"))
              (.compound "i" .add (.var "y")) [.block [.call "g" []]],
            .write (.var "a") "b" (.ternary (.var "x") (.var "y") zero)],
        .call "f" [zero, .var "a"]]
    ∃ parsed, parse (group (printStatements w es)) = .ok parsed ∧ parsed.expressions = es ∧
      parsed.functions["f"]? = some { params := ["x", "y"] } ∧
      parsed.functions["g"]? = some { params := [] } ∧ parsed.functions["h"]? = none := by
  intro w zero es
  have hprintable : PrintableProgram w es := by
    have hzero : numberLiteral "0" = .ok (Number.withSign false 0) := rfl
    refine ⟨?_, by decide⟩
    simp [es, zero, w, Expr.nodes, Expr.nodesAll, Expr.Printable, Expr.operands, Expr.body?, Expr.parts,
      bodyLimit, listLimit, hzero]
  obtain ⟨parsed, hparse, hexpressions, hfunctions⟩ := parse_print w es hprintable
  exact ⟨parsed, hparse, hexpressions, hfunctions "f", hfunctions "g", hfunctions "h"⟩

end HostScript
