import HostScript.Expr.Parser
import HostScript.Proofs.Expr.Nodes
import HostScript.Proofs.Token.Lexeme
import HostScript.Proofs.TokenTree

/-!
# Printing programs

A program is printed to tokens: each statement ends in a semicolon, headers and braces stand as in the
grammar, and every operand of an operator, a ternary, an access or a member write stands in parentheses.
Grouping the tokens gives back the lines of the program. A construct with a body takes a line for its
header, those of its statements, and one for the closing brace. Every other statement is one line.
-/
namespace HostScript

/-- What a program leaves open about its tokens: how numbers are written, and the parameters of its
functions. -/
structure Wording where
  number : Float → String
  params : String → List String

def Kind.token (k : Kind) : Token := ⟨k, k.written?.getD ""⟩

@[simp] theorem Kind.kind_token (k : Kind) : k.token.kind = k := rfl

def Operator.kind : Operator → Kind
  | .add => .plus
  | .sub => .minus
  | .mul => .star
  | .div => .slash
  | .mod => .percent
  | .pow => .caret
  | .less => .less
  | .greater => .greater

def Operator.updateKind : Operator → Kind
  | .add => .plusAssign
  | _ => .minusAssign

def Literal.token (w : Wording) : Literal → Token
  | .number value => ⟨.number, w.number value⟩
  | .text value => ⟨.text, value⟩
  | .boolean true => Kind.trueWord.token
  | .boolean false => Kind.falseWord.token

def parens (ts : List Token) : List Token := Kind.leftParen.token :: ts ++ [Kind.rightParen.token]

def printParameters : List String → List Token
  | [] => []
  | [name] => [⟨.parameter, name⟩]
  | name :: names => ⟨.parameter, name⟩ :: Kind.comma.token :: printParameters names

mutual

def Expr.print (w : Wording) : Expr → List Token
  | .literal value => [value.token w]
  | .query name => [⟨.query, name⟩]
  | .var name => [⟨.variableName, name⟩]
  | .binary op left right => parens (left.print w) ++ op.kind.token :: parens (right.print w)
  | .ternary condition yes no =>
    parens (condition.print w) ++ Kind.question.token :: parens (yes.print w)
      ++ Kind.colon.token :: parens (no.print w)
  | .call name arguments => ⟨.call, name⟩ :: parens (printArguments w arguments)
  | .define name body =>
    ⟨.function, name⟩ :: parens (printParameters (w.params name)) ++ Kind.leftScope.token
      :: printStatements w body ++ [Kind.rightScope.token]
  | .forLoop init condition step body =>
    Kind.forWord.token
      :: parens (init.print w ++ Kind.semicolon.token :: condition.print w
        ++ Kind.semicolon.token :: step.print w)
      ++ Kind.leftScope.token :: printStatements w body ++ [Kind.rightScope.token]
  | .whileLoop condition body =>
    Kind.whileWord.token :: parens (condition.print w) ++ Kind.leftScope.token
      :: printStatements w body ++ [Kind.rightScope.token]
  | .block body => Kind.leftScope.token :: printStatements w body ++ [Kind.rightScope.token]
  | .letBinding name value => ⟨.letName, name⟩ :: value.print w
  | .assign name value => ⟨.assign, name⟩ :: value.print w
  | .compound name op value => ⟨.variableName, name⟩ :: op.updateKind.token :: value.print w
  | .returns value => Kind.returnWord.token :: value.print w
  | .namespaceName name => [⟨.namespaceName, name⟩]
  | .usingName name => [⟨.usingName, name⟩]
  | .importName name type => [⟨.importName, name ++ "-" ++ type⟩]
  | .access target member => parens (target.print w) ++ [⟨.access, member⟩]
  | .write target member value =>
    parens (target.print w) ++ ⟨.access, member⟩ :: Kind.equals.token :: parens (value.print w)

def printArguments (w : Wording) : List Expr → List Token
  | [] => []
  | e :: es => e.print w ++ printMoreArguments w es

/-- The arguments after the first one, each with a comma before it. -/
def printMoreArguments (w : Wording) : List Expr → List Token
  | [] => []
  | e :: es => Kind.comma.token :: e.print w ++ printMoreArguments w es

/-- Statements, each with a semicolon behind it. -/
def printStatements (w : Wording) : List Expr → List Token
  | [] => []
  | e :: es => e.print w ++ Kind.semicolon.token :: printStatements w es

end

def Expr.body? : Expr → Option (List Expr)
  | .define _ body | .forLoop _ _ _ body | .whileLoop _ body | .block body => some body
  | _ => none

/-- The first line of a statement: the header of a construct with a body, or the whole expression. -/
def Expr.header (w : Wording) : Expr → List Token
  | .define name _ =>
    ⟨.function, name⟩ :: parens (printParameters (w.params name)) ++ [Kind.leftScope.token]
  | .forLoop init condition step _ =>
    Kind.forWord.token
      :: parens (init.print w ++ Kind.semicolon.token :: condition.print w
        ++ Kind.semicolon.token :: step.print w)
      ++ [Kind.leftScope.token]
  | .whileLoop condition _ =>
    Kind.whileWord.token :: parens (condition.print w) ++ [Kind.leftScope.token]
  | .block _ => [Kind.leftScope.token]
  | e => e.print w

mutual

def Expr.lines (w : Wording) : Expr → List (List Token)
  | .define name body =>
    (Expr.define name body).header w :: (linesAll w body ++ [[Kind.rightScope.token]])
  | .forLoop init condition step body =>
    (Expr.forLoop init condition step body).header w :: (linesAll w body ++ [[Kind.rightScope.token]])
  | .whileLoop condition body =>
    (Expr.whileLoop condition body).header w :: (linesAll w body ++ [[Kind.rightScope.token]])
  | .block body => (Expr.block body).header w :: (linesAll w body ++ [[Kind.rightScope.token]])
  | e => [e.header w]

def linesAll (w : Wording) : List Expr → List (List Token)
  | [] => []
  | e :: es => e.lines w ++ linesAll w es

end

/-- The expressions that a construct is made of, apart from the statements of a body. -/
def Expr.operands : Expr → List Expr
  | .forLoop init condition step _ => [init, condition, step]
  | .whileLoop condition _ => [condition]
  | .define _ _ | .block _ => []
  | e => e.parts

/-- What has to hold of a construct for it to be printed: no operand has a body, and the limits of the
grammar are kept. An update adds or subtracts, no import has a minus in its name, and a number is denoted
by its literal. -/
def Expr.Printable (w : Wording) (e : Expr) : Prop :=
  (∀ p ∈ e.operands, p.body? = none) ∧ (∀ body, e.body? = some body → body.length ≤ bodyLimit) ∧
    match e with
    | .literal (.number value) => numberLiteral (w.number value) = .ok value
    | .call _ arguments => arguments.length ≤ listLimit
    | .define name _ => (w.params name).length ≤ listLimit
    | .compound _ op _ => op = .add ∨ op = .sub
    | .importName name _ => '-' ∉ name.toList
    | _ => True

def Expr.defines? : Expr → Option String
  | .define name _ => some name
  | _ => none

def definedNames (es : List Expr) : List String := es.filterMap Expr.defines?

/-- A program that can be printed: every construct in it can, and no function name is used twice. -/
structure PrintableProgram (w : Wording) (es : List Expr) : Prop where
  nodes : ∀ n ∈ Expr.nodesAll es, n.Printable w
  distinct : (definedNames (Expr.nodesAll es)).Nodup

theorem Expr.operands_of_body?_eq_none {e : Expr} (h : e.body? = none) : e.operands = e.parts := by
  cases e with
  | define | forLoop | whileLoop | block => cases h
  | _ => rfl

theorem Expr.parts_eq (e : Expr) : e.parts = e.operands ++ e.body?.getD [] := by
  cases e <;> simp [parts, operands, body?]

theorem Expr.mem_parts_of_operand {p e : Expr} (h : p ∈ e.operands) : p ∈ e.parts := by
  rw [parts_eq]
  exact List.mem_append_left _ h

theorem Expr.mem_parts_of_body {p e : Expr} {body : List Expr} (hbody : e.body? = some body)
    (h : p ∈ body) : p ∈ e.parts := by
  rw [parts_eq, hbody]
  exact List.mem_append_right _ h

section

/-! Tokens that stay on the line being collected. -/

/-- Whether a token of this kind is collected without any other effect. -/
def Kind.collected : Kind → Bool
  | .function | .forWord | .whileWord | .leftScope | .rightScope | .leftParen | .rightParen
  | .semicolon => false
  | _ => true

theorem Lines.push_of_collected (g : Lines) {t : Token} (h : t.kind.collected) :
    g.push t = g.collect t := by
  unfold Lines.push
  cases hk : t.kind with
  | function | forWord | whileWord | leftScope | rightScope | leftParen | rightParen | semicolon =>
    rw [hk] at h
    cases h
  | _ => rfl

/-- Tokens that are all collected, with as many opening as closing parentheses. -/
def Inline (ts : List Token) : Prop :=
  ∀ g : Lines, ts.foldl Lines.push g = { g with buffer := g.buffer ++ ts }

theorem Inline.nil : Inline [] := fun g => by simp

theorem Inline.append {ts us : List Token} (ht : Inline ts) (hu : Inline us) : Inline (ts ++ us) := by
  intro g
  rw [List.foldl_append, ht, hu, List.append_assoc]

theorem Inline.single {t : Token} (h : t.kind.collected) : Inline [t] := fun g =>
  g.push_of_collected h

theorem Inline.cons {t : Token} {ts : List Token} (h : t.kind.collected) (ht : Inline ts) :
    Inline (t :: ts) := (Inline.single h).append ht

/-- Tokens that are all collected inside parentheses, where semicolons end no statement. -/
def Enclosed (ts : List Token) : Prop :=
  ∀ g : Lines, g.depth ≠ 0 → ts.foldl Lines.push g = { g with buffer := g.buffer ++ ts }

theorem Inline.enclosed {ts : List Token} (h : Inline ts) : Enclosed ts := fun g _ => h g

theorem Enclosed.append {ts us : List Token} (ht : Enclosed ts) (hu : Enclosed us) :
    Enclosed (ts ++ us) := by
  intro g hdepth
  have hus := hu { g with buffer := g.buffer ++ ts } hdepth
  rw [List.foldl_append, ht g hdepth, hus, List.append_assoc]

theorem Enclosed.semicolon : Enclosed [Kind.semicolon.token] := by
  intro g hdepth
  simp [Lines.push, Kind.opensScope, hdepth, Lines.collect]

theorem Enclosed.parens {ts : List Token} (h : Enclosed ts) : Inline (parens ts) := by
  intro g
  have hopen : g.push Kind.leftParen.token = ⟨g.found, g.buffer ++ [Kind.leftParen.token],
      g.depth + 1, g.headerOpen⟩ := rfl
  rw [HostScript.parens, List.cons_append, List.foldl_cons, hopen, List.foldl_append,
    h _ (Nat.succ_ne_zero _)]
  simp [Lines.push, Lines.collect, Kind.opensScope]

theorem Inline.parens {ts : List Token} (h : Inline ts) : Inline (parens ts) := h.enclosed.parens

theorem Inline.parameters (names : List String) : Inline (printParameters names) := by
  fun_induction printParameters names with
  | case1 => exact .nil
  | case2 name => exact .single rfl
  | case3 name names _ ih => exact .cons rfl (.cons rfl ih)

variable {w : Wording}

theorem Inline.arguments {es : List Expr} (h : ∀ e ∈ es, Inline (e.print w)) :
    Inline (printArguments w es) := by
  have more (es : List Expr) (h : ∀ e ∈ es, Inline (e.print w)) : Inline (printMoreArguments w es) := by
    induction es with
    | nil => exact .nil
    | cons e es ih =>
      exact .append (.cons rfl (h e List.mem_cons_self)) (ih fun f hf => h f (List.mem_cons_of_mem e hf))
  cases es with
  | nil => exact .nil
  | cons e es =>
    exact .append (h e List.mem_cons_self) (more es fun f hf => h f (List.mem_cons_of_mem e hf))

/-- An expression without a body is printed on one line. -/
theorem Expr.print_inline (e : Expr) (hprintable : ∀ n ∈ e.nodes, n.Printable w)
    (hbody : e.body? = none) : Inline (e.print w) := by
  induction e using Expr.induction with
  | step e parts_inline =>
    have ih (p : Expr) (hp : p ∈ e.parts) : Inline (p.print w) := by
      apply parts_inline p hp (fun n hn => hprintable n (mem_nodes_of_part hp hn))
      apply (hprintable e e.self_mem_nodes).1 p
      rw [operands_of_body?_eq_none hbody]
      exact hp
    cases e with
    | literal value =>
      match value with
      | .number _ | .text _ | .boolean true | .boolean false => exact .single rfl
    | query | var | namespaceName | usingName | importName => exact .single rfl
    | binary op left right =>
      have hop : op.kind.token.kind.collected := by
        cases op <;> rfl
      have hleft := ih left (by simp [parts])
      have hright := ih right (by simp [parts])
      exact hleft.parens.append (.cons hop hright.parens)
    | ternary condition yes no =>
      have hcondition := ih condition (by simp [parts])
      have hyes := ih yes (by simp [parts])
      have hno := ih no (by simp [parts])
      exact (hcondition.parens.append (.cons rfl hyes.parens)).append (.cons rfl hno.parens)
    | call name arguments => exact .cons rfl (.parens (.arguments ih))
    | letBinding name value | assign name value | returns value =>
      exact .cons rfl (ih value (by simp [parts]))
    | compound name op value =>
      have hop : op.updateKind.token.kind.collected := by
        cases op <;> rfl
      have hvalue := ih value (by simp [parts])
      exact .cons rfl (.cons hop hvalue)
    | access target member =>
      have htarget := ih target (by simp [parts])
      exact htarget.parens.append (.single rfl)
    | write target member value =>
      have htarget := ih target (by simp [parts])
      have hvalue := ih value (by simp [parts])
      exact htarget.parens.append (.cons rfl (.cons rfl hvalue.parens))
    | define | forLoop | whileLoop | block => cases hbody

/-- A header that awaits its opening brace makes up a line. -/
theorem Lines.foldl_scope {t : Token} (ht : t.kind.opensScope) {ts : List Token} (hts : Inline ts)
    (found : List (List Token)) :
    (t :: ts ++ [Kind.leftScope.token]).foldl Lines.push ⟨found, [], 0, false⟩ =
      ⟨found ++ [t :: ts ++ [Kind.leftScope.token]], [], 0, false⟩ := by
  have hopen : Lines.push ⟨found, [], 0, false⟩ t = ⟨found, [t], 0, true⟩ := by
    unfold Lines.push
    rw [if_pos ht]
    rfl
  rw [List.cons_append, List.foldl_cons, hopen, List.foldl_append, hts]
  simp [Lines.push, Kind.opensScope, Lines.collect, Lines.flush]

/-- The header of a construct with a body makes up a line. -/
theorem Expr.foldl_header {e : Expr} (hprintable : ∀ n ∈ e.nodes, n.Printable w) {body : List Expr}
    (hbody : e.body? = some body) (found : List (List Token)) :
    (e.header w).foldl Lines.push ⟨found, [], 0, false⟩ = ⟨found ++ [e.header w], [], 0, false⟩ := by
  have operand_inline (p : Expr) (hp : p ∈ e.operands) : Inline (p.print w) := by
    refine p.print_inline (fun n hn => hprintable n ?_) ((hprintable e e.self_mem_nodes).1 p hp)
    exact mem_nodes_of_part (mem_parts_of_operand hp) hn
  cases e with
  | define name es => exact Lines.foldl_scope rfl (.parens (.parameters _)) found
  | forLoop init condition step es =>
    have hinit := operand_inline init (by simp [operands])
    have hcondition := operand_inline condition (by simp [operands])
    have hstep := operand_inline step (by simp [operands])
    refine Lines.foldl_scope rfl (Enclosed.parens ?_) found
    exact (hinit.enclosed.append (Enclosed.semicolon.append hcondition.enclosed)).append
      (Enclosed.semicolon.append hstep.enclosed)
  | whileLoop condition es =>
    exact Lines.foldl_scope rfl (.parens (operand_inline condition (by simp [operands]))) found
  | block es => rfl
  | _ => cases hbody

theorem Expr.print_of_body {e : Expr} {body : List Expr} (h : e.body? = some body) :
    e.print w = e.header w ++ printStatements w body ++ [Kind.rightScope.token] := by
  cases e with
  | define | forLoop | whileLoop | block =>
    cases h
    simp [print, header]
  | _ => cases h

theorem Expr.lines_of_body {e : Expr} {body : List Expr} (h : e.body? = some body) :
    e.lines w = e.header w :: (linesAll w body ++ [[Kind.rightScope.token]]) := by
  cases e with
  | define | forLoop | whileLoop | block =>
    cases h
    simp [lines]
  | _ => cases h

theorem Expr.header_of_inline {e : Expr} (h : e.body? = none) : e.header w = e.print w := by
  cases e with
  | define | forLoop | whileLoop | block => cases h
  | _ => rfl

theorem Expr.lines_of_inline {e : Expr} (h : e.body? = none) : e.lines w = [e.print w] := by
  cases e with
  | define | forLoop | whileLoop | block => cases h
  | _ => simp [lines, header]

/-- Whether a token of this kind ends a parenthesis or a body. -/
def Kind.closes : Kind → Bool
  | .rightParen | .rightScope => true
  | _ => false

/-- The first line of a statement begins with a token that closes nothing. -/
theorem Expr.header_head (e : Expr) : ∃ t ts, e.header w = t :: ts ∧ t.kind.closes = false := by
  cases e with
  | literal value =>
    match value with
    | .number _ | .text _ | .boolean true | .boolean false => exact ⟨_, _, rfl, rfl⟩
  | _ => exact ⟨_, _, rfl, rfl⟩

/-- Statements whose grouping gives their lines, one after the other. -/
theorem foldl_printStatements {es : List Expr}
    (h : ∀ e ∈ es, ∀ found, (e.print w ++ [Kind.semicolon.token]).foldl Lines.push
      ⟨found, [], 0, false⟩ = ⟨found ++ e.lines w, [], 0, false⟩) (found : List (List Token)) :
    (printStatements w es).foldl Lines.push ⟨found, [], 0, false⟩ =
      ⟨found ++ linesAll w es, [], 0, false⟩ := by
  induction es generalizing found with
  | nil => simp [printStatements, linesAll]
  | cons e es ih =>
    have hsplit : printStatements w (e :: es) =
        e.print w ++ [Kind.semicolon.token] ++ printStatements w es := by
      simp [printStatements]
    rw [hsplit, List.foldl_append, h e List.mem_cons_self, linesAll, ← List.append_assoc]
    exact ih (fun f hf => h f (List.mem_cons_of_mem e hf)) _

/-- Grouping a printed statement gives its lines. -/
theorem Expr.foldl_print (e : Expr) (hprintable : ∀ n ∈ e.nodes, n.Printable w)
    (found : List (List Token)) :
    (e.print w ++ [Kind.semicolon.token]).foldl Lines.push ⟨found, [], 0, false⟩ =
      ⟨found ++ e.lines w, [], 0, false⟩ := by
  induction e using Expr.induction generalizing found with
  | step e ih =>
    cases hbody : e.body? with
    | none =>
      obtain ⟨t, ts, hhead, _⟩ := e.header_head (w := w)
      rw [header_of_inline hbody] at hhead
      rw [List.foldl_append, e.print_inline hprintable hbody, lines_of_inline hbody, hhead]
      rfl
    | some body =>
      have hstatements (found : List (List Token)) :
          (printStatements w body).foldl Lines.push ⟨found, [], 0, false⟩ =
            ⟨found ++ linesAll w body, [], 0, false⟩ := by
        refine foldl_printStatements (fun p hp => ?_) found
        have hpart := mem_parts_of_body hbody hp
        exact ih p hpart fun n hn => hprintable n (mem_nodes_of_part hpart hn)
      rw [print_of_body hbody, lines_of_body hbody, List.foldl_append, List.foldl_append,
        List.foldl_append, foldl_header hprintable hbody, hstatements]
      simp [Lines.push, Kind.opensScope, Lines.flush, Lines.add]

/-- Grouping a printed program gives its lines. -/
theorem group_print {es : List Expr} (hprintable : ∀ n ∈ Expr.nodesAll es, n.Printable w) :
    (group (printStatements w es)).statements = linesAll w es := by
  have hfoldl := foldl_printStatements (fun e he => e.foldl_print fun n hn =>
    hprintable n (Expr.mem_nodesAll.mpr ⟨e, he, hn⟩)) []
  rw [group_statements, hfoldl]
  rfl

theorem length_print_le_arguments {p : Expr} {es : List Expr} (h : p ∈ es) :
    (p.print w).length ≤ (printArguments w es).length := by
  have more (es : List Expr) (h : p ∈ es) :
      (p.print w).length ≤ (printMoreArguments w es).length := by
    induction es with
    | nil => cases h
    | cons e es ih =>
      simp only [printMoreArguments, List.cons_append, List.length_cons, List.length_append]
      rcases List.mem_cons.mp h with rfl | h
      · omega
      · have := ih h
        omega
  cases es with
  | nil => cases h
  | cons e es =>
    simp only [printArguments, List.length_append]
    rcases List.mem_cons.mp h with rfl | h
    · omega
    · have := more es h
      omega

theorem length_print_lt_statements {p : Expr} {es : List Expr} (h : p ∈ es) :
    (p.print w).length < (printStatements w es).length := by
  induction es with
  | nil => cases h
  | cons e es ih =>
    simp only [printStatements, List.length_append, List.length_cons]
    rcases List.mem_cons.mp h with rfl | h
    · omega
    · have := ih h
      omega

theorem length_le_statements (w : Wording) (es : List Expr) :
    es.length ≤ (printStatements w es).length := by
  induction es with
  | nil => exact Nat.le_refl 0
  | cons e es ih =>
    simp only [printStatements, List.length_append, List.length_cons]
    omega

/-- The fuel of the parser is measured in tokens and lines, and exceeds the number of printed tokens. -/
theorem parseFuel_append (ls ms : List (List Token)) :
    parseFuel (ls ++ ms) + 1 = parseFuel ls + parseFuel ms := by
  induction ls with
  | nil =>
    rw [List.nil_append, parseFuel]
    omega
  | cons l ls ih =>
    simp only [List.cons_append, parseFuel]
    omega

theorem length_printStatements_lt {es : List Expr}
    (h : ∀ e ∈ es, (e.print w).length + 2 ≤ parseFuel (e.lines w)) :
    (printStatements w es).length < parseFuel (linesAll w es) := by
  induction es with
  | nil => exact Nat.zero_lt_one
  | cons e es ih =>
    have he := h e List.mem_cons_self
    have hes := ih fun f hf => h f (List.mem_cons_of_mem e hf)
    have happend := parseFuel_append (e.lines w) (linesAll w es)
    simp only [printStatements, linesAll, List.length_append, List.length_cons]
    omega

theorem Expr.length_print_lt (e : Expr) : (e.print w).length + 2 ≤ parseFuel (e.lines w) := by
  induction e using Expr.induction with
  | step e ih =>
    cases hbody : e.body? with
    | none =>
      rw [lines_of_inline hbody]
      simp [parseFuel]
    | some body =>
      have hbodies := length_printStatements_lt fun p hp => ih p (mem_parts_of_body hbody hp)
      have happend := parseFuel_append (linesAll w body) [[Kind.rightScope.token]]
      rw [print_of_body hbody, lines_of_body hbody]
      simp only [parseFuel, List.length_append, List.length_cons, List.length_nil] at happend ⊢
      omega

end

end HostScript
