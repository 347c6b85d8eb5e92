import HostScript.Error
import HostScript.Expr.Basic
import HostScript.Number.Decimal
import HostScript.TokenTree

/-!
# Parsing

Recursive descent over the statements of a token tree, with precedence climbing for operators. A
construct with a body takes the statements that follow its header, up to a lone closing brace. The
parser runs on a queue of trees, into the front of which a region is unrolled once a statement inside of
it is asked for. A plain list of statements will do as well.

Every nested call comes after a token or a statement was consumed, so the number of tokens and
statements of the input is fuel enough.
-/
namespace HostScript

/-- Most arguments of a call and most parameters of a function. -/
def listLimit : Nat := 30

/-- Most statements of a body. -/
def bodyLimit : Nat := 64

/-- Binding strength of the ternary `?`. -/
def ternaryPrecedence : Nat := 5

namespace TokenTree

mutual

/-- The first statement of a tree, and what is left of the tree behind it. -/
def uncons? : TokenTree → Option (List Token × List TokenTree)
  | .statement tokens => some (tokens, [])
  | .scope children => unconsAll? children

/-- The region in which the first statement stands gives way to its remaining children. -/
def unconsAll? : List TokenTree → Option (List Token × List TokenTree)
  | [] => none
  | tree :: rest =>
    match tree.uncons? with
    | some (tokens, children) => some (tokens, children ++ rest)
    | none => unconsAll? rest

end

end TokenTree

/-- Trees of which the parser takes the statements one by one. -/
structure TreeQueue where
  trees : List TokenTree

instance : Std.Stream TreeQueue (List Token) where
  next? queue := (TokenTree.unconsAll? queue.trees).map fun (statement, trees) => (statement, ⟨trees⟩)

/-- The unread tokens of the current statement, the statements after it, and the functions so far. -/
structure ParserState (σ : Type := List (List Token)) where
  tokens : List Token := []
  pending : σ
  functions : FunctionTable := ∅

/-- Why a parser stops: the input is malformed, or the fuel is used up. -/
inductive ParseStop where
  | failed (error : ParseError)
  | outOfFuel
deriving Repr, DecidableEq

/-- Parsers that take their statements from a `σ`. -/
abbrev ParseFrom (σ : Type) := StateT (ParserState σ) (Except ParseStop)

/-- Parsers of a list of statements. -/
abbrev ParseM := ParseFrom (List (List Token))

section

variable {σ : Type}

namespace ParseM

def fail {α : Type} (error : ParseError) : ParseFrom σ α := throw (.failed error)

def peekKind? : ParseFrom σ (Option Kind) := do return (← get).tokens.head?.map Token.kind

def next? : ParseFrom σ (Option Token) := do
  let s ← get
  match s.tokens with
  | [] => return none
  | t :: rest =>
    set { s with tokens := rest }
    return some t

/-- Consumes the next token if it is of the given kind, and says whether it was. -/
def eat (kind : Kind) : ParseFrom σ Bool := do
  if (← peekKind?) == some kind then
    let _ ← next?
    return true
  else
    return false

/-- Consumes a token of the given kind, which has to be there. -/
def expect (kind : Kind) (written : Char) (construct : Construct) : ParseFrom σ Unit := do
  if !(← eat kind) then fail (.missingDelimiter written construct)

def nextStatement? [Std.Stream σ (List Token)] : ParseFrom σ (Option (List Token)) := do
  let s ← get
  match Std.Stream.next? s.pending with
  | none => return none
  | some (statement, rest) =>
    set { s with pending := rest }
    return some statement

def load (tokens : List Token) : ParseFrom σ Unit := modify fun s => { s with tokens }

end ParseM

end

open ParseM

/-- What an operator token does between operands. -/
inductive Joint where
  | operator (op : Operator)
  | ternary
deriving Repr, DecidableEq

namespace Joint

def ofKind? : Kind → Option Joint
  | .plus => some (.operator .add)
  | .minus => some (.operator .sub)
  | .star => some (.operator .mul)
  | .slash => some (.operator .div)
  | .percent => some (.operator .mod)
  | .caret => some (.operator .pow)
  | .less => some (.operator .less)
  | .greater => some (.operator .greater)
  | .question => some .ternary
  | _ => none

/-- Binding strength. The ternary stands between the multiplicative and the relational operators. -/
def precedence : Joint → Nat
  | .operator op => op.precedence
  | .ternary => ternaryPrecedence

end Joint

/-- The parts of an import directive: the name before the first `-` and the type after it. -/
def importParts (directive : String) : String × String :=
  match Text.splitOnce '-' directive.toList with
  | some (name, type) => (String.ofList name, String.ofList type)
  | none => (directive, "")

/-- The update that a token stands for, and whether its right-hand side is written out. -/
def compoundOf? : Kind → Option (Operator × Bool)
  | .increment => some (.add, false)
  | .decrement => some (.sub, false)
  | .plusAssign => some (.add, true)
  | .minusAssign => some (.sub, true)
  | _ => none

def numberLiteral (literal : String) : Except ParseError Float :=
  match Number.readLiteral literal.toList with
  | some x => .ok x
  | none => .error (.malformedNumber literal)

/-- At most `allowance` parameter names with commas between them, off the front of the tokens. -/
def parameterNames : Nat → List Token → List String × List Token
  | 0, tokens => ([], tokens)
  | _ + 1, [] => ([], [])
  | allowance + 1, t :: rest =>
    if t.kind == .parameter || t.kind == .variableName then
      match rest with
      | [] => ([t.text], [])
      | u :: after =>
        if u.kind == .comma then
          let more := parameterNames allowance after
          (t.text :: more.1, more.2)
        else ([t.text], rest)
    else ([], t :: rest)

/-- A chain of member accesses behind an operand. -/
def accessChain (target : Expr) (members : List Token) : Expr :=
  members.foldl (fun e t => .access e t.text) target

section

/-! The grammar below is written over the parser `recur` for expressions whose operators bind at least
as tightly as a given strength. -/

variable {σ : Type} (recur : Nat → ParseFrom σ Expr)

/-- The current statement as one expression that uses all of its tokens. -/
def parseStatement : ParseFrom σ Expr := do
  let e ← recur 0
  match (← get).tokens with
  | [] => return e
  | t :: _ => fail (.unexpectedToken t.text)

/-- The statements up to the closing brace, of which `allowance` more are accepted. -/
def bodyStatements [Std.Stream σ (List Token)] : Nat → ParseFrom σ (List Expr)
  | 0 => do
    match ← nextStatement? with
    | none => fail (.missingDelimiter '\x7d' .body)
    | some statement =>
      if isClosing statement then return [] else fail (.bodyTooLong bodyLimit)
  | allowance + 1 => do
    match ← nextStatement? with
    | none => fail (.missingDelimiter '\x7d' .body)
    | some statement =>
      if isClosing statement then return []
      else
        load statement
        let e ← parseStatement recur
        return e :: (← bodyStatements allowance)

/-- The body after a header. The rest of the header statement is read on afterwards. -/
def parseBody [Std.Stream σ (List Token)] : ParseFrom σ (List Expr) := do
  let header := (← get).tokens
  let body ← bodyStatements recur bodyLimit
  load header
  return body

/-- At most `allowance` arguments with commas between them. -/
def callArguments : Nat → ParseFrom σ (List Expr)
  | 0 => return []
  | allowance + 1 => do
    if (← peekKind?) == some .rightParen then return []
    else
      let e ← recur 0
      if ← eat .comma then return e :: (← callArguments allowance) else return [e]

def parseCall (name : String) : ParseFrom σ Expr := do
  expect .leftParen '(' .functionCall
  let arguments ← callArguments recur listLimit
  expect .rightParen ')' .functionCall
  return .call name arguments

/-- The parameters and the body of a function. Its name must be new in the script. -/
def parseFunction [Std.Stream σ (List Token)] (name : String) : ParseFrom σ Expr := do
  expect .leftParen '(' .functionDefinition
  let (params, rest) := parameterNames listLimit (← get).tokens
  load rest
  expect .rightParen ')' .functionDefinition
  if (← get).functions.contains name then fail (.duplicateFunction name)
  modify fun s => { s with functions := s.functions.insert name { params } }
  expect .leftScope '\x7b' .functionDefinition
  return .define name (← parseBody recur)

def parseFor [Std.Stream σ (List Token)] : ParseFrom σ Expr := do
  expect .leftParen '(' .forLoop
  let init ← recur 0
  expect .semicolon ';' .forLoop
  let condition ← recur 0
  expect .semicolon ';' .forLoop
  let step ← recur 0
  expect .rightParen ')' .forLoop
  expect .leftScope '\x7b' .forLoop
  return .forLoop init condition step (← parseBody recur)

def parseWhile [Std.Stream σ (List Token)] : ParseFrom σ Expr := do
  expect .leftParen '(' .whileLoop
  let condition ← recur 0
  expect .rightParen ')' .whileLoop
  expect .leftScope '\x7b' .whileLoop
  return .whileLoop condition (← parseBody recur)

def parseVariable (name : String) : ParseFrom σ Expr := do
  match (← peekKind?).bind compoundOf? with
  | none => return .var name
  | some (op, written) =>
    let _ ← next?
    if written then return .compound name op (← recur 0)
    else return .compound name op (.literal (.number 1))

/-- The operand that a token begins. -/
def parseOperand [Std.Stream σ (List Token)] (t : Token) : ParseFrom σ Expr :=
  match t.kind with
  | .number =>
    match numberLiteral t.text with
    | .ok x => return .literal (.number x)
    | .error e => fail e
  | .text => return .literal (.text t.text)
  | .trueWord => return .literal (.boolean true)
  | .falseWord => return .literal (.boolean false)
  | .query => return .query t.text
  | .variableName => parseVariable recur t.text
  | .leftParen => do
    let e ← recur 0
    expect .rightParen ')' .parenthesised
    return e
  | .leftBracket => do
    let e ← recur 0
    expect .rightBracket ']' .bracketed
    return e
  | .call => parseCall recur t.text
  | .function => parseFunction recur t.text
  | .forWord => parseFor recur
  | .whileWord => parseWhile recur
  | .leftScope => return .block (← parseBody recur)
  | .letName => return .letBinding t.text (← recur 0)
  | .assign => return .assign t.text (← recur 0)
  | .returnWord => return .returns (← recur 0)
  | .namespaceName => return .namespaceName t.text
  | .usingName => return .usingName t.text
  | .importName =>
    let parts := importParts t.text
    return .importName parts.1 parts.2
  | _ => fail (.unexpectedToken t.text)

/-- An operand, the members accessed on it, and a value written to the last of them. -/
def parsePrimary [Std.Stream σ (List Token)] : ParseFrom σ Expr := do
  match ← next? with
  | none => fail (.unexpectedEnd .expression)
  | some t =>
    let operand ← parseOperand recur t
    let tokens := (← get).tokens
    let e := accessChain operand (tokens.takeWhile (·.kind == .access))
    load (tokens.dropWhile (·.kind == .access))
    match e with
    | .access target member =>
      if ← eat .equals then return .write target member (← recur 0) else return e
    | _ => return e

/-- Joins further operands to `left` while the operators bind at least as tightly as `strength`. -/
def climb (strength : Nat) : Nat → Expr → ParseFrom σ Expr
  | 0, _ => throw .outOfFuel
  | fuel + 1, left => do
    match (← peekKind?).bind Joint.ofKind? with
    | none => return left
    | some joint =>
      if joint.precedence < strength then return left
      else
        let _ ← next?
        match joint with
        | .ternary =>
          let yes ← recur 0
          if !(← eat .colon) then fail .missingTernaryColon
          let no ← recur 0
          return .ternary left yes no
        | .operator op =>
          let right ← recur (op.precedence + 1)
          climb strength fuel (.binary op left right)

end

section

variable {σ : Type} [Std.Stream σ (List Token)]

/-- An expression whose operators bind at least as tightly as `strength`. -/
def parseExpr : Nat → Nat → ParseFrom σ Expr
  | 0, _ => throw .outOfFuel
  | fuel + 1, strength => do
    let left ← parsePrimary (parseExpr fuel)
    climb (parseExpr fuel) strength fuel left

/-- Every statement that is left, at the top level of a script. -/
def parseAll (fuel : Nat) : Nat → ParseFrom σ (List Expr)
  | 0 => throw .outOfFuel
  | more + 1 => do
    match ← nextStatement? with
    | none => return []
    | some statement =>
      match closing? statement with
      | some t => fail (.unexpectedToken t.text)
      | none =>
        load statement
        let e ← parseStatement (parseExpr fuel)
        return e :: (← parseAll fuel more)

/-- A parsed script: its statements and its functions, which have no bodies yet. -/
structure Parsed where
  expressions : List Expr
  functions : FunctionTable

def parseStatements (fuel : Nat) (statements : σ) : Except ParseStop Parsed := do
  let (expressions, s) ← (parseAll fuel fuel).run { pending := statements }
  return { expressions, functions := s.functions }

/-- With fuel enough for the statements, the error given for want of fuel does not arise. -/
def parseScript (fuel : Nat) (statements : σ) : Except ParseError Parsed :=
  match parseStatements fuel statements with
  | .ok parsed => .ok parsed
  | .error (.failed error) => .error error
  | .error .outOfFuel => .error (.unexpectedEnd .expression)

end

/-- Fuel enough for the given statements: one unit for each token and each statement, and one more. -/
def parseFuel : List (List Token) → Nat
  | [] => 1
  | statement :: rest => statement.length + 1 + parseFuel rest

def parse (tree : TokenTree) : Except ParseError Parsed :=
  parseScript (parseFuel tree.statements) (TreeQueue.mk [tree])

end HostScript
