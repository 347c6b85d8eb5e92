import HostScript.Builtin
import HostScript.Environment.Basic

/-!
# Evaluation

The evaluator recurses on the expression. Only calls of functions and rounds of loops can go on without
end, and fuel bounds the depth to which calls may nest and the number of rounds that one loop may take.

A function body runs in the environment of its caller, with the parameters bound for the time of the
call. Each statement of a loop body runs in a copy of the environment, and only names that were bound
before it are copied back.
-/
namespace HostScript

structure Machine (σ : Type) where
  env : Environment
  world : World σ

inductive Stop where
  | failed (error : RuntimeError)
  | outOfFuel
deriving Repr, DecidableEq

/-- Evaluations. The state is kept when one stops early. -/
abbrev EvalM (σ : Type) := ExceptT Stop (StateM (Machine σ))

/-- What stays the same during an evaluation. -/
structure Context (σ : Type) where
  builtins : Registry σ
  inputs : Inputs

namespace EvalM

variable {σ α : Type}

def fail (error : RuntimeError) : EvalM σ α := throw (.failed error)

def ofExcept : Except RuntimeError α → EvalM σ α
  | .ok a => return a
  | .error e => fail e

def ofHost (m : HostM σ α) : EvalM σ α := fun s =>
  match m s.world with
  | (.ok a, world) => (.ok a, { s with world })
  | (.error e, world) => (.error (.failed e), { s with world })

def modifyEnv (f : Environment → Environment) : EvalM σ Unit :=
  modify fun s => { s with env := f s.env }

def log (e : Event) : EvalM σ Unit := modify fun s => { s with world := s.world.log e }

/-- Runs an evaluation in a copy of the environment. If it stops early, no variable changes. Bodies
attached to functions stay attached either way, and predicates stay as they were. -/
def isolate (m : EvalM σ α) : EvalM σ Unit := fun s =>
  match m s with
  | (.ok _, t) =>
    (.ok (), { env := (s.env.mergeExisting t.env).withFunctions t.env.functions, world := t.world })
  | (.error stop, t) =>
    (.error stop, { env := s.env.withFunctions t.env.functions, world := t.world })

/-- Runs an evaluation with some variables bound, and restores them however it ends. -/
def withBindings (bindings : List (String × Value)) (m : EvalM σ α) : EvalM σ α := fun s =>
  let bound := Variables.bindAll bindings s.env.vars
  match m { s with env := { s.env with vars := bound.2 } } with
  | (r, t) =>
    (r, { t with env := { t.env with vars := Variables.restoreAll bound.1 t.env.vars } })

end EvalM

open EvalM

/-- A number above this counts as true in the condition of a `while` loop. -/
def whileThreshold : Float := 0.5

section

/-! The rules below combine evaluations of the parts of a construct. -/

variable {σ : Type} [Host σ]

/-- The value of a part that has to have one. -/
def require (place : Operand) (part : EvalM σ (Option Value)) : EvalM σ Value := do
  match ← part with
  | some v => return v
  | none => fail (.missingValue place)

/-- The value of a name: its binding, else what the host supplies for an import of that name. -/
def variableValue (ctx : Context σ) (name : String) : EvalM σ (Option Value) := do
  match (← get).env.get? name with
  | some v => return some v
  | none =>
    match ctx.inputs.imports[name]? with
    | some i => return some (← ofExcept i.materialize)
    | none => return none

/-- The value of a query. One that the host does not supply is zero. -/
def queryValue (ctx : Context σ) (name : String) : EvalM σ Value := do
  match ctx.inputs.queries[name]? with
  | some v => return v
  | none =>
    log (.queryMissing name)
    return .number 0

/-- The truth value that a value stands for in a ternary. -/
def truthOf? : Value → Option Bool
  | .boolean b => some b
  | .number x => Number.truth? x
  | _ => none

def ternaryHolds (condition : EvalM σ (Option Value)) : EvalM σ Bool := do
  let v ← require .ternaryCondition condition
  match truthOf? v with
  | some b => return b
  | none => fail (.conditionMismatch (v.render (← get).world.host))

/-- Whether the condition of a `for` loop holds. One without a value does not. -/
def forHolds (condition : EvalM σ (Option Value)) : EvalM σ Bool := do
  match ← condition with
  | some v => ofExcept v.asBoolean
  | none => return false

/-- Whether the condition of a `while` loop holds. One without a value does not. -/
def whileHolds (condition : EvalM σ (Option Value)) : EvalM σ Bool := do
  match ← condition with
  | none => return false
  | some (.boolean b) => return b
  | some (.number x) => return decide (whileThreshold < x)
  | some v => fail (.cast .boolean v.kind)

/-- The rounds of a loop: `round` is run as long as `holds` says so. -/
def rounds (holds : EvalM σ Bool) (round : EvalM σ Unit) : Nat → EvalM σ Unit
  | 0 => throw .outOfFuel
  | fuel + 1 => do
    if ← holds then
      round
      rounds holds round fuel
    else return ()

/-- A round of a `for` loop: its body, and then its step. -/
def forRound (body : EvalM σ Unit) (step : EvalM σ (Option Value)) : EvalM σ Unit := do
  body
  let _ ← step
  return ()

/-- Calls a function of the script. Surplus arguments are dropped, and a parameter without an argument
keeps the binding it has. -/
def callFunction (callBody : List Expr → EvalM σ (Option Value)) (name : String)
    (args : List Value) : EvalM σ Value := do
  match (← get).env.functions[name]? with
  | none => fail (.undefinedReference .function name)
  | some entry =>
    match entry.body with
    | none => fail (.undefinedReference .functionBody name)
    | some body =>
      let v ← withBindings (entry.params.zip args) (callBody body)
      return v.getD (.number 0)

/-- Calls a built-in, which wins over a function of the script with the same name. -/
def callNamed (ctx : Context σ) (callBody : List Expr → EvalM σ (Option Value)) (name : String)
    (args : List Value) : EvalM σ Value :=
  match ctx.builtins[name]? with
  | some builtin => ofHost (builtin.call name args)
  | none => callFunction callBody name args

def binding (name : String) (value : EvalM σ (Option Value)) : EvalM σ Value := do
  let v ← require .assignment value
  modifyEnv fun env => env.set name v
  return v

/-- Updates a variable. Its value is read before the right-hand side is evaluated. -/
def compound (ctx : Context σ) (name : String) (op : Operator) (value : EvalM σ (Option Value)) :
    EvalM σ Value := do
  match ← variableValue ctx name with
  | none => fail (.undefinedReference .variableName name)
  | some current =>
    let v ← require .compoundAssignment value
    match current, v with
    | .number a, .number b =>
      let updated := applyNumeric op a b
      modifyEnv fun env => env.set name updated
      return updated
    | _, _ => fail (.operandMismatch op.symbol current.kind v.kind)

/-- Binds what the host supplies for an import. -/
def importValue (ctx : Context σ) (name : String) : EvalM σ Unit := do
  match ctx.inputs.imports[name]? with
  | none => fail (.undefinedReference .importValue name)
  | some i =>
    let v ← ofExcept i.materialize
    modifyEnv fun env => env.set name v

def undefinedMember {α : Type} (id : ObjectId) (member : String) : EvalM σ α := do
  let typeName := Host.typeName id (← get).world.host
  fail (.undefinedReference .member (typeName ++ "." ++ member))

def readMember (target : EvalM σ (Option Value)) (member : String) : EvalM σ Value := do
  let v ← require .memberAccess target
  let id ← ofExcept v.asObject
  match ← ofHost (World.onHost (Host.getField id member)) with
  | some field => return field
  | none => undefinedMember id member

/-- Writes a member of an object. The target has to be an object before the value is evaluated. -/
def writeMember (target : EvalM σ (Option Value)) (member : String)
    (value : EvalM σ (Option Value)) : EvalM σ Value := do
  let v ← require .memberWrite target
  let id ← ofExcept v.asObject
  let written ← require .memberWrite value
  if ← ofHost (World.onHost (Host.setField id member written)) then return written
  else undefinedMember id member

end

section

variable {σ : Type} [Host σ] (ctx : Context σ) (callBody : List Expr → EvalM σ (Option Value))
  (limit : Nat)

mutual

/-- Bodies of called functions are run by `callBody`, and a loop takes fewer than `limit` rounds. -/
def evalExpr : Expr → EvalM σ (Option Value)
  | .literal value => return some (Value.ofLiteral value)
  | .query name => some <$> queryValue ctx name
  | .var name => variableValue ctx name
  | .binary op left right => do
    let a ← require .left (evalExpr left)
    let b ← require .right (evalExpr right)
    some <$> ofHost (applyBinary op a b)
  | .ternary condition yes no => do
    if ← ternaryHolds (evalExpr condition) then evalExpr yes else evalExpr no
  | .call name arguments => do
    let args ← evalArguments arguments
    some <$> callNamed ctx callBody name args
  | .define name body => do
    modifyEnv fun env => env.attach name body
    return none
  | .forLoop init condition step body => do
    let _ ← evalExpr init
    rounds (forHolds (evalExpr condition)) (forRound (evalIsolated body) (evalExpr step)) limit
    return none
  | .whileLoop condition body => do
    rounds (whileHolds (evalExpr condition)) (evalIsolated body) limit
    return none
  | .block body => evalSequence none body
  | .letBinding name value => some <$> binding name (evalExpr value)
  | .assign name value => some <$> binding name (evalExpr value)
  | .compound name op value => some <$> compound ctx name op (evalExpr value)
  | .returns value => evalExpr value
  | .namespaceName name => do
    modifyEnv fun env => env.addPredicate name
    return none
  | .usingName name => do
    modifyEnv fun env => env.addPredicate name
    return none
  | .importName name _ => do
    importValue ctx name
    return none
  | .access target member => some <$> readMember (evalExpr target) member
  | .write target member value =>
    some <$> writeMember (evalExpr target) member (evalExpr value)

/-- Evaluates statements in order. Without a value in any of them the result is `last`. -/
def evalSequence (last : Option Value) : List Expr → EvalM σ (Option Value)
  | [] => return last
  | e :: es => do
    let v ← evalExpr e
    evalSequence (v.or last) es

def evalArguments : List Expr → EvalM σ (List Value)
  | [] => return []
  | e :: es => do
    let v ← require .argument (evalExpr e)
    return v :: (← evalArguments es)

/-- Evaluates the statements of a loop body, each in a copy of the environment. -/
def evalIsolated : List Expr → EvalM σ Unit
  | [] => return ()
  | e :: es => do
    isolate (evalExpr e)
    evalIsolated es

end

end

section

variable {σ : Type} [Host σ] (ctx : Context σ)

/-- Runs the body of a function, with fuel for the calls and loops in it. -/
def runBody : Nat → List Expr → EvalM σ (Option Value)
  | 0, _ => throw .outOfFuel
  | fuel + 1, body => evalSequence ctx (runBody fuel) fuel none body

def eval (fuel : Nat) (e : Expr) : EvalM σ (Option Value) := evalExpr ctx (runBody ctx fuel) fuel e

def evalAll (fuel : Nat) (es : List Expr) : EvalM σ (Option Value) :=
  evalSequence ctx (runBody ctx fuel) fuel none es

end

end HostScript
