import HostScript.Eval
import HostScript.Expr.Parser

/-!
# Sessions

A session compiles and runs scripts for a host. It keeps the programs compiled so far by their source
text, with the bodies that their runs have attached.
-/
namespace HostScript

/-- A compiled script. Two programs from the same compilation, by their stamp, share their functions. -/
structure Program where
  expressions : List Expr
  functions : FunctionTable
  imports : List String
  usings : List String
  stamp : Nat

namespace Program

/-- Whether no statement reads a query or calls a function. -/
def isStatic (p : Program) : Bool := Expr.allStatic p.expressions

def environment (p : Program) : Environment := { functions := p.functions }

end Program

/-- Whether a kept program may be used, and whether tokens and statements are listed. -/
structure Options where
  cache : Bool := true
  debug : Bool := false

structure Session (σ : Type) where
  builtins : Registry σ
  world : World σ
  cache : Std.ExtTreeMap String Program := ∅
  compilations : Nat := 0

/-- Operations of a session. The session is kept when one fails. -/
abbrev SessionM (σ : Type) := ExceptT Failure (StateM (Session σ))

/-- The result of an evaluation, with the environment after the last statement. -/
structure Evaluation where
  value : Value
  environment : Environment
  stamp : Nat

/-- Whether two evaluations share their functions. -/
def Evaluation.shares (a b : Evaluation) : Bool := a.stamp == b.stamp

/-- The value of a program is zero if no statement has one. -/
def Program.outcome : Except Stop (Option Value) → Except Failure Value
  | .ok v => .ok (v.getD (.number 0))
  | .error (.failed error) => .error (.runtime error)
  | .error .outOfFuel => .error .outOfFuel

namespace Session

variable {σ : Type}

def start (builtins : Registry σ) (host : σ) : Session σ := { builtins, world := { host } }

def log (es : List Event) : SessionM σ Unit :=
  modify fun s => { s with world := s.world.logAll es }

def clearCache (s : Session σ) : Session σ := { s with cache := ∅ }

/-- Compiled programs are forgotten, since names in them were classified without the new built-in. -/
def register (s : Session σ) (name : String) (b : Builtin σ) : Session σ :=
  { s with builtins := s.builtins.insert name b }.clearCache

def cached (s : Session σ) : Nat := s.cache.size

/-- Forgets the program of a source text and says whether there was one. -/
def invalidate (source : String) : SessionM σ Bool := do
  let removed := (← get).cache.contains source
  modify fun s => { s with cache := s.cache.erase source }
  log [.invalidated removed]
  return removed

/-- Compiles a script in which the listed names are those of built-ins. -/
def compileFor (names : List String) (source : String) (debug : Bool) : SessionM σ Program := do
  modify fun s => { s with compilations := s.compilations + 1 }
  let stamp := (← get).compilations
  let tokenized := tokenize names source
  log tokenized.events
  if debug then log (tokenized.tokens.map .tokenListed)
  match parse (group tokenized.tokens) with
  | .error e => throw (.parse e)
  | .ok parsed =>
    if debug then log (parsed.expressions.map fun _ => .expressionListed)
    log [.compiled tokenized.tokens.length parsed.expressions.length parsed.functions.size]
    return {
      expressions := parsed.expressions
      functions := parsed.functions
      imports := tokenized.imports
      usings := tokenized.usings
      stamp }

/-- Compiles a script without looking at the kept programs. -/
def compile (source : String) (debug : Bool) : SessionM σ Program := do
  compileFor (← get).builtins.names source debug

/-- The kept program of a source text, compiled now if there is none. -/
def getOrCompile (source : String) (debug : Bool) : SessionM σ Program := do
  match (← get).cache[source]? with
  | some program =>
    log [.cacheHit]
    return program
  | none =>
    log [.cacheMiss]
    let program ← compile source debug
    modify fun s => { s with cache := s.cache.insert source program }
    return program

/-- The kept program of a source text or a new one. -/
def obtain (source : String) (options : Options) : SessionM σ Program :=
  if options.cache then getOrCompile source options.debug else compile source options.debug

/-- Keeps the functions that a run left behind, if its program is the kept one of the source text. -/
def retain (s : Session σ) (source : String) (stamp : Nat) (functions : FunctionTable) : Session σ :=
  match s.cache[source]? with
  | some program =>
    if program.stamp = stamp then
      { s with cache := s.cache.insert source { program with functions } }
    else s
  | none => s

/-- The session after a run of a program that leaves the machine `m`. -/
def afterRun (s : Session σ) (source : String) (p : Program) (m : Machine σ) : Session σ :=
  { s with world := m.world }.retain source p.stamp m.env.functions

/-- Runs a program in an environment, which is kept also when the run stops early. -/
def run [Host σ] (fuel : Nat) (source : String) (program : Program) (inputs : Inputs)
    (env : Environment) : StateM (Session σ) (Except Failure Value × Environment) := fun s =>
  let ctx : Context σ := { builtins := s.builtins, inputs }
  match evalAll ctx fuel program.expressions { env, world := s.world } with
  | (result, machine) => ((Program.outcome result, machine.env), s.afterRun source program machine)

/-- Runs a program in a fresh environment. -/
def runFor [Host σ] (fuel : Nat) (source : String) (inputs : Inputs) (program : Program) :
    SessionM σ Evaluation := do
  let finished : Except Failure Value × Environment ←
    ExceptT.lift (run fuel source program inputs program.environment)
  match finished with
  | (.ok value, environment) => return { value, environment, stamp := program.stamp }
  | (.error failure, _) => throw failure

def evaluate [Host σ] (fuel : Nat) (source : String) (inputs : Inputs) (options : Options) :
    SessionM σ Evaluation := obtain source options >>= runFor fuel source inputs

end Session

/-- Evaluates a script once, with the standard built-ins and without inputs. -/
def evaluateOnce {σ : Type} [Host σ] (fuel : Nat) (host : σ) (source : String) :
    Except Failure Value :=
  match Session.evaluate fuel source {} { cache := false } (Session.start Registry.standard host) with
  | (result, _) => result.map Evaluation.value

end HostScript
