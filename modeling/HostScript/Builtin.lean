import HostScript.Host

/-! # Built-in functions -/
namespace HostScript

/-- How many arguments a built-in takes. -/
inductive Arity where
  | exactly (count : Nat)
  | variadic
deriving Repr, DecidableEq

def Arity.describe : Arity → String
  | exactly count => "Exact(" ++ toString count ++ ")"
  | variadic => "Variadic"

/-- What a function of the host answers, with the state it leaves the host in and its events. -/
structure Reply (σ : Type) where
  result : Except RuntimeError Value
  host : σ
  events : List Event := []

/-- A function of the host. It sees nothing of the events reported so far. -/
structure Builtin (σ : Type) where
  arity : Arity
  answer : List Value → σ → Reply σ

def Builtin.describe {σ : Type} (b : Builtin σ) : String :=
  "Builtin \x7b arity: " ++ b.arity.describe ++ ", .. \x7d"

/-- Runs a built-in whatever the number of arguments. -/
def Builtin.handler {σ : Type} (b : Builtin σ) (args : List Value) : HostM σ Value := fun w =>
  let reply := b.answer args w.host
  (reply.result, { host := reply.host, events := w.events ++ reply.events })

/-- Checks the number of arguments and runs the handler. -/
def Builtin.call {σ : Type} (b : Builtin σ) (name : String) (args : List Value) : HostM σ Value :=
  match b.arity with
  | .variadic => b.handler args
  | .exactly count =>
    if count = args.length then b.handler args
    else throw (.argumentCount name count args.length)

abbrev Registry (σ : Type) := Std.ExtTreeMap String (Builtin σ)

namespace Builtin

variable {σ : Type}

/-- A built-in that reports no event. -/
def silent (arity : Arity) (f : List Value → ExceptT RuntimeError (StateM σ) Value) : Builtin σ :=
  { arity
    answer := fun args host =>
      match f args host with
      | (result, host) => { result, host } }

/-- The argument at an index, read as a number. A missing one counts as zero. -/
def numberAt (args : List Value) (index : Nat) : Except RuntimeError Float :=
  match args[index]? with
  | some v => v.asNumber
  | none => .ok 0

def numeric (count : Nat) (f : List Value → Except RuntimeError Float) : Builtin σ :=
  silent (.exactly count) fun args =>
    match f args with
    | .ok x => return .number x
    | .error e => throw e

def unary (f : Float → Float) : Builtin σ := numeric 1 fun args => return f (← numberAt args 0)

/-- The distance above the next lower integer. -/
def fraction (x : Float) : Float := x - x.floor

def sign (x : Float) : Float := if 0 < x then 1 else if x < 0 then -1 else 0

def power : Builtin σ := numeric 2 fun args => do
  let base ← numberAt args 0
  let exponent ← numberAt args 1
  return Float.pow base exponent

/-- Confines the first argument between the other two. The lower bound wins over the upper one. -/
def clamp : Builtin σ := numeric 3 fun args => do
  let x ← numberAt args 0
  let low ← numberAt args 1
  let high ← numberAt args 2
  return Number.larger low (Number.smaller high x)

/-- The point between the first two arguments at the third, with one rounding after the difference. -/
def interpolate : Builtin σ := numeric 3 fun args => do
  let a ← numberAt args 0
  let b ← numberAt args 1
  let t ← numberAt args 2
  return Number.multiplyAdd t (b - a) a

/-- One coordinate of a cubic curve with four control points, at the parameter given last. -/
def bezier : Builtin σ := numeric 5 fun args => do
  let t ← numberAt args 4
  let u := 1 - t
  let p ← numberAt args 0
  let q ← numberAt args 1
  let r ← numberAt args 2
  let s ← numberAt args 3
  return 0 + u * u * u * p + 3 * u * u * t * q + 3 * u * t * t * r + t * t * t * s

/-- Reports the texts of its arguments as an event. -/
def debug [Host σ] : Builtin σ where
  arity := .variadic
  answer args host :=
    { result := .ok (.number 0)
      host
      events := [.printed (args.map fun v => v.render host)] }

end Builtin

namespace Registry

variable {σ : Type}

def names (registry : Registry σ) : List String := registry.keys

def standardEntries [Host σ] : List (String × Builtin σ) :=
  [("sin", .unary Float.sin), ("cos", .unary Float.cos), ("tan", .unary Float.tan),
   ("sqrt", .unary Float.sqrt), ("abs", .unary Float.abs), ("exp", .unary Float.exp),
   ("int", .unary Number.truncate), ("frac", .unary Builtin.fraction), ("sign", .unary Builtin.sign),
   ("pow", .power), ("clamp", .clamp), ("lerp", .interpolate), ("bez_curve_x", .bezier),
   ("bez_curve_y", .bezier), ("debug", .debug)]

def standard [Host σ] : Registry σ :=
  standardEntries.foldl (fun registry entry => registry.insert entry.1 entry.2) ∅

end Registry

end HostScript
