import HostScript.Event
import HostScript.Number.Arithmetic
import HostScript.Value

/-!
# Hosts

A host keeps the objects that scripts refer to, and `σ` is its state. The world of a running script is
that state together with the events so far.
-/
namespace HostScript

/-- The capabilities of host objects. Reading, writing and adding may change the state of the host. -/
class Host (σ : Type) where
  typeName : ObjectId → σ → String
  render : ObjectId → σ → String
  getField : ObjectId → String → StateM σ (Option Value)
  /-- Writes a member and says whether the object accepts the write. -/
  setField : ObjectId → String → Value → StateM σ Bool
  /-- The sum with a right operand, if the object defines one for it. -/
  tryAdd : ObjectId → Value → StateM σ (Option Value)

/-- The host without objects. -/
instance : Host Unit where
  typeName _ _ := ""
  render _ _ := ""
  getField _ _ := pure none
  setField _ _ _ := pure false
  tryAdd _ _ := pure none

/-- The state of the host and the events so far, oldest first. -/
structure World (σ : Type) where
  host : σ
  events : Array Event := #[]

/-- Computations on a world that may fail. -/
abbrev HostM (σ : Type) := ExceptT RuntimeError (StateM (World σ))

namespace World

variable {σ : Type}

def log (w : World σ) (e : Event) : World σ := { w with events := w.events.push e }

def logAll (w : World σ) (es : List Event) : World σ := { w with events := w.events ++ es }

def onHost {α : Type} (m : StateM σ α) : HostM σ α := fun w =>
  match m w.host with
  | (a, host) => (.ok a, { w with host })

end World

section

variable {σ : Type} [Host σ]

def Value.render (v : Value) (host : σ) : String :=
  match v with
  | .number value => Number.render value
  | .text value => value
  | .boolean value => if value then "true" else "false"
  | .object id => Host.render id host

/-- An operator on two numbers. Comparisons yield truth values. -/
def applyNumeric (op : Operator) (a b : Float) : Value :=
  match op with
  | .add => .number (a + b)
  | .sub => .number (a - b)
  | .mul => .number (a * b)
  | .div => .number (a / b)
  | .mod => .number (Number.remainder a b)
  | .pow => .number (Float.pow a b)
  | .less => .boolean (decide (a < b))
  | .greater => .boolean (decide (b < a))

/-- The sum that an object on the left defines, else the concatenation of the texts. -/
def addFallback (a b : Value) : HostM σ Value := do
  let sum ← match a with
    | .object id => World.onHost (Host.tryAdd id b)
    | _ => pure none
  match sum with
  | some v => return v
  | none =>
    let w ← get
    return .text (a.render w.host ++ b.render w.host)

/-- An operator on two values. Only `+` accepts operands that are not both numbers. -/
def applyBinary (op : Operator) (a b : Value) : HostM σ Value :=
  match a, b with
  | .number x, .number y => return applyNumeric op x y
  | _, _ =>
    if op = .add then addFallback a b
    else throw (.operandMismatch op.symbol a.kind b.kind)

end

end HostScript
