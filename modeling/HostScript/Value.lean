import HostScript.Error
import HostScript.Expr.Basic
import HostScript.Number.Decimal
import HostScript.Number.Shortest

/-! # Values -/
namespace HostScript

structure ObjectId where
  index : Nat
deriving Repr, DecidableEq, Inhabited

inductive Value where
  | number (value : Float)
  | text (value : String)
  | boolean (value : Bool)
  | object (id : ObjectId)
deriving Repr, DecidableEq, Inhabited

namespace Value

def kind : Value → ValueKind
  | number _ => .number
  | text _ => .text
  | boolean _ => .boolean
  | object _ => .object

def ofLiteral : Literal → Value
  | .number value => number value
  | .text value => text value
  | .boolean value => boolean value

def asNumber : Value → Except RuntimeError Float
  | number value => .ok value
  | v => .error (.cast .number v.kind)

def asBoolean : Value → Except RuntimeError Bool
  | boolean value => .ok value
  | v => .error (.cast .boolean v.kind)

def asText : Value → Except RuntimeError String
  | text value => .ok value
  | v => .error (.cast .text v.kind)

def asObject : Value → Except RuntimeError ObjectId
  | object id => .ok id
  | v => .error (.cast .object v.kind)

/-- Numbers are compared as numbers, so `0` is `-0`, and objects by identity. -/
def same : Value → Value → Bool
  | number a, number b => a == b
  | text a, text b => a == b
  | boolean a, boolean b => a == b
  | object a, object b => a == b
  | _, _ => false

end Value

/-- How the text of an import is read. -/
inductive ImportType where
  | float
  | string
  | bool
deriving Repr, DecidableEq

def ImportType.kind : ImportType → ValueKind
  | float => .number
  | string => .text
  | bool => .boolean

/-- What a host supplies for an import: text that is read anew every time, or an object. -/
inductive Import where
  | serialized (type : ImportType) (raw : String)
  | object (id : ObjectId)
deriving Repr, DecidableEq

/-- The value of an import. White space around a number or a truth value does not count. -/
def Import.materialize : Import → Except RuntimeError Value
  | .object id => .ok (.object id)
  | .serialized .string raw => .ok (.text raw)
  | .serialized .float raw =>
    match Number.read (Text.trimBlanks raw.toList) with
    | .ok x => .ok (.number x)
    | .error _ => .error (.cast .number .text)
  | .serialized .bool raw =>
    let word := Text.trimBlanks raw.toList
    if word = "true".toList then .ok (.boolean true)
    else if word = "false".toList then .ok (.boolean false)
    else .error (.cast .boolean .text)

structure Inputs where
  queries : Std.ExtTreeMap String Value := ∅
  imports : Std.ExtTreeMap String Import := ∅

end HostScript
