import HostScript.Builtin

/-! # A scene -/
namespace HostScript

inductive SceneObject where
  | vec2 (x y : Float)
  | tag
  | bag (fields : Std.ExtTreeMap String Value)

/-- The objects of a scene by identity, and the counters of its ticking functions. -/
structure Scene where
  objects : Array SceneObject := #[]
  counters : Array Nat := #[]

namespace Scene

def object (scene : Scene) (id : ObjectId) : SceneObject := scene.objects.getD id.index .tag

def add (scene : Scene) (o : SceneObject) : ObjectId × Scene :=
  (⟨scene.objects.size⟩, { scene with objects := scene.objects.push o })

def replace (scene : Scene) (id : ObjectId) (o : SceneObject) : Scene :=
  { scene with objects := scene.objects.setIfInBounds id.index o }

/-- Adds a counter that starts at zero. -/
def addCounter (scene : Scene) : Nat × Scene :=
  (scene.counters.size, { scene with counters := scene.counters.push 0 })

def typeName (id : ObjectId) (scene : Scene) : String :=
  match scene.object id with
  | .vec2 _ _ => "Vec2"
  | .tag => "Tag"
  | .bag _ => "Bag"

/-- How a bag shows one of its values. Objects in it are shown by their type only. -/
def renderField (scene : Scene) : Value → String
  | .number value => Number.render value
  | .text value => value
  | .boolean value => if value then "true" else "false"
  | .object id => "<" ++ typeName id scene ++ ">"

/-- The text of an object. The fields of a bag are shown in ascending order of their names. -/
def render (id : ObjectId) (scene : Scene) : String :=
  match scene.object id with
  | .vec2 x y => "(" ++ Number.render x ++ ", " ++ Number.render y ++ ")"
  | .tag => "tag"
  | .bag fields =>
    let shown := fields.toList.map fun field => field.1 ++ "=" ++ scene.renderField field.2
    "bag\x7b" ++ Text.joinWith ", " shown ++ "\x7d"

/-- Reads a member. A vector also has its square length. -/
def getField (id : ObjectId) (name : String) (scene : Scene) : Option Value :=
  match scene.object id with
  | .vec2 x y =>
    match name with
    | "x" => some (.number x)
    | "y" => some (.number y)
    | "dot" => some (.number (x * x + y * y))
    | _ => none
  | .tag => none
  | .bag fields => fields[name]?

/-- A bag takes any value for a field that it has and whose name does not begin with an underscore. -/
def setField (id : ObjectId) (name : String) (v : Value) (scene : Scene) : Option Scene :=
  match scene.object id, v with
  | .vec2 x y, .number n =>
    match name with
    | "x" => some (scene.replace id (.vec2 n y))
    | "y" => some (scene.replace id (.vec2 x n))
    | _ => none
  | .bag fields, v =>
    if fields.contains name && name.toList.head? != some '_' then
      some (scene.replace id (.bag (fields.insert name v)))
    else none
  | _, _ => none

/-- Adds to an object: two vectors by coordinates, and a text to a bag. -/
def tryAdd (id : ObjectId) (v : Value) (scene : Scene) : Option Value × Scene :=
  match scene.object id, v with
  | .vec2 x y, .object other =>
    match scene.object other with
    | .vec2 z w =>
      let added := scene.add (.vec2 (x + z) (y + w))
      (some (.object added.1), added.2)
    | _ => (none, scene)
  | .bag _, .text t => (some (.text ("bag+" ++ t)), scene)
  | _, _ => (none, scene)

instance : Host Scene where
  typeName := typeName
  render := render
  getField id name := fun scene => (scene.getField id name, scene)
  setField id name v := fun scene =>
    match scene.setField id name v with
    | some changed => (true, changed)
    | none => (false, scene)
  tryAdd id v := fun scene => scene.tryAdd id v

/-- Functions that a scene can register. -/
inductive Offer where
  | const (value : Value)
  /-- One, two, three, and so on, by a counter of its own. -/
  | tick
  | refuse
  | sum
  | negate
  | upper
  | kinds
  | vec2

/-- The result of a check inside a function of the scene. -/
def check {α : Type} : Except RuntimeError α → ExceptT RuntimeError (StateM Scene) α
  | .ok a => return a
  | .error e => throw e

def step (counter : Nat) : StateM Scene Nat := fun scene =>
  let count := scene.counters.getD counter 0 + 1
  (count, { scene with counters := scene.counters.setIfInBounds counter count })

def sumOf (args : List Value) : Except RuntimeError Float :=
  args.foldlM (fun total v => return total + (← v.asNumber)) 0

/-- What an offered function does. `counter` is the counter it may count with. -/
def Offer.run (counter : Nat) : Offer → List Value → ExceptT RuntimeError (StateM Scene) Value
  | .const value, _ => return value
  | .tick, _ => return .number (Float.ofNat (← step counter))
  | .refuse, args => throw (.host ("refused " ++ toString args.length ++ " arguments"))
  | .sum, args => return .number (← check (sumOf args))
  | .negate, [] => return .boolean true
  | .negate, v :: _ => return .boolean (!(← check v.asBoolean))
  | .upper, [] => return .text ""
  | .upper, v :: _ => return .text (String.ofList ((← check v.asText).toList.map Char.toUpper))
  | .kinds, args => return .text (Text.joinWith "," (args.map fun v => v.kind.name))
  | .vec2, args => do
    let x ← check (Builtin.numberAt args 0)
    let y ← check (Builtin.numberAt args 1)
    let scene ← get
    let added := scene.add (.vec2 x y)
    set added.2
    return .object added.1

/-- The built-in of an offer, with a new counter. -/
def Offer.builtin (offer : Offer) (arity : Arity) (scene : Scene) : Builtin Scene × Scene :=
  let added := scene.addCounter
  (.silent arity (offer.run added.1), added.2)

end Scene

end HostScript
