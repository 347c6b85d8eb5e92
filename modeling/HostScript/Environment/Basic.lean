import HostScript.Value

/-! # Environments -/
namespace HostScript

abbrev Variables := Std.ExtTreeMap String Value

/-- The predicates are the namespaces and usings in order of first appearance. -/
structure Environment where
  vars : Variables := ∅
  functions : FunctionTable := ∅
  predicates : List String := []

namespace Environment

def get? (env : Environment) (name : String) : Option Value := env.vars[name]?

def set (env : Environment) (name : String) (v : Value) : Environment :=
  { env with vars := env.vars.insert name v }

def remove (env : Environment) (name : String) : Environment :=
  { env with vars := env.vars.erase name }

def contains (env : Environment) (name : String) : Bool := env.vars.contains name

def addPredicate (env : Environment) (predicate : String) : Environment :=
  if env.predicates.contains predicate then env
  else { env with predicates := env.predicates ++ [predicate] }

/-- Puts a function without a body into the table. -/
def declare (env : Environment) (name : String) (params : List String) : Environment :=
  { env with functions := env.functions.insert name { params } }

/-- Attaches a body to a function. A name that is not in the table enters it without parameters. -/
def attach (env : Environment) (name : String) (body : List Expr) : Environment :=
  let entry := env.functions.getD name {}
  { env with functions := env.functions.insert name { entry with body := some body } }

/-- Copies back from `scratch` the bindings of the names that are bound here, as far as it has them. -/
def mergeExisting (env scratch : Environment) : Environment :=
  { env with vars := env.vars.map fun name v => scratch.vars.getD name v }

@[simp] theorem get?_set (env : Environment) (name other : String) (v : Value) :
    (env.set name v).get? other = if name = other then some v else env.get? other := by
  simp [get?, set, Std.ExtTreeMap.getElem?_insert]

@[simp] theorem get?_remove (env : Environment) (name other : String) :
    (env.remove name).get? other = if name = other then none else env.get? other := by
  simp [get?, remove, Std.ExtTreeMap.getElem?_erase]

/-- After a merge the same names are bound, each to what the scratch environment holds for it if it
holds anything. -/
theorem get?_mergeExisting (env scratch : Environment) (name : String) :
    (env.mergeExisting scratch).get? name =
      (env.get? name).map fun v => (scratch.get? name).getD v := by
  simp [get?, mergeExisting, Std.ExtTreeMap.getD_eq_getD_getElem?]

/-- The functions of another environment of the same program. -/
def withFunctions (env : Environment) (functions : FunctionTable) : Environment :=
  { env with functions }

end Environment

namespace Variables

/-- Binds names to values from left to right and remembers what each binding replaced. -/
def bindAll : List (String × Value) → Variables → List (String × Option Value) × Variables
  | [], vars => ([], vars)
  | (name, v) :: rest, vars =>
    let bound := bindAll rest (vars.insert name v)
    ((name, vars[name]?) :: bound.1, bound.2)

/-- Gives a name back the binding, or the lack of one, that it had. -/
def restore (vars : Variables) (saved : String × Option Value) : Variables :=
  match saved.2 with
  | some v => vars.insert saved.1 v
  | none => vars.erase saved.1

/-- Gives names back their earlier bindings, from left to right. -/
def restoreAll (saved : List (String × Option Value)) (vars : Variables) : Variables :=
  saved.foldl restore vars

end Variables

end HostScript
