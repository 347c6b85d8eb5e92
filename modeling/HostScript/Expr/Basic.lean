import Std.Data.ExtTreeMap

/-!
# Expressions

Statements included, every construct of the script language is an expression: a script is a list of
them, and evaluating one yields a value or nothing.
-/
namespace HostScript

inductive Operator where
  | add
  | sub
  | mul
  | div
  | pow
  | mod
  | less
  | greater
deriving Repr, DecidableEq

namespace Operator

def all : List Operator := [add, sub, mul, div, pow, mod, less, greater]

def symbol : Operator → String
  | add => "+"
  | sub => "-"
  | mul => "*"
  | div => "/"
  | pow => "^"
  | mod => "%"
  | less => "<"
  | greater => ">"

/-- Binding strength; a larger one binds tighter. -/
def precedence : Operator → Nat
  | add | sub => 2
  | mul | div | mod => 3
  | less | greater => 6
  | pow => 9

end Operator

inductive Literal where
  | number (value : Float)
  | text (value : String)
  | boolean (value : Bool)
deriving Repr, DecidableEq

inductive Expr where
  | literal (value : Literal)
  /-- A value that the host supplies under a name, `q.name`. -/
  | query (name : String)
  | var (name : String)
  | binary (op : Operator) (left right : Expr)
  | ternary (condition yes no : Expr)
  | call (name : String) (arguments : List Expr)
  /-- The definition of a function, which attaches the body to the table entry of `name`. -/
  | define (name : String) (body : List Expr)
  | forLoop (init condition step : Expr) (body : List Expr)
  | whileLoop (condition : Expr) (body : List Expr)
  | block (body : List Expr)
  | letBinding (name : String) (value : Expr)
  | assign (name : String) (value : Expr)
  | compound (name : String) (op : Operator) (value : Expr)
  | returns (value : Expr)
  | namespaceName (name : String)
  | usingName (name : String)
  /-- `import name-type` -/
  | importName (name type : String)
  | access (target : Expr) (member : String)
  | write (target : Expr) (member : String) (value : Expr)
deriving Repr, Inhabited

namespace Expr

mutual

/-- Whether an expression reads no query and calls no function anywhere. -/
def isStatic : Expr → Bool
  | .literal _ | .var _ | .namespaceName _ | .usingName _ | .importName _ _ => true
  | .query _ | .call _ _ => false
  | .binary _ left right => left.isStatic && right.isStatic
  | .ternary condition yes no => condition.isStatic && yes.isStatic && no.isStatic
  | .define _ body => allStatic body
  | .forLoop init condition step body =>
    init.isStatic && condition.isStatic && step.isStatic && allStatic body
  | .whileLoop condition body => condition.isStatic && allStatic body
  | .block body => allStatic body
  | .letBinding _ value | .assign _ value | .compound _ _ value | .returns value => value.isStatic
  | .access target _ => target.isStatic
  | .write target _ value => target.isStatic && value.isStatic

def allStatic : List Expr → Bool
  | [] => true
  | e :: es => e.isStatic && allStatic es

end

end Expr

/-- A function of a script, whose body is attached when the definition is evaluated. -/
structure FunctionEntry where
  params : List String := []
  body : Option (List Expr) := none
deriving Repr, Inhabited

abbrev FunctionTable := Std.ExtTreeMap String FunctionEntry

end HostScript
