/-! # Errors -/
namespace HostScript

/-- A construct of the grammar that a parse error can refer to. -/
inductive Construct where
  | body
  | functionDefinition
  | forLoop
  | whileLoop
  | parenthesised
  | bracketed
  | functionCall
  | expression
deriving Repr, DecidableEq

def Construct.name : Construct → String
  | body => "body"
  | functionDefinition => "function definition"
  | forLoop => "for loop"
  | whileLoop => "while loop"
  | parenthesised => "parenthesised expression"
  | bracketed => "bracketed expression"
  | functionCall => "function call"
  | expression => "expression"

inductive ParseError where
  | missingDelimiter (expected : Char) (construct : Construct)
  | missingTernaryColon
  | malformedNumber (literal : String)
  | unexpectedToken (text : String)
  | unexpectedEnd (construct : Construct)
  | bodyTooLong (limit : Nat)
  | duplicateFunction (name : String)
deriving Repr, DecidableEq

def ParseError.message : ParseError → String
  | missingDelimiter expected construct =>
    "Format error: expected '" ++ expected.toString ++ "' in " ++ construct.name ++ "."
  | missingTernaryColon => "Format error: expected ':' in ternary expression."
  | malformedNumber literal => "Format error: '" ++ literal ++ "' is not a valid number."
  | unexpectedToken text => "Format error: unexpected token " ++ text ++ "."
  | unexpectedEnd construct => "Format error: statement ended inside " ++ construct.name ++ "."
  | bodyTooLong limit =>
    "Format error: scope body exceeds " ++ toString limit
      ++ " items or is missing its closing '\x7d'."
  | duplicateFunction name =>
    "Format error: function '" ++ name ++ "' is defined more than once."

inductive ValueKind where
  | number
  | text
  | boolean
  | object
deriving Repr, DecidableEq

def ValueKind.name : ValueKind → String
  | number => "number"
  | text => "text"
  | boolean => "boolean"
  | object => "object"

/-- What a name was looked up as. -/
inductive ReferenceKind where
  | function
  | functionBody
  | importValue
  | member
  | variableName
deriving Repr, DecidableEq

def ReferenceKind.name : ReferenceKind → String
  | function => "function"
  | functionBody => "function body"
  | importValue => "import"
  | member => "member"
  | variableName => "variable"

/-- A place of an expression that needs a value. -/
inductive Operand where
  | left
  | right
  | ternaryCondition
  | argument
  | memberAccess
  | memberWrite
  | assignment
  | compoundAssignment
deriving Repr, DecidableEq

def Operand.name : Operand → String
  | left => "left operand"
  | right => "right operand"
  | ternaryCondition => "ternary condition"
  | argument => "function argument"
  | memberAccess => "member access"
  | memberWrite => "member write"
  | assignment => "assignment"
  | compoundAssignment => "compound assignment"

inductive RuntimeError where
  | operandMismatch (symbol : String) (left right : ValueKind)
  | conditionMismatch (shown : String)
  | undefinedReference (kind : ReferenceKind) (name : String)
  | cast (expected found : ValueKind)
  | missingValue (place : Operand)
  | argumentCount (name : String) (expected found : Nat)
  | host (details : String)
deriving Repr, DecidableEq

def RuntimeError.message : RuntimeError → String
  | operandMismatch symbol left right =>
    "Type mismatch: cannot apply '" ++ symbol ++ "' to " ++ left.name ++ " and " ++ right.name ++ "."
  | conditionMismatch shown =>
    "Type mismatch: ternary condition must be a boolean, 0 or 1, found " ++ shown ++ "."
  | undefinedReference kind name =>
    "Undefined reference: " ++ kind.name ++ " '" ++ name ++ "' does not exist."
  | cast expected found =>
    "Cast error: cannot read a " ++ found.name ++ " value as " ++ expected.name ++ "."
  | missingValue place => "Missing value in " ++ place.name ++ "."
  | argumentCount name expected found =>
    "Function '" ++ name ++ "' expects " ++ toString expected ++ " arguments but received "
      ++ toString found ++ "."
  | host details => "Host error: " ++ details ++ "."

/-- Why a script gives no result. The last case belongs to scripts that do not finish. -/
inductive Failure where
  | parse (error : ParseError)
  | runtime (error : RuntimeError)
  | outOfFuel
deriving Repr, DecidableEq

def Failure.message : Failure → String
  | parse error => error.message
  | runtime error => error.message
  | outOfFuel => "Evaluation did not finish."

end HostScript
