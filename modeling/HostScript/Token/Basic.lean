/-!
# Tokens

For kinds that declare or refer to a name the text of a token is that name, not the characters around
it: the text of `let x =` is `x`.
-/
namespace HostScript

inductive Kind where
  | number
  | text
  | trueWord
  | falseWord
  | query
  | plus
  | minus
  | star
  | slash
  | caret
  | percent
  | less
  | greater
  | question
  | colon
  | increment
  | decrement
  | plusAssign
  | minusAssign
  | equals
  | returnWord
  | forWord
  | whileWord
  | function
  | parameter
  | letName
  | namespaceName
  | usingName
  | importName
  | variableName
  | assign
  | call
  | access
  | semicolon
  | leftScope
  | rightScope
  | leftParen
  | rightParen
  | leftBracket
  | rightBracket
  | comma
deriving Repr, DecidableEq, Inhabited

namespace Kind

/-- Every kind: literals, operators, headers and declarations, references, structure. -/
def all : List Kind :=
  [number, text, trueWord, falseWord, query, plus, minus, star, slash, caret, percent, less, greater,
   question, colon, increment, decrement, plusAssign, minusAssign, equals, returnWord, forWord,
   whileWord, function, parameter, letName, namespaceName, usingName, importName, variableName,
   assign, call, access, semicolon, leftScope, rightScope, leftParen, rightParen, leftBracket,
   rightBracket, comma]

def name : Kind → String
  | number => "Number"
  | text => "Text"
  | trueWord => "True"
  | falseWord => "False"
  | query => "Query"
  | plus => "Plus"
  | minus => "Minus"
  | star => "Star"
  | slash => "Slash"
  | caret => "Caret"
  | percent => "Percent"
  | less => "Less"
  | greater => "Greater"
  | question => "Question"
  | colon => "Colon"
  | increment => "Increment"
  | decrement => "Decrement"
  | plusAssign => "PlusAssign"
  | minusAssign => "MinusAssign"
  | equals => "Equals"
  | returnWord => "Return"
  | forWord => "For"
  | whileWord => "While"
  | function => "Function"
  | parameter => "Parameter"
  | letName => "Let"
  | namespaceName => "Namespace"
  | usingName => "Using"
  | importName => "Import"
  | variableName => "Variable"
  | assign => "Assign"
  | call => "Call"
  | access => "Access"
  | semicolon => "Semicolon"
  | leftScope => "LeftScope"
  | rightScope => "RightScope"
  | leftParen => "LeftParen"
  | rightParen => "RightParen"
  | leftBracket => "LeftBracket"
  | rightBracket => "RightBracket"
  | comma => "Comma"

/-- A minus after a token of such a kind subtracts and does not begin a literal. -/
def endsOperand : Kind → Bool
  | number | text | trueWord | falseWord | query | variableName | access | rightParen
  | rightBracket => true
  | _ => false

/-- Whether the token begins a header whose body stands in braces. -/
def opensScope : Kind → Bool
  | function | forWord | whileWord => true
  | _ => false

end Kind

structure Token where
  kind : Kind
  text : String
deriving Repr, DecidableEq, Inhabited

def Token.render (t : Token) : String := t.kind.name ++ "(" ++ t.text ++ ")"

end HostScript
