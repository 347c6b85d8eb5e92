import HostScript.Token.Cursor
import HostScript.Token.Scanner
import HostScript.Token.Symbol

/-!
# Matchers

The categories of tokens, each with the rule by which it reads one token off the front of the input.
At every point of a script the first category that applies wins.
-/
namespace HostScript

open Text

inductive Matcher where
  | keyword
  | subtraction
  | punctuation
  | query
  | access
  | functionHeader
  | parameter
  | call
  | letBinding
  | assign
  | variableName
  | number
  | text
  | namespaceDirective
  | usingDirective
  | importDirective
  | memberWrite
deriving Repr, DecidableEq

/-- A token with the characters it was read from. -/
structure Lexeme where
  token : Token
  spelling : List Char
deriving Repr, DecidableEq

namespace Matcher

/-- The categories in order of priority. -/
def all : List Matcher :=
  [keyword, subtraction, punctuation, query, access, functionHeader, parameter, call, letBinding,
   assign, variableName, number, text, namespaceDirective, usingDirective, importDirective,
   memberWrite]

def name : Matcher → String
  | keyword => "Keyword"
  | subtraction => "Subtraction"
  | punctuation => "Punctuation"
  | query => "Query"
  | access => "Access"
  | functionHeader => "FunctionHeader"
  | parameter => "Parameter"
  | call => "Call"
  | letBinding => "Let"
  | assign => "Assign"
  | variableName => "Variable"
  | number => "Number"
  | text => "Text"
  | namespaceDirective => "Namespace"
  | usingDirective => "Using"
  | importDirective => "Import"
  | memberWrite => "MemberWrite"

def keywords : List (List Char × Kind) :=
  [("true".toList, .trueWord), ("false".toList, .falseWord), ("return".toList, .returnWord),
   ("for".toList, .forWord), ("while".toList, .whileWord)]

def keywordTrie : Trie := Trie.ofList (keywords.map Prod.fst)

/-- A token that is spelled by its text. -/
def plain (kind : Kind) (spelling : List Char) : Lexeme :=
  ⟨⟨kind, String.ofList spelling⟩, spelling⟩

/-- Whether a single `=` comes next, which does not begin `==`. -/
def atSingleEquals (c : Cursor) : Bool := c.peek? == some '=' && c.peekSecond? != some '='

/-- A word grown out of the keyword tree. -/
def scanKeyword (input : List Char) : Option Lexeme :=
  let word := keywordTrie.grow input
  if keywordTrie.contains word then
    (keywords.find? fun k => k.1 == word).map fun k => plain k.2 word
  else none

/-- A minus between an operand and a number, which may carry a sign of its own. -/
def scanSubtraction (s : Scanner) (input : List Char) : Option Lexeme :=
  match input with
  | '-' :: rest =>
    match Symbol.first? rest with
    | some (.number, _) => if s.afterOperand then some (plain .minus ['-']) else none
    | _ => none
  | _ => none

def scanSymbol (accepts : Kind → Bool) (input : List Char) : Option Lexeme :=
  match Symbol.first? input with
  | some (kind, spelling) => if accepts kind then some (plain kind spelling) else none
  | none => none

/-- The word `word` and a name after it. What follows the name belongs to the spelling as far as `tail`. -/
def scanNamed (kind : Kind) (word : List Char) (follows : Cursor → Bool) (tail : List Char)
    (input : List Char) : Option Lexeme :=
  match (Cursor.start input).eat? word with
  | none => none
  | some c =>
    let (name, behind) := c.takeWhile isNameChar
    if !name.isEmpty && follows behind then
      some ⟨⟨kind, String.ofList name⟩, word ++ name ++ tail⟩
    else none

/-- A dot and a member name, which begins with a letter or an underscore. -/
def scanAccess (input : List Char) : Option Lexeme :=
  let c := Cursor.start input
  if c.peek? == some '.' && c.peekSecond?.any (fun ch => isLetter ch || ch == '_') then
    let (name, _) := c.bump.takeWhile isNameChar
    some ⟨⟨.access, String.ofList name⟩, '.' :: name⟩
  else none

/-- A name inside an open parameter list, up to a comma or the closing parenthesis. -/
def scanParameter (s : Scanner) (input : List Char) : Option Lexeme :=
  if s.inParameterList then
    scanNamed .parameter [] (fun c => c.peek? == some ',' || c.peek? == some ')') [] input
  else none

/-- The longest known function name, before an opening parenthesis. -/
def scanCall (s : Scanner) (input : List Char) : Option Lexeme :=
  match s.functionNames.longestMatch input with
  | some name =>
    let (_, behind) := (Cursor.start input).advance (byteLength name)
    if behind.peek? == some '(' then some (plain .call name) else none
  | none => none

/-- The longest declared name, before a single `=`. -/
def scanAssign (s : Scanner) (input : List Char) : Option Lexeme :=
  match s.declared? input with
  | some name =>
    let (_, behind) := (Cursor.start input).advance (byteLength name)
    if atSingleEquals behind then
      some ⟨⟨.assign, String.ofList name⟩, name ++ ['=']⟩
    else none
  | none => none

/-- A quoted literal. Its text is what stands between the quotes. -/
def scanText (input : List Char) : Option Lexeme :=
  match input with
  | '"' :: rest =>
    some ⟨⟨.text, String.ofList (Symbol.quotedText rest)⟩, Symbol.quotedSpelling rest⟩
  | _ => none

/-- A directive word and everything up to a semicolon or a closing brace. -/
def scanDirective (kind : Kind) (word : List Char) (input : List Char) : Option Lexeme :=
  match (Cursor.start input).eat? word with
  | none => none
  | some c =>
    let (body, _) := c.takeWhile fun ch => ch != ';' && ch != '\x7d'
    if body.isEmpty then none else some ⟨⟨kind, String.ofList body⟩, word ++ body⟩

def scan (s : Scanner) (input : List Char) : Matcher → Option Lexeme
  | keyword => scanKeyword input
  | subtraction => scanSubtraction s input
  | punctuation => scanSymbol (fun kind => (Symbol.punctuation? kind).isSome) input
  | query =>
    if "query.".toList.isPrefixOf input then
      scanNamed .query "query.".toList (fun _ => true) [] input
    else scanNamed .query "q.".toList (fun _ => true) [] input
  | access => scanAccess input
  | functionHeader =>
    scanNamed .function "function".toList (fun c => c.peek? == some '(') [] input
  | parameter => scanParameter s input
  | call => scanCall s input
  | letBinding => scanNamed .letName "let".toList atSingleEquals ['='] input
  | assign => scanAssign s input
  | variableName => (s.declared? input).map (plain .variableName)
  | number => scanSymbol (· == .number) input
  | text => scanText input
  | namespaceDirective => scanDirective .namespaceName "namespace".toList input
  | usingDirective => scanDirective .usingName "using".toList input
  | importDirective => scanDirective .importName "import".toList input
  | memberWrite => scanSymbol (· == .equals) input

end Matcher

/-- The first category that applies to the input, with the token it reads. -/
def Scanner.next? (s : Scanner) (input : List Char) : Option (Matcher × Lexeme) :=
  Matcher.all.findSome? fun m => (m.scan s input).map fun lexeme => (m, lexeme)

end HostScript
