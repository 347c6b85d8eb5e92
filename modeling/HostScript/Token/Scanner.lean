import Std.Data.ExtTreeMap
import HostScript.Trie
import HostScript.Token.Basic

/-!
# What a scan knows

Whether a name is a variable, a reassignment or a call depends on the declarations to its left, which
the state of a scan holds.
-/
namespace HostScript

/-- `scope` is the function whose parameters are visible, `enclosing` the same for the regions around it,
innermost first, and `pending` the one for the region that the next opening brace begins, if a header
announced it. The tokens are kept newest first. -/
structure Scanner where
  variableNames : Trie := {}
  functionNames : Trie := {}
  parameters : Std.ExtTreeMap String (List String) := ∅
  scope : Option String := none
  enclosing : List (Option String) := []
  pending : Option (Option String) := none
  tokens : List Token := []

namespace Scanner

/-- The start of a scan in which the listed names can be called. -/
def start (builtins : List String) : Scanner :=
  { functionNames := Trie.ofList (builtins.map String.toList) }

def lastKind? (s : Scanner) : Option Kind := s.tokens.head?.map Token.kind

def afterOperand (s : Scanner) : Bool :=
  match s.lastKind? with
  | some kind => kind.endsOperand
  | none => false

def activeParameters (s : Scanner) : List String :=
  match s.scope with
  | some function => s.parameters.getD function []
  | none => []

/-- The longer of two texts, the first of equally long ones. -/
def longer (a b : Option (List Char)) : Option (List Char) :=
  match a, b with
  | some v, some w => if v.length < w.length then some w else some v
  | some v, none => some v
  | none, w => w

/-- The longest declared variable or active parameter that the input begins with. -/
def declared? (s : Scanner) (input : List Char) : Option (List Char) :=
  let parameters := (s.activeParameters.map String.toList).filter fun p => p.isPrefixOf input
  longer (s.variableNames.longestMatch input) (parameters.foldl (fun best p => longer best (some p)) none)

/-- Whether the tokens so far end in a function header whose parameter list is still open. -/
def inParameterList (s : Scanner) : Bool :=
  match s.tokens.dropWhile fun t => t.kind == .parameter || t.kind == .comma with
  | paren :: header :: _ => paren.kind == .leftParen && header.kind == .function
  | _ => false

/-- The name that an import directive declares: the text before its first `-`. -/
def importedName (directive : List Char) : List Char := directive.takeWhile (· != '-')

def learn (s : Scanner) (t : Token) : Scanner :=
  match t.kind with
  | .function =>
    { s with
      functionNames := s.functionNames.insert t.text.toList
      parameters := s.parameters.insert t.text (s.parameters.getD t.text [])
      pending := some (some t.text) }
  | .parameter =>
    match s.tokens.find? fun u => u.kind == .function with
    | some owner =>
      { s with
        parameters := s.parameters.insert owner.text (s.parameters.getD owner.text [] ++ [t.text]) }
    | none => s
  | .forWord | .whileWord => { s with pending := some s.scope }
  | .letName => { s with variableNames := s.variableNames.insert t.text.toList }
  | .importName => { s with variableNames := s.variableNames.insert (importedName t.text.toList) }
  | .leftScope =>
    { s with
      scope := s.pending.getD s.scope
      enclosing := s.scope :: s.enclosing
      pending := none }
  | .rightScope =>
    match s.enclosing with
    | outer :: rest => { s with scope := outer, enclosing := rest }
    | [] => s
  | _ => s

def commit (s : Scanner) (t : Token) : Scanner := { s.learn t with tokens := t :: s.tokens }

end Scanner

end HostScript
