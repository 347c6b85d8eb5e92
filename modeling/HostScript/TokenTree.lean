import HostScript.Token.Basic

/-!
# Statement trees

The flat list of tokens is grouped into statements and brace regions. A semicolon ends a statement
except inside parentheses. The header of a function or loop is the first child of its region, and the
closing brace is kept as a statement of its own, so that a reader can find where a body ends.
-/
namespace HostScript

/-- A statement without its semicolon, or a brace region in source order. -/
inductive TokenTree where
  | statement (tokens : List Token)
  | scope (children : List TokenTree)
deriving Repr, Inhabited

/-- The closing brace that ends a body, if it is all that a statement holds. -/
def closing? : List Token → Option Token
  | [t] => if t.kind = .rightScope then some t else none
  | _ => none

def isClosing (statement : List Token) : Bool := (closing? statement).isSome

namespace TokenTree

mutual

/-- The statements of a tree in depth-first order. -/
def statements : TokenTree → List (List Token)
  | .statement tokens => [tokens]
  | .scope children => statementsAll children

def statementsAll : List TokenTree → List (List Token)
  | [] => []
  | tree :: rest => tree.statements ++ statementsAll rest

end

def tokens (tree : TokenTree) : List Token := tree.statements.flatten

/-- Number of lone closing braces in a tree, at any depth. -/
def closings (tree : TokenTree) : Nat := tree.statements.countP isClosing

end TokenTree

/-- The statement being collected, the region being filled, the regions around it from the inside out,
the depth of parentheses, and whether a header awaits its opening brace. -/
structure Grouping where
  buffer : List Token := []
  current : List TokenTree := []
  enclosing : List (List TokenTree) := []
  depth : Nat := 0
  headerOpen : Bool := false

namespace Grouping

def add (g : Grouping) (tree : TokenTree) : Grouping := { g with current := g.current ++ [tree] }

/-- Ends the statement being collected, if it has a token. -/
def flush (g : Grouping) : Grouping :=
  if g.buffer.isEmpty then g else { g.add (.statement g.buffer) with buffer := [] }

def begin (g : Grouping) (children : List TokenTree) : Grouping :=
  { g with current := children, enclosing := g.current :: g.enclosing }

/-- Ends the current region. The outermost one stays open. -/
def close (g : Grouping) : Grouping :=
  match g.enclosing with
  | [] => g
  | outer :: rest => { g with current := outer ++ [.scope g.current], enclosing := rest }

def collect (g : Grouping) (t : Token) : Grouping := { g with buffer := g.buffer ++ [t] }

def push (g : Grouping) (t : Token) : Grouping :=
  if t.kind.opensScope then { (g.flush.begin []).collect t with headerOpen := true }
  else match t.kind with
    | .leftScope =>
      if g.headerOpen then { (g.collect t).flush with headerOpen := false }
      else g.flush.begin [.statement [t]]
    | .rightScope => (g.flush.add (.statement [t])).close
    | .leftParen => { g.collect t with depth := g.depth + 1 }
    | .rightParen => { g.collect t with depth := g.depth - 1 }
    | .semicolon => if g.depth = 0 then g.flush else g.collect t
    | _ => g.collect t

/-- Closes the regions around `children`, from the inside out. -/
def closeAll (children : List TokenTree) : List (List TokenTree) → TokenTree
  | [] => .scope children
  | outer :: rest => closeAll (outer ++ [.scope children]) rest

/-- Ends the last statement and every open region. -/
def finish (g : Grouping) : TokenTree := closeAll g.flush.current g.flush.enclosing

end Grouping

def group (tokens : List Token) : TokenTree := (tokens.foldl Grouping.push {}).finish

end HostScript
