import HostScript.Text.Basic
import HostScript.Token.Basic

/-!
# Symbols

The lexical units that are recognised without knowing which names are declared. The longest one wins,
which decides between `-`, `--`, `-=` and a negative literal.
-/
namespace HostScript.Symbol

open Text

/-- Symbols of one character that no longer symbol begins with. -/
def single? : Char → Option Kind
  | ';' => some .semicolon
  | '\x7b' => some .leftScope
  | '\x7d' => some .rightScope
  | '(' => some .leftParen
  | ')' => some .rightParen
  | '[' => some .leftBracket
  | ']' => some .rightBracket
  | ',' => some .comma
  | '*' => some .star
  | '/' => some .slash
  | '^' => some .caret
  | '%' => some .percent
  | '<' => some .less
  | '>' => some .greater
  | '?' => some .question
  | ':' => some .colon
  | '=' => some .equals
  | _ => none

def quotedText (cs : List Char) : List Char := cs.takeWhile (· != '"')

/-- The spelling of a quoted literal. The closing quote is missing only at the end of the input. -/
def quotedSpelling (cs : List Char) : List Char :=
  '"' :: quotedText cs ++ (cs.dropWhile (· != '"')).take 1

/-- The symbol that begins with a minus, given what follows it. -/
def minus (cs : List Char) : Kind × List Char :=
  match cs with
  | '-' :: _ => (.decrement, ['-', '-'])
  | '=' :: _ => (.minusAssign, ['-', '='])
  | _ =>
    let digits := cs.takeWhile isNumberChar
    if digits.isEmpty then (.minus, ['-']) else (.number, '-' :: digits)

def plus (cs : List Char) : Kind × List Char :=
  match cs with
  | '+' :: _ => (.increment, ['+', '+'])
  | '=' :: _ => (.plusAssign, ['+', '='])
  | _ => (.plus, ['+'])

/-- The first symbol and its spelling. Whether a number is well formed is decided later. -/
def first? : List Char → Option (Kind × List Char)
  | [] => none
  | c :: cs =>
    if isNumberChar c then some (.number, c :: cs.takeWhile isNumberChar)
    else if c = '"' then some (.text, quotedSpelling cs)
    else if c = '-' then some (minus cs)
    else if c = '+' then some (plus cs)
    else (single? c).map fun kind => (kind, [c])

/-- The kind of the token that a symbol becomes, unless that depends on its surroundings. -/
def punctuation? : Kind → Option Kind
  | .number | .text | .equals => none
  | kind => some kind

end HostScript.Symbol
