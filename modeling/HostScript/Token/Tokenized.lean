import HostScript.Token.Cursor
import HostScript.Token.Matcher

/-! # Tokenized scripts -/
namespace HostScript

open Text

/-- A token with the category that read it, or a skipped character with its offset in bytes. -/
inductive Piece where
  | token (matcher : Matcher) (lexeme : Lexeme)
  | skipped (position : Nat) (character : Char)
deriving Repr, DecidableEq

namespace Piece

def spelling : Piece → List Char
  | .token _ lexeme => lexeme.spelling
  | .skipped _ character => [character]

def token? : Piece → Option Token
  | .token _ lexeme => some lexeme.token
  | .skipped _ _ => none

end Piece

/-- Cuts the unread text into pieces. One unit of fuel is spent on each. -/
def Scanner.pieces : Nat → Scanner → Cursor → List Piece
  | 0, _, _ => []
  | fuel + 1, s, cursor =>
    if cursor.atEnd then []
    else
      match s.next? cursor.rest with
      | some (matcher, lexeme) =>
        let (_, behind) := cursor.advance (byteLength lexeme.spelling)
        .token matcher lexeme :: pieces fuel (s.commit lexeme.token) behind
      | none =>
        match cursor.peek? with
        | some c => .skipped cursor.position c :: pieces fuel s cursor.bump
        | none => []

structure Tokenized where
  pieces : List Piece
deriving Repr, DecidableEq

/-- Every piece has at least one character, so the number of characters bounds that of pieces. -/
def tokenize (builtins : List String) (source : String) : Tokenized :=
  let text := stripBlanks source.toList
  ⟨(Scanner.start builtins).pieces text.length (Cursor.start text)⟩

namespace Tokenized

def tokens (t : Tokenized) : List Token := t.pieces.filterMap Piece.token?

def textsOf (kind : Kind) (t : Tokenized) : List String :=
  (t.tokens.filter (·.kind == kind)).map Token.text

/-- The import directives, each as `name-type`. -/
def imports (t : Tokenized) : List String := t.textsOf .importName

def usings (t : Tokenized) : List String := t.textsOf .usingName

end Tokenized

end HostScript
