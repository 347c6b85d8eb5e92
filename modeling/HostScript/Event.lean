import HostScript.Text.Escape
import HostScript.Token.Tokenized

/-! # Events -/
namespace HostScript

open Text

/-- How much detail an event carries. -/
inductive Level where
  | warn
  | info
  | debug
  | trace
deriving Repr, DecidableEq

namespace Level

/-- The levels are ordered from the most urgent to the most detailed one. -/
def rank : Level → Nat
  | warn => 0
  | info => 1
  | debug => 2
  | trace => 3

def name : Level → String
  | warn => "WARN"
  | info => "INFO"
  | debug => "DEBUG"
  | trace => "TRACE"

end Level

inductive Event where
  | skipped (position : Nat) (character : Char)
  | tokenRead (matcher : Matcher) (token : Token)
  /-- A token of a finished scan was listed on request. -/
  | tokenListed (token : Token)
  /-- A statement of a compiled script was listed on request. -/
  | expressionListed
  | cacheHit
  | cacheMiss
  | invalidated (removed : Bool)
  | compiled (tokens expressions functions : Nat)
  | queryMissing (name : String)
  /-- A script printed values for its author. -/
  | printed (values : List String)
deriving Repr, DecidableEq

/-- A named detail of an event. Text supplied by a script is shown in quotes. -/
structure Field where
  name : String
  value : String
  quoted : Bool := false
deriving Repr, DecidableEq

def Field.render (f : Field) : String :=
  f.name ++ "=" ++ (if f.quoted then String.ofList (Text.quoted f.value.toList) else f.value)

namespace Event

def skippedMessage (position : Nat) (character : Char) : String :=
  "No token matches '" ++ character.toString ++ "' at offset " ++ toString position
    ++ "; skipping it."

def level : Event → Level
  | skipped _ _ => .warn
  | queryMissing _ => .warn
  | printed _ => .info
  | cacheHit => .debug
  | cacheMiss => .debug
  | invalidated _ => .debug
  | compiled _ _ _ => .debug
  | tokenRead _ _ => .trace
  | tokenListed _ => .trace
  | expressionListed => .trace

def message : Event → String
  | skipped _ _ => "lexer recovered"
  | queryMissing _ => "query variable not supplied, using 0"
  | printed values => "DEBUG " ++ joinWith ", " values
  | cacheHit => "program cache hit"
  | cacheMiss => "program cache miss"
  | invalidated _ => "invalidated cached program"
  | compiled _ _ _ => "compiled program"
  | tokenRead _ _ => "token"
  | tokenListed _ => "token"
  | expressionListed => "expression"

def fields : Event → List Field
  | skipped position character => [⟨"error", skippedMessage position character, false⟩]
  | queryMissing name => [⟨"query", name, true⟩]
  | printed _ => []
  | cacheHit => []
  | cacheMiss => []
  | invalidated removed => [⟨"removed", if removed then "true" else "false", false⟩]
  | compiled tokens expressions functions =>
    [⟨"tokens", toString tokens, false⟩, ⟨"expressions", toString expressions, false⟩,
     ⟨"functions", toString functions, false⟩]
  | tokenRead matcher token => [⟨"matcher", matcher.name, false⟩, ⟨"token", token.render, false⟩]
  | tokenListed token => [⟨"token", token.render, false⟩]
  | expressionListed => []

def target : Event → String
  | skipped _ _ => "ascent::interpreter::lexer::core"
  | tokenRead _ _ => "ascent::interpreter::lexer::core"
  | queryMissing _ => "ascent::interpreter::evaluator::statement"
  | printed _ => "ascent::debug"
  | _ => "ascent::runtime"

/-- The log line of an event, with the level right-aligned to five places. -/
def line (e : Event) : String :=
  let level := e.level.name
  String.ofList (List.replicate (5 - level.length) ' ') ++ level ++ " " ++ e.target ++ ": "
    ++ String.ofList (guarded e.message.toList)
    ++ String.join (e.fields.map fun f => " " ++ Field.render f)

end Event

def Piece.event : Piece → Event
  | .token matcher lexeme => .tokenRead matcher lexeme.token
  | .skipped position character => .skipped position character

def Tokenized.events (t : Tokenized) : List Event := t.pieces.map Piece.event

end HostScript
