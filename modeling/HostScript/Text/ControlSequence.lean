/-!
# Terminal control sequences

Text for a terminal mixes what is shown with control sequences. An escape character opens a sequence,
and what follows says of which kind it is and where it ends.
-/
namespace HostScript.Text

/-- Where a reader of terminal text stands: in what is shown, or within a sequence of some kind. -/
inductive ControlState where
  | shown
  | escape
  /-- After an escape character and further marks, before the character that ends the sequence. -/
  | escapeMarks
  /-- In a sequence of parameters, which ends at the first character from `@` to `~`. -/
  | parameters
  /-- In a command to the terminal, which ends at a bell. -/
  | command
  | device
  | deviceParameters
  | deviceMarks
  /-- In text that is not for display, up to its terminator. -/
  | hidden
deriving Repr, DecidableEq

/-- Control characters that lay out text: tab, line feed, form feed and carriage return. -/
def isLayout (c : Char) : Bool := c == '\t' || c == '\n' || c == '\x0c' || c == '\r'

/-- The byte 0x9C, which ends hidden text also where it is a part of a longer character. -/
def holdsTerminator (c : Char) : Bool := (String.utf8EncodeChar c).contains 0x9C

namespace ControlState

/-- Whether a character is shown. Layout within a sequence is shown, unless it is the text of a command
or a device string. -/
def shows (s : ControlState) (c : Char) : Bool :=
  match s with
  | shown => (0x20 ≤ c.toNat && c.toNat != 0x7F) || isLayout c
  | escape => isLayout c
  | escapeMarks => isLayout c
  | parameters => isLayout c
  | _ => false

/-- The state after a character of a sequence that neither cancels it nor is shown. -/
def advance (s : ControlState) (c : Char) : ControlState :=
  let within (low high : Nat) : Bool := low ≤ c.toNat && c.toNat ≤ high
  match s with
  | shown => shown
  | escape =>
    if c == '[' then parameters
    else if c == ']' then command
    else if c == 'P' then device
    else if c == 'X' || c == '^' || c == '_' then hidden
    else if within 0x20 0x2F then escapeMarks
    else if within 0x30 0x7E then shown
    else escape
  | escapeMarks => if within 0x30 0x7E then shown else escapeMarks
  | parameters => if within 0x40 0x7E then shown else parameters
  | command => if c == '\x07' then shown else command
  | device =>
    if within 0x20 0x2F then deviceMarks
    else if within 0x30 0x3F then deviceParameters
    else if within 0x40 0x7E then hidden
    else device
  | deviceParameters =>
    if within 0x20 0x2F then deviceMarks
    else if within 0x3C 0x7E then hidden
    else deviceParameters
  | deviceMarks => if within 0x30 0x7E then hidden else deviceMarks
  | hidden => if holdsTerminator c then shown else hidden

/-- The state after a character. In every state the characters U+0018 and U+001A cancel the sequence, an
escape character opens a new one, and a character that is shown ends it. -/
def next (s : ControlState) (c : Char) : ControlState :=
  if c == '\x18' || c == '\x1a' then shown
  else if c == '\x1b' then escape
  else if s.shows c then shown
  else s.advance c

def visible (s : ControlState) : List Char → List Char
  | [] => []
  | c :: cs => if s.shows c then c :: visible (s.next c) cs else visible (s.next c) cs

def after (s : ControlState) (cs : List Char) : ControlState := cs.foldl next s

end ControlState

/-- A highlighted stretch stands between sequences that end every one that is still open. -/
inductive Span where
  | plain (text : String)
  | highlighted (text : String)
deriving Repr, DecidableEq

/-- What is shown of spans, without their styles, where the first one begins in a given state. -/
def visibleSpans (s : ControlState) : List Span → List Char
  | [] => []
  | .plain text :: spans => s.visible text.toList ++ visibleSpans (s.after text.toList) spans
  | .highlighted text :: spans =>
    ControlState.visible .shown text.toList ++ visibleSpans .shown spans

end HostScript.Text
