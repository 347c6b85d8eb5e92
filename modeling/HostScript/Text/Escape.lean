import HostScript.Text.Basic
import HostScript.Text.Shapeless

/-!
# Escaped text

Quoted text spells out every character that has no shape of its own. Guarded text spells out only the
control characters that a terminal would obey.
-/
namespace HostScript.Text

def codePointEscape (c : Char) : List Char :=
  "\\u\x7b".toList ++ Nat.toDigits 16 c.toNat ++ ['\x7d']

/-- The control characters: U+0000 to U+001F and U+007F to U+009F. -/
def isControl (c : Char) : Bool :=
  c.toNat < 0x20 || (0x7F ≤ c.toNat && c.toNat < 0xA0)

/-- Characters that a reader cannot tell apart from their surroundings. -/
def isShapeless (c : Char) : Bool :=
  0x80 ≤ c.toNat && (inRanges extendingRanges c.toNat || inRanges fillerRanges c.toNat)

def quotedChar (c : Char) : List Char :=
  match c with
  | '"' => ['\\', '"']
  | '\\' => ['\\', '\\']
  | '\n' => ['\\', 'n']
  | '\r' => ['\\', 'r']
  | '\t' => ['\\', 't']
  | '\x00' => ['\\', '0']
  | _ => if isControl c || isShapeless c then codePointEscape c else [c]

/-- Text between double quotes, with control characters and shapeless characters spelled out. -/
def quoted (cs : List Char) : List Char :=
  '"' :: cs.flatMap quotedChar ++ ['"']

/-- Line ends and tabs stay as they are. -/
def guardedChar (c : Char) : List Char :=
  match c with
  | '\x07' => "\\x07".toList
  | '\x08' => "\\x08".toList
  | '\x0c' => "\\x0c".toList
  | '\x1b' => "\\x1b".toList
  | '\x7f' => "\\x7f".toList
  | _ => if 0x80 ≤ c.toNat && c.toNat < 0xA0 then codePointEscape c else [c]

def guarded (cs : List Char) : List Char := cs.flatMap guardedChar

end HostScript.Text
