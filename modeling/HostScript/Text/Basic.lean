import HostScript.Text.Letters
import HostScript.Text.Numerals

/-!
# Characters and source text

Text is handled as a list of characters. Every ASCII character is classified without looking at the
tables of Unicode ranges.
-/
namespace HostScript.Text

def inRanges (ranges : List (Nat × Nat)) (n : Nat) : Bool :=
  ranges.any fun r => r.1 ≤ n && n ≤ r.2

/-- The code points with the Unicode property White_Space. -/
def blankRanges : List (Nat × Nat) :=
  [(0x9, 0xD), (0x20, 0x20), (0x85, 0x85), (0xA0, 0xA0), (0x1680, 0x1680), (0x2000, 0x200A),
   (0x2028, 0x2029), (0x202F, 0x202F), (0x205F, 0x205F), (0x3000, 0x3000)]

/-- White space: the separators that a script may contain anywhere outside a quoted literal. -/
def isBlank (c : Char) : Bool := inRanges blankRanges c.toNat

def isLetter (c : Char) : Bool :=
  if c.toNat < 0x80 then c.isAlpha else inRanges letterRanges c.toNat

/-- Decimal digits, letter numbers and other numerals of every script. -/
def isNumeral (c : Char) : Bool :=
  if c.toNat < 0x80 then c.isDigit else inRanges numeralRanges c.toNat

def isNameChar (c : Char) : Bool := isLetter c || isNumeral c || c == '_'

def isNumberChar (c : Char) : Bool := c.isDigit || c == '.'

/-- Number of UTF-8 bytes that a list of characters takes. -/
def byteLength : List Char → Nat
  | [] => 0
  | c :: cs => c.utf8Size + byteLength cs

@[simp] theorem byteLength_append (cs ds : List Char) :
    byteLength (cs ++ ds) = byteLength cs + byteLength ds := by
  induction cs with
  | nil => simp [byteLength]
  | cons c cs ih => simp [byteLength, ih, Nat.add_assoc]

/-- Removes white space, where `quoted` says whether the text begins inside a quoted literal. -/
def stripFrom (quoted : Bool) : List Char → List Char
  | [] => []
  | c :: cs =>
    if c = '"' then c :: stripFrom (!quoted) cs
    else if quoted || !isBlank c then c :: stripFrom quoted cs
    else stripFrom quoted cs

/-- Removes white space outside double-quoted literals. -/
def stripBlanks (cs : List Char) : List Char := stripFrom false cs

def trimBlanks (cs : List Char) : List Char :=
  ((cs.dropWhile isBlank).reverse.dropWhile isBlank).reverse

/-- Splits text at the first occurrence of `c`, which belongs to neither part. -/
def splitOnce (c : Char) (cs : List Char) : Option (List Char × List Char) :=
  match cs.dropWhile (· != c) with
  | [] => none
  | _ :: after => some (cs.takeWhile (· != c), after)

/-- Cuts text into lines, where `line` holds what was read of the current one, in reverse. A carriage
return right before a line feed belongs to the line end. -/
def linesFrom (line : List Char) : List Char → List (List Char)
  | [] => if line.isEmpty then [] else [line.reverse]
  | c :: cs =>
    if c = '\n' then
      (if line.head? = some '\r' then line.tail else line).reverse :: linesFrom [] cs
    else linesFrom (c :: line) cs

def lines (cs : List Char) : List (List Char) := linesFrom [] cs

def joinWith (separator : String) : List String → String
  | [] => ""
  | [s] => s
  | s :: rest => s ++ separator ++ joinWith separator rest

end HostScript.Text
