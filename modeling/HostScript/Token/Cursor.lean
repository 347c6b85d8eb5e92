import HostScript.Text.Basic

/-!
# Cursors

A position in a text, counted in UTF-8 bytes, with the characters from there on. Moving a cursor
yields a new one, so a speculative read leaves the old position as it was.
-/
namespace HostScript

open Text

structure Cursor where
  position : Nat
  rest : List Char
deriving Repr, DecidableEq

namespace Cursor

def start (text : List Char) : Cursor := ⟨0, text⟩

def atEnd (c : Cursor) : Bool := c.rest.isEmpty

def peek? (c : Cursor) : Option Char := c.rest.head?

def peekSecond? (c : Cursor) : Option Char := c.rest.tail.head?

/-- Moves past a number of characters. -/
def skip (c : Cursor) (count : Nat) : Cursor :=
  ⟨c.position + byteLength (c.rest.take count), c.rest.drop count⟩

def bump (c : Cursor) : Cursor := c.skip 1

/-- Number of leading characters that fit into `bytes` bytes. -/
def fitting : Nat → List Char → Nat
  | _, [] => 0
  | bytes, c :: cs => if c.utf8Size ≤ bytes then fitting (bytes - c.utf8Size) cs + 1 else 0

/-- Reads the characters of the next `bytes` bytes, or all that are left if they are fewer. -/
def advance (c : Cursor) (bytes : Nat) : List Char × Cursor :=
  let count := fitting bytes c.rest
  (c.rest.take count, c.skip count)

/-- Reads `word` if the unread text begins with it. -/
def eat? (c : Cursor) (word : List Char) : Option Cursor :=
  if word.isPrefixOf c.rest then some (c.skip word.length) else none

def takeWhile (c : Cursor) (p : Char → Bool) : List Char × Cursor :=
  let taken := c.rest.takeWhile p
  (taken, c.skip taken.length)

variable {c d : Cursor} {word : List Char}

@[simp] theorem rest_start (text : List Char) : (start text).rest = text := rfl

@[simp] theorem rest_skip (c : Cursor) (count : Nat) : (c.skip count).rest = c.rest.drop count := rfl

/-- A prefix of the unread text that is passed and what is unread behind it make up the unread text. -/
theorem append_rest_skip (h : word <+: c.rest) : word ++ (c.skip word.length).rest = c.rest :=
  List.prefix_iff_eq_append.mp h

theorem fitting_append (word rest : List Char) : fitting (byteLength word) (word ++ rest) = word.length := by
  induction word with
  | nil =>
    cases rest with
    | nil => rfl
    | cons c cs =>
      have hsize : ¬c.utf8Size ≤ 0 := Nat.not_le_of_lt c.utf8Size_pos
      exact if_neg hsize
  | cons c word ih =>
    rw [byteLength, List.cons_append, fitting, if_pos (Nat.le_add_right _ _), Nat.add_sub_cancel_left, ih,
      List.length_cons]

/-- Advancing by the bytes of a prefix of the unread text reads exactly that prefix. -/
theorem advance_of_prefix (h : word <+: c.rest) :
    c.advance (byteLength word) = (word, c.skip word.length) := by
  obtain ⟨rest, hrest⟩ := h
  have hfitting : fitting (byteLength word) c.rest = word.length := by rw [← hrest, fitting_append]
  have htaken : c.rest.take word.length = word := by rw [← hrest, List.take_left]
  rw [advance, hfitting, htaken]

theorem rest_of_eat? (h : c.eat? word = some d) : c.rest = word ++ d.rest := by
  unfold eat? at h
  split at h
  · cases h
    exact (append_rest_skip (List.isPrefixOf_iff_prefix.mp ‹_›)).symm
  · cases h

theorem eat?_eq_none (h : ¬word <+: c.rest) : c.eat? word = none := by
  rw [eat?, if_neg]
  rwa [List.isPrefixOf_iff_prefix]

end Cursor

end HostScript
