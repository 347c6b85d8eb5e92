import HostScript.Text.Basic

/-!
# Prefix trees

A set of words with prefix queries, by which a scan asks for the names declared so far.
-/
namespace HostScript

/-- The children of a node in order of first insertion. `terminal` marks the end of a stored word. -/
inductive Forest where
  | nil
  | node (key : Char) (terminal : Bool) (children : Forest) (siblings : Forest)
deriving Repr, DecidableEq

/-- A node apart from its key. `terminal` says whether a word ends here. -/
structure TrieNode where
  terminal : Bool := false
  children : Forest := .nil
deriving Repr, DecidableEq

structure Trie where
  root : TrieNode := {}
  words : Nat := 0
deriving Repr, DecidableEq

namespace Forest

def child? (key : Char) : Forest → Option TrieNode
  | .nil => none
  | .node k terminal children siblings =>
    if k = key then some ⟨terminal, children⟩ else siblings.child? key

/-- Changes the node under `key` by `grow`, starting from an empty one if there is none. -/
def upsert (key : Char) (grow : TrieNode → TrieNode) : Forest → Forest
  | .nil =>
    let grown := grow {}
    .node key grown.terminal grown.children .nil
  | .node k terminal children siblings =>
    if k = key then
      let grown := grow ⟨terminal, children⟩
      .node k grown.terminal grown.children siblings
    else .node k terminal children (siblings.upsert key grow)

end Forest

namespace TrieNode

/-- Makes a word end below, on a path that is grown as far as it is missing. -/
def insert : List Char → TrieNode → TrieNode
  | [], n => { n with terminal := true }
  | c :: cs, n => { n with children := n.children.upsert c (insert cs) }

/-- The node that a text leads to, if there is the path. -/
def find? : List Char → TrieNode → Option TrieNode
  | [], n => some n
  | c :: cs, n => (n.children.child? c).bind (find? cs)

/-- Whether a word ends where the text leads to. -/
def contains (n : TrieNode) (word : List Char) : Bool :=
  match n.find? word with
  | some node => node.terminal
  | none => false

/-- The longest nonempty word below that `text` begins with. -/
def longestMatch : List Char → TrieNode → Option (List Char)
  | [], _ => none
  | c :: cs, n =>
    match n.children.child? c with
    | none => none
    | some next =>
      match longestMatch cs next with
      | some word => some (c :: word)
      | none => if next.terminal then some [c] else none

end TrieNode

namespace Trie

def empty : Trie := {}

/-- Whether exactly this word was added. -/
def contains (t : Trie) (word : List Char) : Bool := t.root.contains word

/-- Adds a word, and counts it if it is new. Adding it again changes nothing. -/
def insert (word : List Char) (t : Trie) : Trie where
  root := t.root.insert word
  words := if t.contains word then t.words else t.words + 1

def ofList (words : List (List Char)) : Trie := words.foldl (fun t w => t.insert w) empty

def size (t : Trie) : Nat := t.words

def isEmpty (t : Trie) : Bool := t.words == 0

/-- Whether some word begins with the given text. Every word begins with the empty text. -/
def startsWith (t : Trie) (text : List Char) : Bool :=
  if text.isEmpty then !t.isEmpty else (t.root.find? text).isSome

/-- Whether the text can still grow into a word and is not yet one. -/
def partialContains (t : Trie) (text : List Char) : Bool := t.startsWith text && !t.contains text

/-- The longest nonempty word that `text` begins with. -/
def longestMatch (text : List Char) (t : Trie) : Option (List Char) := t.root.longestMatch text

/-- Moves characters of the input to the buffer while it is empty or can still grow into a word. -/
def growFrom (t : Trie) (buffer : List Char) : List Char → List Char
  | [] => buffer
  | c :: cs =>
    if !buffer.isEmpty && !t.partialContains buffer then buffer
    else t.growFrom (buffer ++ [c]) cs

/-- The buffer that growth from nothing ends with. -/
def grow (t : Trie) (input : List Char) : List Char := t.growFrom [] input

end Trie

end HostScript
