import HostScript.Proofs.Trie
import Mathlib.Data.Finset.Card
import Mathlib.Order.Bounds.Basic

/-!
# Trees as sets of words

Every question that a tree answers is one about the set of the words that were added to it. Adding a word
changes the answers in one way, whatever the tree holds before: the word is a word of it, its beginnings
can be found, and the number of words goes up by one if the word is new. So no order of the words and no
repetition of them can be told from the answers.
-/
namespace HostScript

open Text

namespace TrieNode

/-- What can be found below a node with one more word is what could be found before, and the beginnings of the
word. -/
theorem isSome_find?_insert (word text : List Char) (n : TrieNode) :
    ((n.insert word).find? text).isSome ↔ text <+: word ∨ (n.find? text).isSome := by
  induction word generalizing text n with
  | nil =>
    cases text with
    | nil => simp [find?]
    | cons c cs => simp [insert, find?]
  | cons d ds ih =>
    cases text with
    | nil => simp [find?]
    | cons c cs =>
      simp only [insert, find?, Forest.child?_upsert, List.cons_prefix_cons]
      by_cases hd : d = c
      · subst hd
        rw [if_pos rfl, Option.bind_some, ih]
        cases n.children.child? d with
        | some next => simp
        | none =>
          cases cs with
          | nil => simp
          | cons e es => simp [find?, Forest.child?]
      · rw [if_neg hd]
        simp [Ne.symm hd]

end TrieNode

namespace Trie

section

variable {words : List (List Char)} {text : List Char}

theorem ofList_append_singleton (words : List (List Char)) (word : List Char) :
    ofList (words ++ [word]) = (ofList words).insert word := by
  rw [ofList, ofList, List.foldl_append]
  rfl

/-- The words are counted once each. -/
theorem size_ofList (words : List (List Char)) : (ofList words).size = words.toFinset.card := by
  induction words using List.reverseRecOn with
  | nil => rfl
  | append_singleton words word ih =>
    have hset : (words ++ [word]).toFinset = Insert.insert word words.toFinset := by
      ext other
      simp
    rw [ofList_append_singleton, hset, Finset.card_insert_eq_ite, ← ih]
    simp only [size, insert, contains_ofList, List.mem_toFinset]

theorem isSome_find?_ofList (htext : text ≠ []) :
    ((ofList words).root.find? text).isSome ↔ ∃ word ∈ words, text <+: word := by
  induction words using List.reverseRecOn with
  | nil =>
    obtain ⟨c, cs, rfl⟩ := List.exists_cons_of_ne_nil htext
    simp [ofList, empty, TrieNode.find?, Forest.child?]
  | append_singleton words word ih =>
    rw [ofList_append_singleton, insert, TrieNode.isSome_find?_insert, ih]
    simp [or_and_right, exists_or, or_comm]

theorem isEmpty_ofList : (ofList words).isEmpty ↔ words = [] := by
  rw [isEmpty, beq_iff_eq, ← size, size_ofList, Finset.card_eq_zero, List.toFinset_eq_empty_iff]

theorem startsWith_ofList : (ofList words).startsWith text ↔ ∃ word ∈ words, text <+: word := by
  unfold startsWith
  by_cases htext : text = []
  · subst htext
    have hempty : (ofList words).isEmpty ↔ words = [] := isEmpty_ofList
    cases words with
    | nil => simp [hempty.mpr rfl]
    | cons word rest =>
      have hnot : (ofList (word :: rest)).isEmpty = false := by simpa using hempty
      simp [hnot]
  · have hcond : text.isEmpty = false := List.isEmpty_eq_false_iff.mpr htext
    rw [hcond]
    exact isSome_find?_ofList htext

theorem partialContains_ofList :
    (ofList words).partialContains text ↔ (∃ word ∈ words, text <+: word) ∧ text ∉ words := by
  rw [partialContains, Bool.and_eq_true, startsWith_ofList, Bool.not_eq_true', Bool.eq_false_iff, Ne,
    contains_ofList]

end

section

/-! Of two beginnings of a text the longer one takes more bytes. -/

variable {t : Trie} {text word : List Char}

theorem byteLength_le_of_prefix {w v : List Char} (h : w <+: v) : byteLength w ≤ byteLength v := by
  obtain ⟨rest, rfl⟩ := h
  rw [byteLength_append]
  exact Nat.le_add_right _ _

/-- The lengths in bytes of the words of a tree that a text begins with, apart from the empty word. -/
def matchLengths (t : Trie) (text : List Char) : Set Nat :=
  { n | ∃ word, t.contains word ∧ word ≠ [] ∧ word <+: text ∧ byteLength word = n }

theorem isGreatest_longestMatch (h : t.longestMatch text = some word) :
    IsGreatest (t.matchLengths text) (byteLength word) := by
  obtain ⟨hne, hfront, hcontains⟩ := of_longestMatch h
  refine ⟨⟨word, hcontains, hne, hfront, rfl⟩, ?_⟩
  rintro _ ⟨other, hother, hotherne, hotherfront, rfl⟩
  obtain ⟨longest, hlongest, hle⟩ := exists_longestMatch hotherne hotherfront hother
  cases h.symm.trans hlongest
  exact byteLength_le_of_prefix (List.prefix_of_prefix_length_le hotherfront hfront hle)

theorem longestMatch_eq_none_iff :
    t.longestMatch text = none ↔ ∀ word, t.contains word → word <+: text → word = [] := by
  constructor
  · intro hnone word hcontains hfront
    by_contra hne
    obtain ⟨longest, hlongest, _⟩ := exists_longestMatch hne hfront hcontains
    cases hnone.symm.trans hlongest
  · intro hempty
    cases hmatch : t.longestMatch text with
    | none => rfl
    | some word =>
      obtain ⟨hne, hfront, hcontains⟩ := of_longestMatch hmatch
      exact absurd (hempty word hcontains hfront) hne

end

/-- A tree is its set of words. Whatever words are added to an empty tree, in any order and with any
repetitions, every question is answered from the set of them: whether a word is in the set, whether one of
its words begins with a text, whether a text can still grow into a word and is none, how many words there
are, and how many bytes the longest nonempty word takes that a text begins with. A question leaves the tree
as it is, so this is also what is answered between two words that are added. -/
theorem set_of_words (words : List (List Char)) :
    (∀ word, (ofList words).contains word ↔ word ∈ words) ∧
      (∀ text, (ofList words).startsWith text ↔ ∃ word ∈ words, text <+: word) ∧
      (∀ text, (ofList words).partialContains text ↔
        (∃ word ∈ words, text <+: word) ∧ text ∉ words) ∧
      (ofList words).size = words.toFinset.card ∧
      (∀ text bytes, ((ofList words).longestMatch text).map byteLength = some bytes ↔
        IsGreatest { n | ∃ word ∈ words, word ≠ [] ∧ word <+: text ∧ byteLength word = n } bytes) ∧
      ∀ text, ((ofList words).longestMatch text).map byteLength = none ↔
        ∀ word ∈ words, word <+: text → word = [] := by
  have hlengths (text : List Char) :
      { n | ∃ word ∈ words, word ≠ [] ∧ word <+: text ∧ byteLength word = n } =
        (ofList words).matchLengths text := by
    simp only [matchLengths, contains_ofList]
  refine ⟨fun word => contains_ofList, fun text => startsWith_ofList, fun text => partialContains_ofList,
    size_ofList words, fun text bytes => ?_, fun text => ?_⟩
  · rw [hlengths, Option.map_eq_some_iff]
    constructor
    · rintro ⟨word, hmatch, rfl⟩
      exact isGreatest_longestMatch hmatch
    · intro hgreatest
      obtain ⟨word, hcontains, hne, hfront, -⟩ := hgreatest.1
      obtain ⟨longest, hmatch, -⟩ := exists_longestMatch hne hfront hcontains
      exact ⟨longest, hmatch, (isGreatest_longestMatch hmatch).unique hgreatest⟩
  · rw [Option.map_eq_none_iff, longestMatch_eq_none_iff]
    simp only [contains_ofList]

end Trie

end HostScript
