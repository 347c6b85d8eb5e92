import HostScript.Proofs.Token.Pieces

/-!
# Growing a word

A reserved word is read one character at a time, as long as what was read can still grow into a word of the
tree. What was read is tested before the next character is added, so the growth passes no word without
stopping at it: it ends with the shortest word that the input begins with. If there is none, it goes astray
or comes to the end of the input, and what it has read is no word.
-/
namespace HostScript

open Text

theorem TrieNode.find?_append (front back : List Char) (n : TrieNode) :
    n.find? (front ++ back) = (n.find? front).bind (find? back) := by
  induction front generalizing n with
  | nil => rfl
  | cons c cs ih =>
    simp only [List.cons_append, find?]
    cases n.children.child? c with
    | none => rfl
    | some next => exact ih next

namespace Trie

variable {t : Trie} {text word input : List Char}

/-- A word of the tree begins with each of its beginnings. -/
theorem startsWith_of_contains (hword : t.contains word) (hfront : text <+: word) (hne : text ≠ []) :
    t.startsWith text := by
  obtain ⟨rest, rfl⟩ := hfront
  rw [startsWith, List.isEmpty_eq_false_iff.mpr hne]
  rw [contains, TrieNode.contains, TrieNode.find?_append] at hword
  cases hfind : t.root.find? text with
  | none =>
    rw [hfind] at hword
    cases hword
  | some node => rfl

/-- As long as the buffer is a proper beginning of a word that the input goes on with, the growth is not
over, so it ends at that word or at one before it. -/
theorem growFrom_shortest (hempty : t.contains [] = false) {buffer cs : List Char} (hword : t.contains word)
    (hbuffer : buffer <+: word) (hfront : word <+: buffer ++ cs) :
    t.contains (t.growFrom buffer cs) ∧ t.growFrom buffer cs <+: word := by
  induction cs generalizing buffer with
  | nil =>
    rw [List.append_nil] at hfront
    obtain rfl := hbuffer.eq_of_length_le hfront.length_le
    exact ⟨hword, List.prefix_rfl⟩
  | cons c cs ih =>
    unfold growFrom
    by_cases hstored : t.contains buffer
    · have hne : buffer.isEmpty = false := by
        rw [List.isEmpty_eq_false_iff]
        rintro rfl
        rw [hempty] at hstored
        cases hstored
      have hstops : (!buffer.isEmpty && !t.partialContains buffer) = true := by
        simp [hne, partialContains, hstored]
      rw [if_pos hstops]
      exact ⟨hstored, hbuffer⟩
    · have hgoes : ¬(!buffer.isEmpty && !t.partialContains buffer) = true := by
        by_cases hne : buffer = []
        · simp [hne]
        · simp [partialContains, hstored, startsWith_of_contains hword hbuffer hne]
      have hproper : buffer.length < word.length := by
        refine Nat.lt_of_le_of_ne hbuffer.length_le fun heq => hstored ?_
        rwa [hbuffer.eq_of_length heq]
      have hnext : buffer ++ [c] <+: buffer ++ c :: cs := ⟨cs, by simp⟩
      rw [if_neg hgoes]
      refine ih (List.prefix_of_prefix_length_le hnext hfront ?_) (by simpa using hfront)
      rwa [List.length_append, List.length_singleton]

/-- Growth ends with the shortest word that the input begins with. -/
theorem grow_shortest (hempty : t.contains [] = false) (hword : t.contains word) (hfront : word <+: input) :
    t.contains (t.grow input) ∧ t.grow input <+: word :=
  growFrom_shortest hempty hword List.nil_prefix hfront

example : (Trie.ofList ["for".toList, "forest".toList]).grow "forests".toList = "for".toList := by decide

/-- Growth ends with no word if the input begins with none. -/
theorem contains_grow_eq_false (h : ∀ word, t.contains word → ¬word <+: input) :
    t.contains (t.grow input) = false := by
  rw [Bool.eq_false_iff]
  intro hgrown
  exact h _ hgrown (t.grow_prefix input)

end Trie

namespace Matcher

variable {input word : List Char} {kind : Kind}

theorem contains_keywordTrie : keywordTrie.contains word ↔ ∃ k ∈ keywords, k.1 = word := by
  rw [keywordTrie, Trie.contains_ofList, List.mem_map]

/-- No reserved word begins another one. -/
theorem keywords_separate :
    ∀ k ∈ keywords, ∀ other ∈ keywords, other.1 <+: k.1 → other.1 = k.1 := by decide

theorem find?_keywords : ∀ k ∈ keywords, keywords.find? (fun other => other.1 == k.1) = some k := by
  decide

/-- A reserved word at the front of the input is read. -/
theorem scanKeyword_of_prefix (hkeyword : (word, kind) ∈ keywords) (hfront : word <+: input) :
    scanKeyword input = some (plain kind word) := by
  have hempty : keywordTrie.contains [] = false := by decide
  obtain ⟨hgrown, hshort⟩ :=
    Trie.grow_shortest hempty (contains_keywordTrie.mpr ⟨_, hkeyword, rfl⟩) hfront
  obtain ⟨other, hother, heq⟩ := contains_keywordTrie.mp hgrown
  have hword : keywordTrie.grow input = word := by
    rw [← heq] at hshort ⊢
    exact keywords_separate _ hkeyword _ hother hshort
  rw [hword] at hgrown
  unfold scanKeyword
  simp only [hword, hgrown, if_true, find?_keywords _ hkeyword, Option.map_some]

end Matcher

/-- Growth finds exactly the reserved words. At any point of a scan a reserved word is read if and only if
the unread text begins with one; then it is that one which is read, and the scan goes on right behind it.
In a tree without the empty word, growth ends with the shortest word that the input begins with if there
is one, and otherwise with no word. -/
theorem keyword_growth (s : Scanner) (c : Cursor) :
    ((Matcher.keyword.scan s c.rest).isSome ↔ ∃ k ∈ Matcher.keywords, k.1 <+: c.rest) ∧
      (∀ word kind rest, (word, kind) ∈ Matcher.keywords → c.rest = word ++ rest →
        Matcher.keyword.scan s c.rest = some ⟨⟨kind, String.ofList word⟩, word⟩ ∧
          ∀ fuel, s.pieces (fuel + 1) c =
            .token .keyword ⟨⟨kind, String.ofList word⟩, word⟩ ::
              (s.commit ⟨kind, String.ofList word⟩).pieces fuel
                ⟨c.position + byteLength word, rest⟩) ∧
      ∀ t : Trie, t.contains [] = false → ∀ input,
        (∀ word, t.contains word → word <+: input →
          t.contains (t.grow input) ∧ t.grow input <+: input ∧ t.grow input <+: word) ∧
        ((∀ word, t.contains word → ¬word <+: input) → t.contains (t.grow input) = false) := by
  refine ⟨⟨fun hsome => ?_, ?_⟩, fun word kind rest hkeyword hrest => ?_, fun t hempty input => ⟨?_, ?_⟩⟩
  · refine Classical.byContradiction fun hnone => ?_
    have hscan := Matcher.scanKeyword_eq_none fun k hk hfront => hnone ⟨k, hk, hfront⟩
    rw [Matcher.scan, hscan] at hsome
    cases hsome
  · rintro ⟨⟨word, kind⟩, hkeyword, hfront⟩
    rw [Matcher.scan, Matcher.scanKeyword_of_prefix hkeyword hfront]
    rfl
  · have hscan : Matcher.keyword.scan s c.rest = some (Matcher.plain kind word) :=
      Matcher.scanKeyword_of_prefix hkeyword ⟨rest, hrest.symm⟩
    refine ⟨hscan, fun fuel => ?_⟩
    have hall : Matcher.all = [] ++ .keyword :: Matcher.all.drop 1 := rfl
    have hnext : s.next? c.rest = some (.keyword, Matcher.plain kind word) :=
      Scanner.next?_of_scan hall (List.forall_mem_nil _) hscan
    have hne : word ≠ [] := by
      rintro rfl
      revert hkeyword
      cases kind <;> decide
    have hskip : c.skip word.length = ⟨c.position + byteLength word, rest⟩ := by
      rw [Cursor.skip, hrest, List.take_left, List.drop_left]
    rw [Scanner.pieces_of_next? hne ⟨rest, hrest.symm⟩ hnext, ← hskip]
    rfl
  · intro word hword hfront
    obtain ⟨hgrown, hshort⟩ := Trie.grow_shortest hempty hword hfront
    exact ⟨hgrown, t.grow_prefix input, hshort⟩
  · exact Trie.contains_grow_eq_false

end HostScript
