import HostScript.Trie

/-!
# Words of prefix trees

A tree holds exactly the words that were added to it, and a longest match is one of its words with which
the text begins.
-/
namespace HostScript

theorem Forest.child?_upsert (key other : Char) (grow : TrieNode → TrieNode) (f : Forest) :
    (f.upsert key grow).child? other =
      if key = other then some (grow ((f.child? key).getD {})) else f.child? other := by
  induction f with
  | nil =>
    simp only [Forest.upsert, Forest.child?]
    rfl
  | node k terminal children siblings _ ih =>
    simp only [Forest.upsert]
    by_cases hk : k = key
    · subst hk
      rw [if_pos rfl]
      simp only [Forest.child?, if_true, Option.getD_some]
      split <;> rfl
    · simp only [if_neg hk, Forest.child?, ih]
      by_cases ho : k = other
      · rw [if_pos ho, if_neg, if_pos ho]
        rintro rfl
        exact hk ho
      · rw [if_neg ho, if_neg ho]

namespace TrieNode

theorem contains_nil (n : TrieNode) : n.contains [] = n.terminal := rfl

theorem contains_cons (n : TrieNode) (c : Char) (cs : List Char) :
    n.contains (c :: cs) =
      match n.children.child? c with
      | some next => next.contains cs
      | none => false := by
  simp only [contains, find?]
  cases n.children.child? c <;> rfl

theorem contains_empty (word : List Char) : contains {} word = false := by
  cases word <;> rfl

theorem contains_insert {word other : List Char} {n : TrieNode} :
    (n.insert word).contains other ↔ other = word ∨ n.contains other := by
  induction word generalizing other n with
  | nil =>
    cases other with
    | nil => simp [insert, contains_nil]
    | cons c cs => simp [insert, contains_cons]
  | cons c cs ih =>
    cases other with
    | nil => simp [insert, contains_nil]
    | cons d ds =>
      simp only [insert, contains_cons, Forest.child?_upsert, List.cons.injEq]
      by_cases hc : c = d
      · subst hc
        rw [if_pos rfl]
        simp only [ih, true_and]
        cases n.children.child? c with
        | none =>
          have hempty : ({} : TrieNode).contains ds = false := contains_empty ds
          simp [hempty]
        | some next => simp
      · rw [if_neg hc]
        simp [Ne.symm hc]

/-- A longest match is a nonempty word of the tree that the text begins with. -/
theorem of_longestMatch {n : TrieNode} {text word : List Char} (h : n.longestMatch text = some word) :
    word ≠ [] ∧ word <+: text ∧ n.contains word := by
  induction text generalizing n word with
  | nil => cases h
  | cons c cs ih =>
    simp only [longestMatch] at h
    cases hchild : n.children.child? c with
    | none =>
      rw [hchild] at h
      cases h
    | some next =>
      simp only [hchild] at h
      cases hmatch : next.longestMatch cs with
      | some rest =>
        simp only [hmatch, Option.some.injEq] at h
        obtain ⟨_, hprefix, hcontains⟩ := ih hmatch
        subst h
        rw [contains_cons, hchild]
        exact ⟨List.cons_ne_nil c rest, List.cons_prefix_cons.mpr ⟨rfl, hprefix⟩, hcontains⟩
      | none =>
        simp only [hmatch] at h
        split at h
        · cases h
          rw [contains_cons, hchild]
          exact ⟨List.cons_ne_nil c [], ⟨cs, rfl⟩, ‹_›⟩
        · cases h

/-- A nonempty word that the text begins with is no longer than the longest match. -/
theorem exists_longestMatch {n : TrieNode} {text word : List Char} (hne : word ≠ []) (hfront : word <+: text)
    (hcontains : n.contains word) :
    ∃ longest, n.longestMatch text = some longest ∧ word.length ≤ longest.length := by
  induction text generalizing n word with
  | nil => exact absurd (List.prefix_nil.mp hfront) hne
  | cons c cs ih =>
    obtain ⟨d, ds, rfl⟩ := List.exists_cons_of_ne_nil hne
    obtain ⟨rfl, htail⟩ := List.cons_prefix_cons.mp hfront
    rw [contains_cons] at hcontains
    simp only [longestMatch]
    cases hchild : n.children.child? d with
    | none =>
      rw [hchild] at hcontains
      cases hcontains
    | some next =>
      rw [hchild] at hcontains
      dsimp only at hcontains ⊢
      cases ds with
      | nil =>
        have hterminal : next.terminal = true := hcontains
        cases next.longestMatch cs with
        | none => exact ⟨[d], by simp [hterminal], Nat.le_refl 1⟩
        | some rest => exact ⟨d :: rest, rfl, Nat.succ_le_succ (Nat.zero_le _)⟩
      | cons e es =>
        obtain ⟨rest, hrest, hle⟩ := ih (List.cons_ne_nil e es) htail hcontains
        rw [hrest]
        exact ⟨d :: rest, rfl, Nat.succ_le_succ hle⟩

end TrieNode

namespace Trie

theorem contains_empty (word : List Char) : empty.contains word = false := TrieNode.contains_empty word

theorem contains_insert {word other : List Char} {t : Trie} :
    (t.insert word).contains other ↔ other = word ∨ t.contains other := TrieNode.contains_insert

theorem contains_ofList {word : List Char} {words : List (List Char)} :
    (ofList words).contains word ↔ word ∈ words := by
  have foldl_insert (t : Trie) :
      (words.foldl (fun t w => t.insert w) t).contains word ↔ word ∈ words ∨ t.contains word := by
    induction words generalizing t with
    | nil => simp
    | cons w words ih =>
      simp only [List.foldl_cons, List.mem_cons, ih, contains_insert]
      grind
  rw [ofList, foldl_insert, contains_empty]
  simp

/-- A longest match is a nonempty word of the tree that the text begins with. -/
theorem of_longestMatch {t : Trie} {text word : List Char} (h : t.longestMatch text = some word) :
    word ≠ [] ∧ word <+: text ∧ t.contains word := TrieNode.of_longestMatch h

/-- A nonempty word that the text begins with is no longer than the longest match. -/
theorem exists_longestMatch {t : Trie} {text word : List Char} (hne : word ≠ []) (hfront : word <+: text)
    (hcontains : t.contains word) :
    ∃ longest, t.longestMatch text = some longest ∧ word.length ≤ longest.length :=
  TrieNode.exists_longestMatch hne hfront hcontains

/-- Longest matches depend on the words only, and not on where they are kept in the tree. -/
theorem longestMatch_congr {t u : Trie} (h : ∀ word, t.contains word = u.contains word) (text : List Char) :
    t.longestMatch text = u.longestMatch text := by
  have covers {t u : Trie} (h : ∀ word, t.contains word = u.contains word) {word : List Char}
      (hword : t.longestMatch text = some word) :
      ∃ other, u.longestMatch text = some other ∧ word.length ≤ other.length := by
    obtain ⟨hne, hfront, hcontains⟩ := of_longestMatch hword
    exact exists_longestMatch hne hfront (h word ▸ hcontains)
  cases ht : t.longestMatch text with
  | none =>
    cases hu : u.longestMatch text with
    | none => rfl
    | some word =>
      obtain ⟨other, hother, _⟩ := covers (fun word => (h word).symm) hu
      cases ht.symm.trans hother
  | some word =>
    obtain ⟨other, hother, hle⟩ := covers h ht
    obtain ⟨_, hback, hge⟩ := covers (fun word => (h word).symm) hother
    cases ht.symm.trans hback
    have hfront := (of_longestMatch ht).2.1
    have hfront' := (of_longestMatch hother).2.1
    rw [hother, (List.prefix_of_prefix_length_le hfront hfront' hle).eq_of_length_le hge]

end Trie

end HostScript
