import HostScript.Proofs.Token.Pieces

/-!
# Where call tokens come from

The scan reads a call only off a name that it knows as a function, and it knows the built-ins and the
functions whose headers it has met. So the name of every call of a script is that of a built-in or
stands in a function header of the same script.
-/
namespace HostScript

/-- Whether the text of a token of this kind is a name that ends where its name characters end. -/
def Kind.cutsName : Kind → Bool
  | .query | .access | .function | .parameter | .letName => true
  | _ => false

theorem Kind.cutsName_cases {kind : Kind} (h : kind.cutsName) :
    kind = .query ∨ kind = .access ∨ kind = .function ∨ kind = .parameter ∨ kind = .letName := by
  revert h
  cases kind <;> simp [cutsName]

namespace Matcher

variable {s : Scanner} {input : List Char} {l : Lexeme}

theorem scanNamed_kind {kind : Kind} {word : List Char} {follows : Cursor → Bool}
    {tail : List Char} (h : scanNamed kind word follows tail input = some l) : l.token.kind = kind := by
  obtain ⟨name, behind, -, -, -, -, rfl⟩ := scanNamed_cases h
  rfl

theorem scanNamed_isNameChar {kind : Kind} {word : List Char} {follows : Cursor → Bool}
    {tail : List Char} (h : scanNamed kind word follows tail input = some l) :
    ∀ c ∈ l.token.text.toList, Text.isNameChar c := by
  obtain ⟨name, behind, -, hname, -, -, rfl⟩ := scanNamed_cases h
  rwa [String.toList_ofList]

theorem scanDirective_kind {kind : Kind} {word : List Char}
    (h : scanDirective kind word input = some l) : l.token.kind = kind := by
  obtain ⟨body, -, -, rfl⟩ := scanDirective_cases h
  rfl

def reads (m : Matcher) (kind : Kind) : Bool :=
  match m with
  | keyword | subtraction => kind.written?.isSome
  | punctuation | number | memberWrite => kind == .number || kind.written?.isSome
  | query => kind == .query
  | access => kind == .access
  | functionHeader => kind == .function
  | parameter => kind == .parameter
  | call => kind == .call
  | letBinding => kind == .letName
  | assign => kind == .assign
  | variableName => kind == .variableName
  | text => kind == .text
  | namespaceDirective => kind == .namespaceName
  | usingDirective => kind == .usingName
  | importDirective => kind == .importName

theorem reads_of_scan (m : Matcher) (h : m.scan s input = some l) : m.reads l.token.kind := by
  cases m with
  | keyword =>
    obtain ⟨kind, word, hword, _, rfl⟩ := scanKeyword_written h
    simp [reads, plain, hword]
  | subtraction =>
    obtain ⟨kind, word, hword, _, rfl⟩ := scanSubtraction_written h
    simp [reads, plain, hword]
  | punctuation | number | memberWrite =>
    rcases scanSymbol_cases rfl h with ⟨spelling, _, _, rfl⟩ | ⟨kind, word, hword, _, rfl⟩
    · rfl
    · simp [reads, plain, hword]
  | query =>
    simp only [scan] at h
    split at h
    all_goals exact beq_iff_eq.mpr (scanNamed_kind h)
  | access =>
    obtain ⟨name, -, -, rfl⟩ := scanAccess_cases h
    rfl
  | functionHeader | letBinding =>
    simp only [scan] at h
    exact beq_iff_eq.mpr (scanNamed_kind h)
  | parameter =>
    simp only [scan, scanParameter] at h
    split at h
    · exact beq_iff_eq.mpr (scanNamed_kind h)
    · cases h
  | call =>
    obtain ⟨name, -, rfl⟩ := scanCall_cases h
    rfl
  | assign =>
    obtain ⟨name, -, -, rfl⟩ := scanAssign_cases h
    rfl
  | variableName =>
    obtain ⟨name, _, rfl⟩ := Option.map_eq_some_iff.mp h
    rfl
  | text =>
    simp only [scan, scanText] at h
    split at h
    · cases h
      rfl
    · cases h
  | namespaceDirective | usingDirective | importDirective => exact beq_iff_eq.mpr (scanDirective_kind h)

theorem scan_isNameChar (m : Matcher) (h : m.scan s input = some l) (hkind : l.token.kind.cutsName) :
    ∀ c ∈ l.token.text.toList, Text.isNameChar c := by
  have hreads := reads_of_scan m h
  cases m with
  | query =>
    simp only [scan] at h
    split at h
    all_goals exact scanNamed_isNameChar h
  | access =>
    obtain ⟨name, hname, -, rfl⟩ := scanAccess_cases h
    rwa [String.toList_ofList]
  | functionHeader | letBinding =>
    simp only [scan] at h
    exact scanNamed_isNameChar h
  | parameter =>
    simp only [scan, scanParameter] at h
    split at h
    · exact scanNamed_isNameChar h
    · cases h
  | _ =>
    rcases Kind.cutsName_cases hkind with hk | hk | hk | hk | hk
    all_goals
      rw [hk] at hreads
      cases hreads

/-- A token is a number only if the input begins with the symbol. -/
theorem first?_of_scan_number (m : Matcher) (h : m.scan s input = some l) (hkind : l.token.kind = .number) :
    Symbol.first? input = some (.number, l.token.text.toList) := by
  have hreads := reads_of_scan m h
  rw [hkind] at hreads
  cases m with
  | punctuation | number | memberWrite =>
    simp only [scan, scanSymbol] at h
    split at h
    · rename_i kind spelling hfirst
      split at h
      · cases h
        obtain rfl : kind = .number := hkind
        simpa [plain] using hfirst
      · cases h
    · cases h
  | _ => cases hreads

theorem scan_number (m : Matcher) (h : m.scan s input = some l) (hkind : l.token.kind = .number) :
    ∃ digits, digits ≠ [] ∧ (∀ c ∈ digits, Text.isNumberChar c) ∧
      (l.token.text.toList = digits ∨ l.token.text.toList = '-' :: digits) :=
  first?_number (first?_of_scan_number m h hkind)

theorem scan_text (m : Matcher) (h : m.scan s input = some l) (hkind : l.token.kind = .text) :
    '"' ∉ l.token.text.toList := by
  have hreads := reads_of_scan m h
  rw [hkind] at hreads
  cases m with
  | text =>
    simp only [scan, scanText] at h
    split at h
    · cases h
      rw [String.toList_ofList]
      intro hquote
      have hne := List.all_eq_true.mp List.all_takeWhile '"' hquote
      simp at hne
    · cases h
  | _ => cases hreads

/-- A token is a call only if its text is the name of a known function. -/
theorem scan_call (m : Matcher) (h : m.scan s input = some l) (hkind : l.token.kind = .call) :
    s.functionNames.contains l.token.text.toList := by
  have hreads := reads_of_scan m h
  rw [hkind] at hreads
  cases m with
  | call =>
    obtain ⟨name, hmatch, rfl⟩ := scanCall_cases h
    obtain ⟨_, _, hcontains⟩ := Trie.of_longestMatch hmatch
    simpa [plain] using hcontains
  | _ => cases hreads

end Matcher

namespace Scanner

/-- A name that stands for a function at a point of a scan: that of a built-in, or one in a function
header that was read. -/
def Knows (builtins : List String) (s : Scanner) (name : String) : Prop :=
  name ∈ builtins ∨ ⟨.function, name⟩ ∈ s.tokens

theorem Knows.commit {builtins : List String} {s : Scanner} {name : String} (h : s.Knows builtins name)
    (t : Token) : (s.commit t).Knows builtins name :=
  h.imp_right (List.mem_cons_of_mem t)

theorem functionNames_learn (s : Scanner) (t : Token) :
    (s.learn t).functionNames =
      if t.kind = .function then s.functionNames.insert t.text.toList else s.functionNames := by
  by_cases hkind : t.kind = .function
  · simp only [learn, hkind, if_true]
  · rw [if_neg hkind]
    unfold learn
    split
    · exact absurd ‹_› hkind
    · split <;> rfl
    · rfl
    · rfl
    · rfl
    · rfl
    · rfl
    · split <;> rfl
    · rfl

/-- Every token of a scan was read in a state of the scan. -/
theorem Reachable.read {builtins : List String} {s : Scanner} (h : Reachable builtins s) {t : Token}
    (ht : t ∈ s.tokens) :
    ∃ s' input m l, Reachable builtins s' ∧ s'.next? input = some (m, l) ∧ l.token = t := by
  induction h with
  | start => cases ht
  | @commit s input m l hs hnext ih =>
    rcases List.mem_cons.mp ht with rfl | ht
    · exact ⟨s, input, m, l, hs, hnext, rfl⟩
    · exact ih ht

theorem Reachable.knows {builtins : List String} {s : Scanner} (h : Reachable builtins s) :
    (∀ name : String, s.functionNames.contains name.toList → s.Knows builtins name) ∧
      ∀ t ∈ s.tokens, t.kind = .call → s.Knows builtins t.text := by
  induction h with
  | start =>
    refine ⟨fun name hname => ?_, nofun⟩
    rw [Scanner.start, Trie.contains_ofList] at hname
    obtain ⟨other, hother, heq⟩ := List.mem_map.mp hname
    exact .inl (String.toList_injective heq ▸ hother)
  | @commit s input m l _ hnext ih =>
    obtain ⟨hnames, hcalls⟩ := ih
    refine ⟨fun name hname => ?_, fun t ht hkind => ?_⟩
    · have hlearned : (s.learn l.token).functionNames.contains name.toList := hname
      rw [functionNames_learn] at hlearned
      split at hlearned
      · rename_i hfunction
        rcases Trie.contains_insert.mp hlearned with heq | hold
        · refine .inr (List.mem_cons.mpr (.inl ?_))
          rw [String.toList_injective heq, ← hfunction]
        · exact (hnames name hold).commit l.token
      · exact (hnames name hlearned).commit l.token
    · rcases List.mem_cons.mp ht with rfl | ht
      · exact (hnames _ (Matcher.scan_call m (scan_of_next? hnext) hkind)).commit _
      · exact (hcalls t ht hkind).commit l.token

theorem Cuts.reachable {builtins : List String} {s : Scanner} {c : Cursor} {ps : List Piece}
    (hs : Reachable builtins s) (h : Cuts s c ps) :
    ∃ s', Reachable builtins s' ∧ s'.tokens = (ps.filterMap Piece.token?).reverse ++ s.tokens := by
  induction h with
  | done => exact ⟨_, hs, rfl⟩
  | token hnext _ ih =>
    obtain ⟨s', hs', htokens⟩ := ih (.commit hs hnext)
    refine ⟨s', hs', ?_⟩
    rw [htokens]
    simp [Piece.token?, Scanner.commit]
  | skipped _ _ _ ih =>
    obtain ⟨s', hs', htokens⟩ := ih hs
    exact ⟨s', hs', htokens⟩

end Scanner

/-- The name of every call token is that of a built-in or stands in a function header of the script. -/
theorem tokenize_call {builtins : List String} {source : String} {t : Token}
    (ht : t ∈ (tokenize builtins source).tokens) (hkind : t.kind = .call) :
    t.text ∈ builtins ∨ ⟨.function, t.text⟩ ∈ (tokenize builtins source).tokens := by
  obtain ⟨s, hs, htokens⟩ := (tokenize_cuts builtins source).reachable .start
  have hmem (u : Token) : u ∈ s.tokens ↔ u ∈ (tokenize builtins source).tokens := by
    rw [htokens]
    simp [Tokenized.tokens, Scanner.start]
  have hknown := hs.knows.2 t ((hmem t).mpr ht) hkind
  exact hknown.imp_right (hmem _).mp

end HostScript
