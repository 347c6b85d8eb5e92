import HostScript.Proofs.Trie
import HostScript.Token.Matcher

/-!
# Lexemes

What the categories of tokens read is always a nonempty beginning of the input, and it is a spelling of
the token that is read. The one thing this needs from the state of the scan is that no recorded
parameter is empty, and the tokens that are read keep it that way.
-/
namespace HostScript

/-- The fixed text of punctuation and of reserved words. -/
def Kind.written? : Kind → Option String
  | .trueWord => some "true"
  | .falseWord => some "false"
  | .returnWord => some "return"
  | .forWord => some "for"
  | .whileWord => some "while"
  | .plus => some "+"
  | .minus => some "-"
  | .star => some "*"
  | .slash => some "/"
  | .caret => some "^"
  | .percent => some "%"
  | .less => some "<"
  | .greater => some ">"
  | .question => some "?"
  | .colon => some ":"
  | .increment => some "++"
  | .decrement => some "--"
  | .plusAssign => some "+="
  | .minusAssign => some "-="
  | .equals => some "="
  | .semicolon => some ";"
  | .leftScope => some "\x7b"
  | .rightScope => some "\x7d"
  | .leftParen => some "("
  | .rightParen => some ")"
  | .leftBracket => some "["
  | .rightBracket => some "]"
  | .comma => some ","
  | .number | .text | .query | .function | .parameter | .letName | .namespaceName | .usingName
  | .importName | .variableName | .assign | .call | .access => none

/-- The ways in which a token may be written. -/
def Token.spellings (t : Token) : List (List Char) :=
  match t.kind with
  | .assign => [t.text.toList ++ ['=']]
  | .letName => ["let".toList ++ t.text.toList ++ ['=']]
  | .function => ["function".toList ++ t.text.toList]
  | .query => ["q.".toList ++ t.text.toList, "query.".toList ++ t.text.toList]
  | .access => ['.' :: t.text.toList]
  | .namespaceName => ["namespace".toList ++ t.text.toList]
  | .usingName => ["using".toList ++ t.text.toList]
  | .importName => ["import".toList ++ t.text.toList]
  | .text => ['"' :: t.text.toList ++ ['"'], '"' :: t.text.toList]
  | _ => [t.text.toList]

/-- A lexeme that stands at the front of the input. -/
structure Lexeme.Fits (l : Lexeme) (input : List Char) : Prop where
  nonempty : l.spelling ≠ []
  front : l.spelling <+: input
  spelled : l.spelling ∈ l.token.spellings
  written : ∀ word, l.token.kind.written? = some word → l.token.text = word
  /-- A quoted literal without its closing quote is all that is left of the input. -/
  closed : l.token.kind = .text → l.spelling = '"' :: l.token.text.toList → l.spelling = input

/-- No parameter that a scan has recorded is empty. -/
def Scanner.ParametersNonempty (s : Scanner) : Prop :=
  ∀ (function : String) (names : List String), s.parameters[function]? = some names → "" ∉ names

open Text

theorem Trie.growFrom_eq (t : Trie) (buffer cs : List Char) :
    ∃ taken, t.growFrom buffer cs = buffer ++ taken ∧ taken <+: cs := by
  induction cs generalizing buffer with
  | nil => exact ⟨[], by simp [growFrom], List.nil_prefix⟩
  | cons c cs ih =>
    unfold growFrom
    split
    · exact ⟨[], by simp, List.nil_prefix⟩
    · obtain ⟨taken, htaken, hprefix⟩ := ih (buffer ++ [c])
      exact ⟨c :: taken, by simp [htaken], List.cons_prefix_cons.mpr ⟨rfl, hprefix⟩⟩

theorem Trie.grow_prefix (t : Trie) (input : List Char) : t.grow input <+: input := by
  obtain ⟨taken, htaken, hprefix⟩ := t.growFrom_eq [] input
  rw [grow, htaken]
  exact hprefix

/-- A run of characters with a property ends where no such character follows. -/
theorem takeWhile_append_of_head? {p : Char → Bool} {word rest : List Char} (hword : ∀ c ∈ word, p c)
    (hrest : ∀ c ∈ rest.head?, p c = false) : (word ++ rest).takeWhile p = word := by
  rw [List.takeWhile_append_of_pos hword]
  cases rest with
  | nil => simp
  | cons c rest => simp [hrest c rfl]

namespace Scanner

theorem ParametersNonempty.activeParameters {s : Scanner} (hs : s.ParametersNonempty) :
    "" ∉ s.activeParameters := by
  unfold Scanner.activeParameters
  split
  · rename_i function _
    rw [Std.ExtTreeMap.getD_eq_getD_getElem?]
    cases hnames : s.parameters[function]? with
    | none => simp
    | some names => exact hs function names hnames
  · simp

theorem longer_eq {a b : Option (List Char)} : longer a b = a ∨ longer a b = b := by
  unfold longer
  split
  · split
    · exact .inr rfl
    · exact .inl rfl
  · exact .inl rfl
  · exact .inr rfl

theorem mem_of_foldl_longer {names : List (List Char)} {best : Option (List Char)} {name : List Char}
    (h : names.foldl (fun best p => longer best (some p)) best = some name) :
    best = some name ∨ name ∈ names := by
  induction names generalizing best with
  | nil => exact .inl h
  | cons p names ih =>
    rcases ih h with hlonger | hmem
    · rcases longer_eq (a := best) (b := some p) with heq | heq
      · exact .inl (heq.symm.trans hlonger)
      · cases heq.symm.trans hlonger
        exact .inr (List.mem_cons_self ..)
    · exact .inr (List.mem_cons_of_mem _ hmem)

/-- A declared name that is read is a variable or an active parameter that the input begins with. -/
theorem declared?_cases {s : Scanner} {input name : List Char} (h : s.declared? input = some name) :
    s.variableNames.longestMatch input = some name ∨
      ∃ p ∈ s.activeParameters, p.toList = name ∧ name <+: input := by
  unfold declared? at h
  rcases longer_eq (a := s.variableNames.longestMatch input)
    (b := ((s.activeParameters.map String.toList).filter fun p => p.isPrefixOf input).foldl
      (fun best p => longer best (some p)) none) with heq | heq
  · exact .inl (heq ▸ h)
  · rcases mem_of_foldl_longer (heq ▸ h) with hnone | hmem
    · cases hnone
    · obtain ⟨hmem, hprefix⟩ := List.mem_filter.mp hmem
      obtain ⟨p, hp, rfl⟩ := List.mem_map.mp hmem
      exact .inr ⟨p, hp, rfl, List.isPrefixOf_iff_prefix.mp hprefix⟩

/-- A declared name that is read is a nonempty beginning of the input. -/
theorem of_declared? {s : Scanner} (hs : s.ParametersNonempty) {input name : List Char}
    (h : s.declared? input = some name) : name ≠ [] ∧ name <+: input := by
  rcases declared?_cases h with hmatch | ⟨p, hp, rfl, hprefix⟩
  · obtain ⟨hne, hprefix, _⟩ := Trie.of_longestMatch hmatch
    exact ⟨hne, hprefix⟩
  · refine ⟨fun hempty => ?_, hprefix⟩
    rw [String.toList_eq_nil_iff.mp hempty] at hp
    exact hs.activeParameters hp

end Scanner

namespace Matcher

/-- A token that is spelled by its text, at the front of the input. -/
theorem plain_fits {kind : Kind} {spelling input : List Char} (hne : spelling ≠ [])
    (hfront : spelling <+: input) (hkind : (⟨kind, String.ofList spelling⟩ : Token).spellings = [spelling])
    (hwritten : ∀ word, kind.written? = some word → String.ofList spelling = word) :
    (plain kind spelling).Fits input where
  nonempty := hne
  front := hfront
  spelled := by
    rw [plain, hkind]
    exact List.mem_singleton_self spelling
  written := hwritten
  closed := by
    rintro (rfl : kind = .text) _
    simp [Token.spellings] at hkind

/-- A token of fixed text at the front of the input. -/
theorem plain_fits_of_written {kind : Kind} {word : String} {input : List Char}
    (hword : kind.written? = some word) (hfront : word.toList <+: input) :
    (plain kind word.toList).Fits input := by
  have hne : word.toList ≠ [] := by
    cases kind <;> cases hword <;> decide
  refine plain_fits hne hfront ?_ fun other hother => ?_
  · cases kind <;> cases hword <;> decide
  · rw [String.ofList_toList]
    exact Option.some.inj (hword.symm.trans hother)

variable {s : Scanner} {input : List Char} {l : Lexeme}

theorem scanKeyword_written (h : scanKeyword input = some l) :
    ∃ kind word, kind.written? = some word ∧ word.toList <+: input ∧ l = plain kind word.toList := by
  unfold scanKeyword at h
  dsimp only at h
  split at h
  · obtain ⟨⟨word, kind⟩, hfind, rfl⟩ := Option.map_eq_some_iff.mp h
    obtain ⟨hword, hmem⟩ := And.intro (List.find?_some hfind) (List.mem_of_find?_eq_some hfind)
    have hfront := keywordTrie.grow_prefix input
    rw [← beq_iff_eq.mp hword] at hfront ⊢
    simp only [keywords, List.mem_cons, List.not_mem_nil, or_false, Prod.mk.injEq] at hmem
    rcases hmem with ⟨rfl, rfl⟩ | ⟨rfl, rfl⟩ | ⟨rfl, rfl⟩ | ⟨rfl, rfl⟩ | ⟨rfl, rfl⟩
    all_goals exact ⟨_, _, rfl, hfront, rfl⟩
  · cases h

theorem scanKeyword_eq_none (h : ∀ k ∈ keywords, ¬k.1 <+: input) : scanKeyword input = none := by
  have hfind : keywords.find? (fun k => k.1 == keywordTrie.grow input) = none := by
    rw [List.find?_eq_none]
    intro k hk heq
    refine h k hk ?_
    rw [beq_iff_eq.mp heq]
    exact keywordTrie.grow_prefix input
  simp [scanKeyword, hfind]

theorem scanSubtraction_written (h : scanSubtraction s input = some l) :
    ∃ kind word, kind.written? = some word ∧ word.toList <+: input ∧ l = plain kind word.toList := by
  unfold scanSubtraction at h
  split at h
  · split at h
    · split at h
      · cases h
        exact ⟨.minus, "-", rfl, ⟨_, rfl⟩, rfl⟩
      · cases h
    · cases h
  · cases h

/-- A symbol is a numeric literal, a quoted literal or a token of fixed text. -/
theorem first?_cases {kind : Kind} {spelling : List Char}
    (h : Symbol.first? input = some (kind, spelling)) :
    (kind = .number ∧ spelling ≠ [] ∧ spelling <+: input) ∨ kind = .text ∨
      ∃ word, kind.written? = some word ∧ word.toList <+: input ∧ spelling = word.toList := by
  cases input with
  | nil => cases h
  | cons c cs =>
    have digits (c : Char) : c :: cs.takeWhile isNumberChar <+: c :: cs :=
      List.cons_prefix_cons.mpr ⟨rfl, List.takeWhile_prefix _⟩
    simp only [Symbol.first?] at h
    split at h
    · cases h
      exact .inl ⟨rfl, List.cons_ne_nil _ _, digits c⟩
    split at h
    · cases h
      exact .inr (.inl rfl)
    split at h
    · subst c
      unfold Symbol.minus at h
      split at h
      · cases h
        exact .inr (.inr ⟨"--", rfl, ⟨_, rfl⟩, rfl⟩)
      · cases h
        exact .inr (.inr ⟨"-=", rfl, ⟨_, rfl⟩, rfl⟩)
      · dsimp only at h
        split at h
        · cases h
          exact .inr (.inr ⟨"-", rfl, ⟨_, rfl⟩, rfl⟩)
        · cases h
          exact .inl ⟨rfl, List.cons_ne_nil _ _, digits '-'⟩
    split at h
    · subst c
      unfold Symbol.plus at h
      split at h
      all_goals
        cases h
        exact .inr (.inr ⟨_, rfl, ⟨_, rfl⟩, rfl⟩)
    · obtain ⟨k, hk, heq⟩ := Option.map_eq_some_iff.mp h
      cases heq
      unfold Symbol.single? at hk
      split at hk <;> cases hk
      all_goals exact .inr (.inr ⟨_, rfl, ⟨_, rfl⟩, rfl⟩)

/-- A symbol that is a number is a run of digits and points, with a minus before it or not. -/
theorem first?_number {spelling : List Char} (h : Symbol.first? input = some (.number, spelling)) :
    ∃ digits, digits ≠ [] ∧ (∀ c ∈ digits, isNumberChar c) ∧
      (spelling = digits ∨ spelling = '-' :: digits) := by
  cases input with
  | nil => cases h
  | cons c cs =>
    have hrun : ∀ d ∈ cs.takeWhile isNumberChar, isNumberChar d :=
      List.all_eq_true.mp List.all_takeWhile
    simp only [Symbol.first?] at h
    split at h
    · rename_i hc
      cases h
      exact ⟨_, List.cons_ne_nil _ _, List.forall_mem_cons.mpr ⟨hc, hrun⟩, .inl rfl⟩
    split at h
    · cases h
    split at h
    · unfold Symbol.minus at h
      split at h
      · cases h
      · cases h
      · dsimp only at h
        split at h
        · cases h
        · rename_i hdigits
          cases h
          exact ⟨_, by simpa using hdigits, hrun, .inr rfl⟩
    split at h
    · unfold Symbol.plus at h
      split at h
      all_goals cases h
    · obtain ⟨kind, hkind, heq⟩ := Option.map_eq_some_iff.mp h
      cases heq
      unfold Symbol.single? at hkind
      split at hkind
      all_goals cases hkind

theorem scanSymbol_cases {accepts : Kind → Bool} (haccepts : accepts .text = false)
    (h : scanSymbol accepts input = some l) :
    (∃ spelling, spelling ≠ [] ∧ spelling <+: input ∧ l = plain .number spelling) ∨
      ∃ kind word, kind.written? = some word ∧ word.toList <+: input ∧ l = plain kind word.toList := by
  unfold scanSymbol at h
  split at h
  · rename_i kind spelling hfirst
    split at h
    · rename_i hkind
      cases h
      rcases first?_cases hfirst with ⟨rfl, hne, hfront⟩ | rfl | ⟨word, hword, hfront, rfl⟩
      · exact .inl ⟨spelling, hne, hfront, rfl⟩
      · rw [haccepts] at hkind
        cases hkind
      · exact .inr ⟨kind, word, hword, hfront, rfl⟩
    · cases h
  · cases h

theorem scanSymbol_fits {accepts : Kind → Bool} (haccepts : accepts .text = false)
    (h : scanSymbol accepts input = some l) : l.Fits input := by
  rcases scanSymbol_cases haccepts h with ⟨spelling, hne, hfront, rfl⟩ | ⟨kind, word, hword, hfront, rfl⟩
  · exact plain_fits hne hfront (by simp [Token.spellings]) (by simp [Kind.written?])
  · exact plain_fits_of_written hword hfront

theorem scanNamed_cases {kind : Kind} {word : List Char} {follows : Cursor → Bool} {tail : List Char}
    (h : scanNamed kind word follows tail input = some l) :
    ∃ name behind, name ≠ [] ∧ (∀ c ∈ name, isNameChar c) ∧ follows behind ∧
      input = word ++ name ++ behind.rest ∧ l = ⟨⟨kind, String.ofList name⟩, word ++ name ++ tail⟩ := by
  unfold scanNamed at h
  split at h
  · cases h
  · rename_i c hword
    obtain ⟨hname, heq⟩ := Option.ite_none_right_eq_some.mp h
    simp only [Bool.and_eq_true, Bool.not_eq_true', List.isEmpty_eq_false_iff] at hname
    refine ⟨_, _, hname.1, List.all_eq_true.mp List.all_takeWhile, hname.2, ?_, (Option.some.inj heq).symm⟩
    have hinput : input = word ++ c.rest := Cursor.rest_of_eat? hword
    rw [hinput, List.append_assoc, Cursor.append_rest_skip (List.takeWhile_prefix _)]

theorem scanNamed_fits {kind : Kind} {word : List Char} {follows : Cursor → Bool}
    {tail : List Char} (htail : ∀ c, follows c → tail <+: c.rest) (hkind : kind ≠ .text)
    (hspelled : ∀ name, word ++ name ++ tail ∈ (⟨kind, String.ofList name⟩ : Token).spellings)
    (hwritten : kind.written? = none) (h : scanNamed kind word follows tail input = some l) :
    l.Fits input := by
  obtain ⟨name, behind, hne, -, hfollows, rfl, rfl⟩ := scanNamed_cases h
  refine ⟨by simp [hne], ?_, hspelled _, by simp [hwritten], fun hk => absurd hk hkind⟩
  exact (List.prefix_append_right_inj _).mpr (htail behind hfollows)

theorem scanAccess_cases (h : scanAccess input = some l) :
    ∃ name, (∀ c ∈ name, isNameChar c) ∧ '.' :: name <+: input ∧
      l = ⟨⟨.access, String.ofList name⟩, '.' :: name⟩ := by
  obtain ⟨hdot, heq⟩ := Option.ite_none_right_eq_some.mp h
  obtain ⟨hhead, -⟩ := Bool.and_eq_true_iff.mp hdot
  obtain ⟨rest, rfl⟩ := List.head?_eq_some_iff.mp (beq_iff_eq.mp hhead)
  refine ⟨_, List.all_eq_true.mp List.all_takeWhile, ?_, (Option.some.inj heq).symm⟩
  exact List.cons_prefix_cons.mpr ⟨rfl, List.takeWhile_prefix _⟩

theorem scanAccess_fits (h : scanAccess input = some l) : l.Fits input := by
  obtain ⟨name, -, hfront, rfl⟩ := scanAccess_cases h
  exact ⟨by simp, hfront, by simp [Token.spellings], by simp [Kind.written?], nofun⟩

theorem scanParameter_fits (h : scanParameter s input = some l) : l.Fits input := by
  unfold scanParameter at h
  split at h
  · exact scanNamed_fits (fun _ _ => List.nil_prefix) (by decide)
      (fun name => by simp [Token.spellings]) rfl h
  · cases h

theorem scanCall_cases (h : scanCall s input = some l) :
    ∃ name, s.functionNames.longestMatch input = some name ∧ l = plain .call name := by
  unfold scanCall at h
  split at h
  · rename_i name hmatch
    obtain ⟨-, heq⟩ := Option.ite_none_right_eq_some.mp h
    exact ⟨name, hmatch, (Option.some.inj heq).symm⟩
  · cases h

theorem scanCall_fits (h : scanCall s input = some l) : l.Fits input := by
  obtain ⟨name, hmatch, rfl⟩ := scanCall_cases h
  obtain ⟨hne, hfront, _⟩ := Trie.of_longestMatch hmatch
  exact plain_fits hne hfront (by simp [Token.spellings]) (by simp [Kind.written?])

theorem of_atSingleEquals {c : Cursor} (h : atSingleEquals c) : ['='] <+: c.rest := by
  obtain ⟨hequals, -⟩ := Bool.and_eq_true_iff.mp h
  obtain ⟨rest, hrest⟩ := List.head?_eq_some_iff.mp (beq_iff_eq.mp hequals)
  exact ⟨rest, hrest.symm⟩

theorem scanAssign_cases (h : scanAssign s input = some l) :
    ∃ name, s.declared? input = some name ∧
      atSingleEquals ((Cursor.start input).advance (byteLength name)).2 ∧
      l = ⟨⟨.assign, String.ofList name⟩, name ++ ['=']⟩ := by
  unfold scanAssign at h
  split at h
  · rename_i name hdeclared
    obtain ⟨hequals, heq⟩ := Option.ite_none_right_eq_some.mp h
    exact ⟨name, hdeclared, hequals, (Option.some.inj heq).symm⟩
  · cases h

theorem scanAssign_fits (hs : s.ParametersNonempty) (h : scanAssign s input = some l) :
    l.Fits input := by
  obtain ⟨name, hdeclared, hequals, rfl⟩ := scanAssign_cases h
  obtain ⟨hne, hfront⟩ := Scanner.of_declared? hs hdeclared
  rw [Cursor.advance_of_prefix hfront] at hequals
  refine ⟨by simp, ?_, by simp [Token.spellings], by simp [Kind.written?], nofun⟩
  rw [← Cursor.rest_start input, ← Cursor.append_rest_skip (c := .start input) hfront]
  exact (List.prefix_append_right_inj name).mpr (of_atSingleEquals hequals)

theorem scanText_fits (h : scanText input = some l) : l.Fits input := by
  unfold scanText at h
  split at h
  · rename_i rest
    cases h
    have hsplit : rest.takeWhile (· != '"') ++ rest.dropWhile (· != '"') = rest :=
      List.takeWhile_append_dropWhile
    unfold Symbol.quotedSpelling Symbol.quotedText
    cases hdrop : rest.dropWhile (· != '"') with
    | nil =>
      rw [hdrop, List.append_nil] at hsplit
      refine ⟨by simp, ?_, by simp [Token.spellings], by simp [Kind.written?], fun _ _ => ?_⟩
      all_goals simp [hsplit]
    | cons c after =>
      have hc : c = '"' := by
        have hhead := List.head?_dropWhile_not (· != '"') rest
        rw [hdrop] at hhead
        simpa using hhead
      subst hc
      refine ⟨by simp, ⟨after, ?_⟩, by simp [Token.spellings], by simp [Kind.written?], fun _ hopen => ?_⟩
      · rw [hdrop] at hsplit
        simpa using hsplit
      · simp at hopen
  · cases h

theorem scanDirective_cases {kind : Kind} {word : List Char}
    (h : scanDirective kind word input = some l) :
    ∃ body, body ≠ [] ∧ word ++ body <+: input ∧ l = ⟨⟨kind, String.ofList body⟩, word ++ body⟩ := by
  unfold scanDirective at h
  split at h
  · cases h
  · rename_i c hword
    obtain ⟨hbody, heq⟩ := Option.ite_none_left_eq_some.mp h
    refine ⟨_, by simpa using hbody, ?_, (Option.some.inj heq).symm⟩
    rw [← Cursor.rest_start input, Cursor.rest_of_eat? hword]
    exact (List.prefix_append_right_inj word).mpr (List.takeWhile_prefix _)

theorem scanDirective_fits {kind : Kind} {word : List Char} (hkind : kind ≠ .text)
    (hspelled : ∀ body, word ++ body ∈ (⟨kind, String.ofList body⟩ : Token).spellings)
    (hwritten : kind.written? = none) (h : scanDirective kind word input = some l) : l.Fits input := by
  obtain ⟨body, hne, hfront, rfl⟩ := scanDirective_cases h
  exact ⟨by simp [hne], hfront, hspelled _, by simp [hwritten], fun hk => absurd hk hkind⟩

theorem scan_fits (hs : s.ParametersNonempty) (m : Matcher) (h : m.scan s input = some l) :
    l.Fits input := by
  cases m with
  | keyword =>
    obtain ⟨kind, word, hword, hfront, rfl⟩ := scanKeyword_written h
    exact plain_fits_of_written hword hfront
  | subtraction =>
    obtain ⟨kind, word, hword, hfront, rfl⟩ := scanSubtraction_written h
    exact plain_fits_of_written hword hfront
  | punctuation | number | memberWrite => exact scanSymbol_fits rfl h
  | query =>
    simp only [scan] at h
    split at h
    all_goals
      exact scanNamed_fits (fun _ _ => List.nil_prefix) (by decide)
        (fun name => by simp [Token.spellings]) rfl h
  | access => exact scanAccess_fits h
  | functionHeader =>
    simp only [scan] at h
    exact scanNamed_fits (fun _ _ => List.nil_prefix) (by decide)
      (fun name => by simp [Token.spellings]) rfl h
  | parameter => exact scanParameter_fits h
  | call => exact scanCall_fits h
  | letBinding =>
    exact scanNamed_fits (fun _ => of_atSingleEquals) (by decide)
      (fun name => by simp [Token.spellings]) rfl h
  | assign => exact scanAssign_fits hs h
  | variableName =>
    obtain ⟨name, hdeclared, rfl⟩ := Option.map_eq_some_iff.mp h
    obtain ⟨hne, hfront⟩ := Scanner.of_declared? hs hdeclared
    exact plain_fits hne hfront (by simp [Token.spellings]) (by simp [Kind.written?])
  | text => exact scanText_fits h
  | namespaceDirective | usingDirective | importDirective =>
    exact scanDirective_fits (by decide) (fun body => by simp [Token.spellings]) rfl h

end Matcher

theorem Scanner.scan_of_next? {s : Scanner} {input : List Char} {m : Matcher} {l : Lexeme}
    (h : s.next? input = some (m, l)) : m.scan s input = some l := by
  obtain ⟨m', _, hm'⟩ := List.exists_of_findSome?_eq_some h
  obtain ⟨l', hl', heq⟩ := Option.map_eq_some_iff.mp hm'
  cases heq
  exact hl'

/-- The first category that applies decides. -/
theorem Scanner.next?_of_scan {s : Scanner} {input : List Char} {m : Matcher} {l : Lexeme}
    {before after : List Matcher} (hall : Matcher.all = before ++ m :: after)
    (hbefore : ∀ k ∈ before, k.scan s input = none) (h : m.scan s input = some l) :
    s.next? input = some (m, l) := by
  have hnone : before.findSome? (fun k => (k.scan s input).map fun lexeme => (k, lexeme)) = none := by
    rw [List.findSome?_eq_none_iff]
    intro k hk
    rw [hbefore k hk]
    rfl
  rw [next?, hall, List.findSome?_append, hnone, Option.none_or, List.findSome?_cons, h]
  rfl

/-- What is read off the input stands at its front. -/
theorem Scanner.next?_fits {s : Scanner} (hs : s.ParametersNonempty) {input : List Char} {m : Matcher}
    {l : Lexeme} (h : s.next? input = some (m, l)) : l.Fits input :=
  Matcher.scan_fits hs m (scan_of_next? h)

end HostScript
