import HostScript.Proofs.Token.Calls

/-!
# Declared names

A declared name is found only after eight other categories were tried, and some of these take the front of
a longer word. A name that is declared as it stands and ends where its name characters end is left to the
last ones: no reserved word begins it, only a parenthesis makes a call or a header of it, and only a dot
makes a query. It is read as a variable, or as an assignment if a single `=` follows.
-/
namespace HostScript

open Text

/-- Whether all characters may stand in a name. -/
def Named (word : List Char) : Prop := ∀ c ∈ word, isNameChar c

instance (word : List Char) : Decidable (Named word) := List.decidableBAll _ _

/-- Text with which a name does not go on. -/
def EndsName (rest : List Char) : Prop := ∀ c ∈ rest.head?, isNameChar c = false

/-- The names that can be called are made of name characters, if those of the built-ins are. -/
theorem Scanner.Reachable.named {builtins : List String} {s : Scanner} (hs : Reachable builtins s)
    (hbuiltins : ∀ name ∈ builtins, Named name.toList) {word : List Char}
    (hword : s.functionNames.contains word) : Named word := by
  have hknown : s.Knows builtins (String.ofList word) := by
    refine hs.knows.1 (String.ofList word) ?_
    rwa [String.toList_ofList]
  rw [← String.toList_ofList (l := word)]
  rcases hknown with hbuiltin | hheader
  · exact hbuiltins _ hbuiltin
  · obtain ⟨s', input, m, l, _, hnext, htoken⟩ := hs.read hheader
    have hnamed := m.scan_isNameChar (scan_of_next? hnext)
    rw [htoken] at hnamed
    exact hnamed rfl

section

/-! A name at the front of the input. -/

variable {s : Scanner} {name rest word : List Char} {ch : Char}

/-- A word of name characters at the front does not go beyond the name. -/
theorem prefix_of_endsName (hword : Named word) (hrest : EndsName rest) (h : word <+: name ++ rest) :
    word <+: name := by
  induction name generalizing word with
  | nil =>
    cases word with
    | nil => exact List.nil_prefix
    | cons c cs =>
      obtain ⟨more, rfl⟩ := h
      have hc := hrest c rfl
      rw [hword c List.mem_cons_self] at hc
      cases hc
  | cons d name ih =>
    cases word with
    | nil => exact List.nil_prefix
    | cons c cs =>
      obtain ⟨rfl, htail⟩ := List.cons_prefix_cons.mp h
      exact List.cons_prefix_cons.mpr ⟨rfl, ih (fun e he => hword e (List.mem_cons_of_mem c he)) htail⟩

/-- Behind a beginning of the name comes a name character or what follows the name. -/
theorem head?_append_ne (hname : Named name) (hch : isNameChar ch = false) (hrest : rest.head? ≠ some ch) :
    (name ++ rest).head? ≠ some ch := by
  cases name with
  | nil => exact hrest
  | cons c cs =>
    rintro ⟨⟩
    rw [hname ch List.mem_cons_self] at hch
    cases hch

namespace Matcher

/-- A category for a leading word and a name behind it, which has to be followed in a certain way. -/
theorem scanNamed_eq_none {kind : Kind} {follows : Cursor → Bool} {tail : List Char} (hname : Named name)
    (hword : Named word) (hrest : EndsName rest)
    (hfollows : word <+: name → ∀ c : Cursor, c.rest = rest → follows c = false) :
    scanNamed kind word follows tail (name ++ rest) = none := by
  unfold scanNamed
  cases heat : (Cursor.start (name ++ rest)).eat? word with
  | none => rfl
  | some c =>
    have hsplit : name ++ rest = word ++ c.rest := Cursor.rest_of_eat? heat
    have hfront := prefix_of_endsName hword hrest ⟨c.rest, hsplit.symm⟩
    have hnone := hfollows hfront
    obtain ⟨more, rfl⟩ := hfront
    obtain hmore : more ++ rest = c.rest := List.append_cancel_left ((List.append_assoc ..).symm.trans hsplit)
    have htake : c.rest.takeWhile isNameChar = more := by
      rw [← hmore]
      exact takeWhile_append_of_head? (fun c hc => hname c (List.mem_append_right word hc)) hrest
    have hbehind : (c.skip more.length).rest = rest := by rw [Cursor.rest_skip, ← hmore, List.drop_left]
    simp [Cursor.takeWhile, htake, hnone _ hbehind]

theorem scanKeyword_name (hrest : EndsName rest)
    (hkeywords : ∀ word ∈ ["true", "false", "return", "for", "while"], ¬word.toList <+: name) :
    scanKeyword (name ++ rest) = none := by
  have hlisted : ∀ k ∈ keywords, ∃ word ∈ ["true", "false", "return", "for", "while"],
      word.toList = k.1 := by decide
  refine scanKeyword_eq_none fun k hk hfront => ?_
  obtain ⟨word, hword, heq⟩ := hlisted k hk
  have hnamed : ∀ word ∈ ["true", "false", "return", "for", "while"], Named word.toList := by decide +kernel
  exact hkeywords word hword (prefix_of_endsName (hnamed word hword) hrest (heq ▸ hfront))

/-- No punctuation begins with a name character. -/
theorem scanPunctuation_name (hch : isNameChar ch) :
    scanSymbol (fun kind => (Symbol.punctuation? kind).isSome) (ch :: rest) = none := by
  have hne (other : Char) (hother : isNameChar other = false) : ch ≠ other := by
    rintro rfl
    rw [hch] at hother
    cases hother
  have hsingle : Symbol.single? ch = none := by
    unfold Symbol.single?
    split
    case h_18 => rfl
    all_goals cases hch
  by_cases hnumber : isNumberChar ch
  · have hfirst : Symbol.first? (ch :: rest) = some (.number, ch :: rest.takeWhile isNumberChar) :=
      if_pos hnumber
    rw [scanSymbol, hfirst]
    rfl
  · have hfirst : Symbol.first? (ch :: rest) = none := by
      rw [Symbol.first?, if_neg hnumber, if_neg (hne '"' rfl), if_neg (hne '-' rfl), if_neg (hne '+' rfl),
        hsingle]
      rfl
    rw [scanSymbol, hfirst]

theorem scanQuery_name (hname : Named name) (hrest : EndsName rest) (hdot : rest.head? ≠ some '.') :
    query.scan s (name ++ rest) = none := by
  have hnone (word : List Char) (hword : Named word) : ¬word ++ ['.'] <+: name ++ rest := by
    intro hfront
    obtain ⟨more, rfl⟩ := prefix_of_endsName hword hrest ((List.prefix_append word ['.']).trans hfront)
    rw [List.append_assoc, List.prefix_append_right_inj] at hfront
    obtain ⟨behind, hbehind⟩ := hfront
    have hhead := head?_append_ne (fun c hc => hname c (List.mem_append_right word hc)) rfl hdot
    rw [← hbehind] at hhead
    exact hhead rfl
  have hlong : ¬"query.".toList <+: name ++ rest := hnone "query".toList (by decide +kernel)
  have hshort : ¬"q.".toList <+: name ++ rest := hnone "q".toList (by decide +kernel)
  rw [scan, if_neg (by rwa [List.isPrefixOf_iff_prefix]), scanNamed, Cursor.eat?_eq_none hshort]

theorem scanCall_name {builtins : List String} (hs : s.Reachable builtins)
    (hbuiltins : ∀ name ∈ builtins, Named name.toList) (hname : Named name) (hrest : EndsName rest)
    (hparen : rest.head? ≠ some '(') : scanCall s (name ++ rest) = none := by
  unfold scanCall
  cases hmatch : s.functionNames.longestMatch (name ++ rest) with
  | none => rfl
  | some word =>
    obtain ⟨_, hfront, hcontains⟩ := Trie.of_longestMatch hmatch
    obtain ⟨more, rfl⟩ := prefix_of_endsName (hs.named hbuiltins hcontains) hrest hfront
    have hhead := head?_append_ne (fun c hc => hname c (List.mem_append_right word hc)) rfl hparen
    simp only [Cursor.advance_of_prefix (c := .start _) hfront]
    rw [Cursor.peek?, Cursor.rest_skip, Cursor.rest_start, List.append_assoc, List.drop_left,
      if_neg fun h => hhead (beq_iff_eq.mp h)]

/-- The categories from reserved words to calls leave the name alone. -/
theorem scan_name {builtins : List String} (hs : s.Reachable builtins)
    (hbuiltins : ∀ name ∈ builtins, Named name.toList) (hlist : s.inParameterList = false)
    (hne : name ≠ []) (hname : Named name)
    (hkeywords : ∀ word ∈ ["true", "false", "return", "for", "while"], ¬word.toList <+: name)
    (hrest : EndsName rest) (hparen : rest.head? ≠ some '(') (hdot : rest.head? ≠ some '.') :
    ∀ m ∈ all.take 8, m.scan s (name ++ rest) = none := by
  obtain ⟨c, cs, rfl⟩ := List.exists_cons_of_ne_nil hne
  have hc : isNameChar c := hname c List.mem_cons_self
  intro m hm
  have hcategory : m = keyword ∨ m = subtraction ∨ m = punctuation ∨ m = query ∨ m = access ∨
      m = functionHeader ∨ m = parameter ∨ m = call := by simpa [all] using hm
  rcases hcategory with rfl | rfl | rfl | rfl | rfl | rfl | rfl | rfl
  · exact scanKeyword_name hrest hkeywords
  · simp only [scan, scanSubtraction, List.cons_append]
    split
    · rename_i heq
      obtain ⟨rfl, _⟩ := List.cons.inj heq
      cases hc
    · rfl
  · exact scanPunctuation_name hc
  · exact scanQuery_name hname hrest hdot
  · have hdot : c ≠ '.' := by
      rintro rfl
      cases hc
    simp [scan, scanAccess, Cursor.peek?, hdot]
  · have hword : Named "function".toList := by decide +kernel
    rw [scan]
    refine scanNamed_eq_none hname hword hrest fun _ behind hbehind => ?_
    rw [Cursor.peek?, hbehind, beq_eq_false_iff_ne]
    exact hparen
  · simp [scan, scanParameter, hlist]
  · exact scanCall_name hs hbuiltins hname hrest hparen

end Matcher

end

/-- A declared name resolves. In any state of a scan outside a parameter list, let a name be declared that
stands at the front of the unread text, and let no reserved word begin it. If neither a further name
character nor one of `(`, `=` and `.` follows, the next token is a variable of that name. If a single `=`
follows, and the name does not begin like a binding, the next token is an assignment to it. -/
theorem declared_name_resolves {builtins : List String} (hbuiltins : ∀ name ∈ builtins, Named name.toList)
    {s : Scanner} (hs : s.Reachable builtins) (hlist : s.inParameterList = false) {c : Cursor}
    {name rest : List Char} (htext : c.rest = name ++ rest) (hname : Named name)
    (hdeclared : s.declared? c.rest = some name)
    (hkeywords : ∀ word ∈ ["true", "false", "return", "for", "while"], ¬word.toList <+: name) :
    ((∀ ch ∈ rest.head?, isNameChar ch = false ∧ ch ≠ '(' ∧ ch ≠ '=' ∧ ch ≠ '.') →
      ∀ fuel, s.pieces (fuel + 1) c =
        .token .variableName ⟨⟨.variableName, String.ofList name⟩, name⟩ ::
          (s.commit ⟨.variableName, String.ofList name⟩).pieces fuel (c.skip name.length)) ∧
      ∀ more, rest = '=' :: more → more.head? ≠ some '=' → ¬"let".toList <+: name →
        ∀ fuel, s.pieces (fuel + 1) c =
          .token .assign ⟨⟨.assign, String.ofList name⟩, name ++ ['=']⟩ ::
            (s.commit ⟨.assign, String.ofList name⟩).pieces fuel (c.skip (name.length + 1)) := by
  obtain ⟨hne, _⟩ := Scanner.of_declared? hs.parametersNonempty hdeclared
  rw [htext] at hdeclared
  have pieces {m : Matcher} {l : Lexeme} (hnext : s.next? (name ++ rest) = some (m, l)) (fuel : Nat) :
      s.pieces (fuel + 1) c =
        .token m l :: (s.commit l.token).pieces fuel (c.skip l.spelling.length) := by
    rw [← htext] at hnext
    have hfits := Scanner.next?_fits hs.parametersNonempty hnext
    exact Scanner.pieces_of_next? hfits.nonempty hfits.front hnext fuel
  have hletters : Named "let".toList := by decide +kernel
  have hadvance : (Cursor.start (name ++ rest)).advance (byteLength name) =
      (name, (Cursor.start (name ++ rest)).skip name.length) :=
    Cursor.advance_of_prefix (List.prefix_append name rest)
  constructor
  · intro hfollows
    have ends (ch : Char) (hch : ch = '(' ∨ ch = '=' ∨ ch = '.') : rest.head? ≠ some ch := by
      intro hhead
      obtain ⟨_, h₁, h₂, h₃⟩ := hfollows ch hhead
      rcases hch with rfl | rfl | rfl
      · exact h₁ rfl
      · exact h₂ rfl
      · exact h₃ rfl
    have hrest : EndsName rest := fun ch hch => (hfollows ch hch).1
    have hequals (behind : Cursor) (hbehind : behind.rest = rest) : Matcher.atSingleEquals behind = false := by
      have hhead : behind.peek? ≠ some '=' := by
        rw [Cursor.peek?, hbehind]
        exact ends '=' (.inr (.inl rfl))
      rw [Matcher.atSingleEquals, beq_eq_false_iff_ne.mpr hhead, Bool.false_and]
    have hall : Matcher.all = (Matcher.all.take 8 ++ [.letBinding, .assign]) ++
        .variableName :: Matcher.all.drop 11 := rfl
    refine pieces (Scanner.next?_of_scan hall (fun m hm => ?_) ?_)
    · rcases List.mem_append.mp hm with hm | hm
      · exact Matcher.scan_name hs hbuiltins hlist hne hname hkeywords hrest (ends '(' (.inl rfl))
          (ends '.' (.inr (.inr rfl))) m hm
      · simp only [List.mem_cons, List.not_mem_nil, or_false] at hm
        rcases hm with rfl | rfl
        · exact Matcher.scanNamed_eq_none hname hletters hrest fun _ => hequals
        · simp [Matcher.scan, Matcher.scanAssign, hdeclared, hadvance, hequals]
    · simp [Matcher.scan, hdeclared, Matcher.plain]
  · rintro more rfl hmore hlet
    have hrest : EndsName ('=' :: more) := by
      rintro ch ⟨⟩
      rfl
    have hequals : Matcher.atSingleEquals ((Cursor.start (name ++ '=' :: more)).skip name.length) = true := by
      simp [Matcher.atSingleEquals, Cursor.peek?, Cursor.peekSecond?, hmore]
    have hall : Matcher.all = (Matcher.all.take 8 ++ [.letBinding]) ++ .assign :: Matcher.all.drop 10 := rfl
    intro fuel
    have hlength : name.length + 1 = (name ++ ['=']).length := by simp
    rw [hlength]
    refine pieces (Scanner.next?_of_scan hall (fun m hm => ?_) ?_) fuel
    · rcases List.mem_append.mp hm with hm | hm
      · exact Matcher.scan_name hs hbuiltins hlist hne hname hkeywords hrest (by simp) (by simp) m hm
      · rw [List.mem_singleton.mp hm]
        exact Matcher.scanNamed_eq_none hname hletters hrest fun hfront => absurd hfront hlet
    · simp [Matcher.scan, Matcher.scanAssign, hdeclared, hadvance, hequals]

/-- A name that begins like a function header and like a call is read as declared after its binding. -/
theorem declared_name_resolves_functional :
    let s := (Scanner.start ["fun"]).commit ⟨.letName, "functional"⟩
    s.Reachable ["fun"] ∧
      s.pieces 1 (.start "functional;".toList) =
        [.token .variableName ⟨⟨.variableName, "functional"⟩, "functional".toList⟩] ∧
      s.pieces 1 (.start "functional=2".toList) =
        [.token .assign ⟨⟨.assign, "functional"⟩, "functional=".toList⟩] := by
  intro s
  have hbuiltins : ∀ name ∈ ["fun"], Named name.toList := by decide +kernel
  have hs : s.Reachable ["fun"] :=
    @Scanner.Reachable.commit _ _ "letfunctional=1".toList .letBinding
      ⟨⟨.letName, "functional"⟩, "letfunctional=".toList⟩ .start (by decide +kernel)
  have hname : Named "functional".toList := by decide +kernel
  have hkeywords : ∀ word ∈ ["true", "false", "return", "for", "while"],
      ¬word.toList <+: "functional".toList := by decide +kernel
  have htext : (Cursor.start "functional;".toList).rest = "functional".toList ++ [';'] := by decide +kernel
  have htext' : (Cursor.start "functional=2".toList).rest = "functional".toList ++ ['=', '2'] := by
    decide +kernel
  have hread := declared_name_resolves hbuiltins hs rfl htext hname (by decide +kernel) hkeywords
  have hwrite := declared_name_resolves hbuiltins hs rfl htext' hname (by decide +kernel) hkeywords
  have hends : ∀ ch ∈ [';'].head?, isNameChar ch = false ∧ ch ≠ '(' ∧ ch ≠ '=' ∧ ch ≠ '.' := by
    rintro ch ⟨⟩
    decide +kernel
  exact ⟨hs, hread.1 hends 0, hwrite.2 ['2'] rfl (by decide) (by decide +kernel) 0⟩

end HostScript
