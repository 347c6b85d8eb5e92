import HostScript.Builtin
import HostScript.Proofs.Arithmetic.Syntax
import HostScript.Proofs.Text.Quotations
import HostScript.Proofs.Token.Pieces

/-!
# Scanning arithmetic

White space is gone before a text is scanned, so what keeps `-`, `--` and the sign of a numeral apart is
the token before them. A minus behind an operand subtracts, also if a sign comes next, and a minus
anywhere else belongs to the numeral that it begins. As a tree is written, an operand is followed by an
operator, a parenthesis or the end, and an operator by an operand, so every word is read as the token that
it was written for.
-/
namespace HostScript

open Text

namespace Scanner

/-- Tokens that are read off a text one after the other, where nothing is skipped. -/
inductive Scans : Scanner → List Char → List Token → Prop where
  | done {s : Scanner} : Scans s [] []
  | token {s : Scanner} {input : List Char} {m : Matcher} {l : Lexeme} {ts : List Token}
    (h : s.next? input = some (m, l))
    (hts : Scans (s.commit l.token) (input.drop l.spelling.length) ts) :
    Scans s input (l.token :: ts)

theorem Scans.cuts {s : Scanner} {text : List Char} {ts : List Token} (h : s.Scans text ts)
    (position : Nat) :
    ∃ ps, s.Cuts ⟨position, text⟩ ps ∧ ps.filterMap Piece.token? = ts := by
  induction h generalizing position with
  | done => exact ⟨[], .done rfl, rfl⟩
  | @token s input m l ts h _ ih =>
    obtain ⟨ps, hps, htokens⟩ := ih (position + byteLength (input.take l.spelling.length))
    refine ⟨.token m l :: ps, .token h hps, ?_⟩
    rw [← htokens]
    rfl

/-- The state of a scan that has met no declaration, where only words can be called. -/
structure Plain (s : Scanner) : Prop where
  undeclared : s.variableNames = {}
  scope : s.scope = none
  header : ∀ t ∈ s.tokens, t.kind ≠ .function
  names : ∀ name, s.functionNames.contains name → name.head?.any Char.isAlpha

end Scanner

theorem tokenize_of_scans {builtins : List String} {source : String} {ts : List Token}
    (h : (Scanner.start builtins).Scans (stripBlanks source.toList) ts) :
    (tokenize builtins source).tokens = ts := by
  obtain ⟨ps, hps, htokens⟩ := h.cuts 0
  rw [Tokenized.tokens, (tokenize_cuts builtins source).unique .start hps, htokens]

section

/-! What begins with no letter is a number or punctuation, unless something is declared. -/

variable {s : Scanner} {c : Char} {cs : List Char}

theorem not_prefix_of_isAlpha {word : List Char} (hword : word.head?.any Char.isAlpha)
    (hc : c.isAlpha = false) : ¬word <+: c :: cs := by
  intro hfront
  cases word with
  | nil => cases hword
  | cons d ds =>
    obtain ⟨rfl, _⟩ := List.cons_prefix_cons.mp hfront
    rw [List.head?_cons, Option.any_some, hc] at hword
    cases hword

theorem Matcher.scanKeyword_eq_none_of_isAlpha (hc : c.isAlpha = false) : scanKeyword (c :: cs) = none := by
  have hletters : ∀ k ∈ keywords, k.1.head?.any Char.isAlpha := by decide
  exact scanKeyword_eq_none fun k hk => not_prefix_of_isAlpha (hletters k hk) hc

theorem Scanner.Plain.longestMatch_eq_none (hs : s.Plain) (hc : c.isAlpha = false) :
    s.functionNames.longestMatch (c :: cs) = none := by
  cases hmatch : s.functionNames.longestMatch (c :: cs) with
  | none => rfl
  | some name =>
    obtain ⟨_, hfront, hcontains⟩ := Trie.of_longestMatch hmatch
    exact absurd hfront (not_prefix_of_isAlpha (hs.names name hcontains) hc)

theorem Scanner.Plain.declared?_eq_none (hs : s.Plain) : s.declared? (c :: cs) = none := by
  simp [declared?, hs.undeclared, activeParameters, hs.scope, Trie.longestMatch, TrieNode.longestMatch,
    Forest.child?, longer]

theorem Scanner.Plain.inParameterList_eq_false (hs : s.Plain) : s.inParameterList = false := by
  unfold inParameterList
  split
  · rename_i paren header rest hdrop
    have hsuffix : paren :: header :: rest <:+ s.tokens := hdrop ▸ List.dropWhile_suffix _
    have hmem : header ∈ s.tokens := hsuffix.subset (by simp)
    simp [hs.header header hmem]
  · rfl

/-- The categories that read names and are tried before numbers. -/
def Matcher.naming : List Matcher :=
  [query, functionHeader, parameter, call, letBinding, assign, variableName]

theorem Scanner.Plain.scan_naming (hs : s.Plain) (hc : c.isAlpha = false) {m : Matcher}
    (hm : m ∈ Matcher.naming) : m.scan s (c :: cs) = none := by
  have named {word : List Char} (hword : word.head?.any Char.isAlpha) (kind : Kind)
      (follows : Cursor → Bool) (tail : List Char) :
      Matcher.scanNamed kind word follows tail (c :: cs) = none := by
    rw [Matcher.scanNamed, Cursor.eat?_eq_none (not_prefix_of_isAlpha hword hc)]
  simp only [Matcher.naming, List.mem_cons, List.not_mem_nil, or_false] at hm
  rcases hm with rfl | rfl | rfl | rfl | rfl | rfl | rfl
  · rw [Matcher.scan, named rfl, named rfl, ite_self]
  · rw [Matcher.scan, named rfl]
  · simp [Matcher.scan, Matcher.scanParameter, hs.inParameterList_eq_false]
  · simp [Matcher.scan, Matcher.scanCall, hs.longestMatch_eq_none hc]
  · rw [Matcher.scan, named rfl]
  · simp [Matcher.scan, Matcher.scanAssign, hs.declared?_eq_none]
  · simp [Matcher.scan, hs.declared?_eq_none]

end

section

/-! The characters of numerals. -/

/-- Text that does not go on with the digits or the point of a numeral. -/
def Stops (rest : List Char) : Prop := ∀ c ∈ rest.head?, isNumberChar c = false

theorem Stops.nil : Stops [] := nofun

theorem Stops.cons {c : Char} (hc : isNumberChar c = false) (rest : List Char) : Stops (c :: rest) := by
  intro d hd
  cases hd
  exact hc

theorem toNat_of_isDigit {c : Char} (h : c.isDigit) : 48 ≤ c.toNat ∧ c.toNat ≤ 57 := by
  simp only [Char.isDigit, Bool.and_eq_true, decide_eq_true_eq] at h
  exact h

theorem isAlpha_of_isDigit {c : Char} (h : c.isDigit) : c.isAlpha = false := by
  have hrange := toNat_of_isDigit h
  have hupper : c.isUpper = decide (65 ≤ c.toNat ∧ c.toNat ≤ 90) := rfl
  have hlower : c.isLower = (decide (97 ≤ c.toNat) && decide (c.toNat ≤ 122)) := rfl
  have halpha : c.isAlpha = (c.isUpper || c.isLower) := rfl
  rw [halpha, hupper, hlower]
  simp
  omega

theorem isAlpha_of_isNumberChar {c : Char} (h : isNumberChar c) : c.isAlpha = false := by
  rcases (Bool.or_eq_true _ _).mp h with hdigit | hpoint
  · exact isAlpha_of_isDigit hdigit
  · rw [beq_iff_eq.mp hpoint]
    rfl

theorem isLetter_of_isDigit {c : Char} (h : c.isDigit) : isLetter c = false := by
  have hrange := toNat_of_isDigit h
  have hsmall : c.toNat < 0x80 := by omega
  rw [isLetter, if_pos hsmall]
  exact isAlpha_of_isDigit h

theorem isBlank_of_isDigit {c : Char} (h : c.isDigit) : isBlank c = false := by
  have hrange := toNat_of_isDigit h
  simp only [isBlank, inRanges, blankRanges, List.any_cons, List.any_nil]
  simp
  omega

theorem Numeral.ne_minus (n : Numeral) {c : Char} (hc : c ∈ n.digits) : c ≠ '-' ∧ c ≠ '=' := by
  have hnumber := n.isNumber c hc
  constructor
  · rintro rfl
    cases hnumber
  · rintro rfl
    cases hnumber

theorem Numeral.takeWhile_digits (n : Numeral) {rest : List Char} (hrest : Stops rest) :
    (n.digits ++ rest).takeWhile isNumberChar = n.digits :=
  takeWhile_append_of_head? n.isNumber hrest

/-- A numeral is a symbol as a whole, as long as no digit or point follows it. -/
theorem Numeral.first?_characters (n : Numeral) {rest : List Char} (hrest : Stops rest) :
    Symbol.first? (n.characters ++ rest) = some (.number, n.characters) := by
  have htake := n.takeWhile_digits hrest
  obtain ⟨d, hd, _⟩ := n.nonempty
  obtain ⟨c, cs, hdigits⟩ := List.exists_cons_of_ne_nil (List.ne_nil_of_mem hd)
  have hc : c ∈ n.digits := hdigits ▸ List.mem_cons_self
  have hnumber := n.isNumber c hc
  unfold Numeral.characters
  cases n.negative with
  | false =>
    rw [hdigits, List.cons_append, List.takeWhile_cons, hnumber] at htake
    simp only [Bool.false_eq_true, ↓reduceIte, hdigits, List.cons_append, Symbol.first?, hnumber] at htake ⊢
    rw [htake]
  | true =>
    have hminus : Symbol.minus (n.digits ++ rest) = (.number, '-' :: n.digits) := by
      unfold Symbol.minus
      rw [htake, hdigits]
      split
      · rename_i heq
        exact absurd (List.cons.inj heq).1 (n.ne_minus hc).1
      · rename_i heq
        exact absurd (List.cons.inj heq).1 (n.ne_minus hc).2
      · rfl
    exact congrArg some hminus

/-- The point that a numeral begins with is no access to a member. -/
theorem Numeral.scanAccess_characters (n : Numeral) (rest : List Char) :
    Matcher.scanAccess (n.characters ++ rest) = none := by
  unfold Numeral.characters
  cases n.negative with
  | true => rfl
  | false =>
    obtain ⟨d, hd, hdigit⟩ := n.nonempty
    obtain ⟨c, cs, hdigits⟩ := List.exists_cons_of_ne_nil (List.ne_nil_of_mem hd)
    simp only [Bool.false_eq_true, ↓reduceIte, hdigits, List.cons_append]
    by_cases hc : c = '.'
    · subst hc
      have hbehind := n.dropWhile_isDigit
      have hpoint : ('.' :: cs).dropWhile Char.isDigit = '.' :: cs := rfl
      rw [hdigits, hpoint] at hbehind
      obtain ⟨ds, hds, hall⟩ := hbehind.resolve_left (List.cons_ne_nil _ _)
      obtain rfl := (List.cons.inj hds).2
      have hmem : d ∈ cs := by
        rw [hdigits] at hd
        refine (List.mem_cons.mp hd).resolve_left ?_
        rintro rfl
        cases hdigit
      obtain ⟨e, es, rfl⟩ := List.exists_cons_of_ne_nil (List.ne_nil_of_mem hmem)
      have he := hall e List.mem_cons_self
      have hunderscore : e ≠ '_' := by
        rintro rfl
        cases he
      simp [Matcher.scanAccess, Cursor.peek?, Cursor.peekSecond?, isLetter_of_isDigit he, hunderscore]
    · simp [Matcher.scanAccess, Cursor.peek?, hc]

theorem Numeral.isAlpha_head (n : Numeral) :
    ∃ c cs, n.characters = c :: cs ∧ c.isAlpha = false := by
  unfold Numeral.characters
  cases n.negative with
  | true => exact ⟨'-', n.digits, rfl, rfl⟩
  | false =>
    obtain ⟨d, hd, _⟩ := n.nonempty
    obtain ⟨c, cs, hdigits⟩ := List.exists_cons_of_ne_nil (List.ne_nil_of_mem hd)
    exact ⟨c, cs, hdigits, isAlpha_of_isNumberChar (n.isNumber c (hdigits ▸ List.mem_cons_self))⟩

end

section

/-! One word: what is read where a word of arithmetic comes next. -/

variable {s : Scanner} {input spelling : List Char} {k : Kind}

theorem Matcher.scanSubtraction_eq_none (h : s.afterOperand = false) : scanSubtraction s input = none := by
  unfold scanSubtraction
  split
  · split
    · simp [h]
    · rfl
  · rfl

theorem Scanner.next?_punctuation {c : Char} {cs : List Char} (hc : c.isAlpha = false)
    (hsubtraction : Matcher.scanSubtraction s (c :: cs) = none)
    (hfirst : Symbol.first? (c :: cs) = some (k, spelling)) (hk : (Symbol.punctuation? k).isSome) :
    s.next? (c :: cs) = some (.punctuation, Matcher.plain k spelling) := by
  have hall : Matcher.all = [.keyword, .subtraction] ++ .punctuation :: Matcher.all.drop 3 := rfl
  refine next?_of_scan hall ?_ ?_
  · intro m hm
    simp only [List.mem_cons, List.not_mem_nil, or_false] at hm
    rcases hm with rfl | rfl
    · exact Matcher.scanKeyword_eq_none_of_isAlpha hc
    · exact hsubtraction
  · simp only [Matcher.scan, Matcher.scanSymbol, hfirst, hk, if_true]

/-- A minus between an operand and a numeral, with or without a sign of its own. -/
theorem Scanner.next?_subtraction (hafter : s.afterOperand = true)
    (hfirst : Symbol.first? input = some (.number, spelling)) :
    s.next? ('-' :: input) = some (.subtraction, Matcher.plain .minus ['-']) := by
  have hall : Matcher.all = [.keyword] ++ .subtraction :: Matcher.all.drop 2 := rfl
  refine next?_of_scan hall ?_ ?_
  · intro m hm
    rw [List.mem_singleton.mp hm]
    exact Matcher.scanKeyword_eq_none_of_isAlpha rfl
  · simp only [Matcher.scan, Matcher.scanSubtraction, hfirst, hafter, if_true]

theorem Scanner.Plain.next?_numeral (hs : s.Plain) (hafter : s.afterOperand = false) (n : Numeral)
    {rest : List Char} (hrest : Stops rest) :
    s.next? (n.characters ++ rest) = some (.number, Matcher.plain .number n.characters) := by
  have hfirst := n.first?_characters hrest
  have haccess := n.scanAccess_characters rest
  obtain ⟨c, cs, hcharacters, hc⟩ := n.isAlpha_head
  have hall : Matcher.all = Matcher.all.take 11 ++ .number :: Matcher.all.drop 12 := rfl
  have hearlier : ∀ m ∈ Matcher.all.take 11, m ∈ Matcher.naming ∨ m = .keyword ∨ m = .subtraction ∨
      m = .punctuation ∨ m = .access := by decide
  refine next?_of_scan hall (fun m hm => ?_) ?_
  · rcases hearlier m hm with hm | rfl | rfl | rfl | rfl
    · rw [hcharacters]
      exact hs.scan_naming hc hm
    · rw [hcharacters]
      exact Matcher.scanKeyword_eq_none_of_isAlpha hc
    · exact Matcher.scanSubtraction_eq_none hafter
    · simp [Matcher.scan, Matcher.scanSymbol, hfirst, Symbol.punctuation?]
    · exact haccess
  · simp [Matcher.scan, Matcher.scanSymbol, hfirst]

end

section

/-! Trees: an operand is read where one may begin, and the scan goes on behind it. -/

/-- The characters of tokens that are spelled by their texts. -/
def spell (ts : List Token) : List Char := ts.flatMap fun t => t.text.toList

/-- Text that an operand begins. -/
def BeginsOperand (text : List Char) : Prop :=
  (∃ rest, text = '(' :: rest) ∨ ∃ spelling, Symbol.first? text = some (.number, spelling)

/-- Tokens that are read as an operand, wherever one may begin and whatever follows it. -/
def ReadsOperand (us : List Token) : Prop :=
  ∀ (s : Scanner) (rest : List Char) (ts : List Token), s.Plain → s.afterOperand = false → Stops rest →
    (∀ s' : Scanner, s'.Plain → s'.afterOperand = true → s'.Scans rest ts) →
      s.Scans (spell us ++ rest) (us ++ ts)

/-- Whether a token of this kind can occur in arithmetic. -/
def Kind.arithmetic : Kind → Bool
  | .number | .plus | .minus | .star | .slash | .caret | .percent | .less | .greater | .leftParen
  | .rightParen => true
  | _ => false

theorem Scanner.Plain.commit {s : Scanner} (hs : s.Plain) {t : Token} (ht : t.kind.arithmetic) :
    (s.commit t).Plain := by
  have hlearn : s.learn t = s := by
    unfold Scanner.learn
    cases hk : t.kind with
    | function | parameter | forWord | whileWord | letName | importName | leftScope | rightScope =>
      rw [hk] at ht
      cases ht
    | _ => rfl
  unfold Scanner.commit
  rw [hlearn]
  refine { hs with header := fun u hu => ?_ }
  rcases List.mem_cons.mp hu with rfl | hu
  · intro hk
    rw [hk] at ht
    cases ht
  · exact hs.header u hu

theorem Scanner.Scans.word {s : Scanner} {t : Token} {m : Matcher} {rest : List Char} {ts : List Token}
    (h : s.next? (t.text.toList ++ rest) = some (m, ⟨t, t.text.toList⟩))
    (hts : (s.commit t).Scans rest ts) : s.Scans (t.text.toList ++ rest) (t :: ts) := by
  refine .token h ?_
  rw [List.drop_left]
  exact hts

theorem ReadsOperand.numeral (n : Numeral) : ReadsOperand [n.token] := by
  intro s rest ts hs hafter hrest hts
  have hspell : spell [n.token] = n.token.text.toList := by simp [spell]
  have htext : n.token.text.toList = n.characters := by simp [Numeral.token]
  rw [hspell]
  refine .word (m := .number) ?_ (hts _ (hs.commit rfl) rfl)
  rw [htext, hs.next?_numeral hafter n hrest]
  rfl

/-- A token of one character that is no minus before a numeral. -/
theorem Scanner.Scans.symbol {s : Scanner} {k : Kind} {c : Char} {rest : List Char} {ts : List Token}
    (htext : k.token.text.toList = [c]) (hc : c.isAlpha = false)
    (hsubtraction : Matcher.scanSubtraction s (c :: rest) = none)
    (hfirst : Symbol.first? (c :: rest) = some (k, [c])) (hk : (Symbol.punctuation? k).isSome)
    (hts : (s.commit k.token).Scans rest ts) : s.Scans (k.token.text.toList ++ rest) (k.token :: ts) := by
  have hnext := next?_punctuation hc hsubtraction hfirst hk
  have hplain : Matcher.plain k [c] = ⟨k.token, k.token.text.toList⟩ := by
    rw [← htext, Matcher.plain, String.ofList_toList]
    rfl
  refine .word (m := .punctuation) ?_ hts
  rw [← hplain, htext]
  exact hnext

theorem ReadsOperand.parens {us : List Token} (h : ReadsOperand us) : ReadsOperand (parens us) := by
  intro s rest ts hs hafter hrest hts
  have hspell : spell (HostScript.parens us) ++ rest =
      Kind.leftParen.token.text.toList ++ (spell us ++ (Kind.rightParen.token.text.toList ++ rest)) := by
    simp [spell, HostScript.parens]
  have htokens : HostScript.parens us ++ ts =
      Kind.leftParen.token :: (us ++ Kind.rightParen.token :: ts) := by
    simp [HostScript.parens]
  rw [hspell, htokens]
  refine .symbol rfl rfl rfl rfl rfl ?_
  refine h _ _ _ (hs.commit rfl) rfl (Stops.cons rfl rest) fun s' hs' _ => ?_
  exact .symbol rfl rfl rfl rfl rfl (hts _ (hs'.commit rfl) rfl)

theorem BeginsOperand.plus_eq {text : List Char} (h : BeginsOperand text) :
    Symbol.plus text = (.plus, ['+']) := by
  unfold Symbol.plus
  split
  · rename_i rest
    rcases h with ⟨_, heq⟩ | ⟨spelling, hfirst⟩
    · cases heq
    · have hplus : (Symbol.plus rest).1 = .number := congrArg Prod.fst (Option.some.inj hfirst)
      unfold Symbol.plus at hplus
      split at hplus <;> cases hplus
  · rcases h with ⟨_, heq⟩ | ⟨spelling, hfirst⟩
    · cases heq
    · cases hfirst
  · rfl

/-- An operator between two operands is read as such, the minus also if the numeral behind it has a
sign. -/
theorem Scanner.Scans.operator {s : Scanner} (hafter : s.afterOperand = true) (op : Operator)
    {rest : List Char} (hrest : BeginsOperand rest) {ts : List Token}
    (hts : (s.commit op.kind.token).Scans rest ts) :
    s.Scans (op.kind.token.text.toList ++ rest) (op.kind.token :: ts) := by
  cases op with
  | mul | div | pow | mod | less | greater => exact .symbol rfl rfl rfl rfl rfl hts
  | add => exact .symbol rfl rfl rfl (congrArg some hrest.plus_eq) rfl hts
  | sub =>
    rcases hrest with ⟨rest, rfl⟩ | ⟨spelling, hfirst⟩
    · exact .symbol rfl rfl rfl rfl rfl hts
    · exact .word (m := .subtraction) (next?_subtraction hafter hfirst) hts

theorem ReadsOperand.join {us vs : List Token} (hus : ReadsOperand us) (hvs : ReadsOperand vs)
    (hbegins : ∀ rest, Stops rest → BeginsOperand (spell vs ++ rest)) (op : Operator) :
    ReadsOperand (us ++ op.kind.token :: vs) := by
  intro s rest ts hs hafter hrest hts
  have hspell : spell (us ++ op.kind.token :: vs) ++ rest =
      spell us ++ (op.kind.token.text.toList ++ (spell vs ++ rest)) := by
    simp [spell]
  have hstops : Stops (op.kind.token.text.toList ++ (spell vs ++ rest)) := by
    cases op <;> exact Stops.cons rfl _
  have hkind : op.kind.arithmetic ∧ op.kind.endsOperand = false := by
    cases op <;> decide
  rw [hspell, List.append_assoc]
  refine hus s _ _ hs hafter hstops fun s' hs' hafter' => ?_
  refine .operator hafter' op (hbegins rest hrest) ?_
  exact hvs _ rest ts (hs'.commit hkind.1) hkind.2 hrest hts

namespace Arithmetic

theorem beginsOperand (e : Arithmetic) (rest : List Char) (hrest : Stops rest) :
    BeginsOperand (spell e.operand ++ rest) := by
  cases e with
  | literal n =>
    have hspell : spell (literal n).operand = n.characters := by simp [spell, operand, Numeral.token]
    rw [hspell]
    exact .inr ⟨_, n.first?_characters hrest⟩
  | binary op left right => exact .inl ⟨_, rfl⟩

theorem readsOperand (e : Arithmetic) : ReadsOperand e.operand := by
  induction e with
  | literal n => exact .numeral n
  | binary op left right ihleft ihright => exact (ihleft.join ihright right.beginsOperand op).parens

theorem readsOperand_print (e : Arithmetic) : ReadsOperand e.print := by
  cases e with
  | literal n => exact .numeral n
  | binary op left right => exact left.readsOperand.join right.readsOperand right.beginsOperand op

end Arithmetic

end

section

/-! White space is removed, and nothing else. -/

/-- A character that is neither white space nor a quote. -/
def isSolid (c : Char) : Bool := !isBlank c && c != '"'

theorem stripFrom_solid {word : List Char} (hword : word.all isSolid) (rest : List Char) :
    stripFrom false (word ++ rest) = word ++ stripFrom false rest := by
  induction word with
  | nil => rfl
  | cons c word ih =>
    obtain ⟨hc, hword⟩ := (Bool.and_eq_true _ _).mp hword
    obtain ⟨hblank, hquote⟩ : isBlank c = false ∧ c ≠ '"' := by simpa [isSolid] using hc
    rw [List.cons_append, stripFrom_false_cons hquote, hblank, ih hword]
    rfl

theorem Spaced.stripBlanks_eq {words : List String} {text : List Char} (h : Spaced words text)
    (hwords : ∀ word ∈ words, word.toList.all isSolid) :
    stripBlanks text = words.flatMap String.toList := by
  unfold stripBlanks
  induction h with
  | done gap hgap =>
    have hstrip := stripFrom_blank hgap []
    rw [List.append_nil] at hstrip
    exact hstrip
  | word gap word hgap _ ih =>
    rw [stripFrom_blank hgap, stripFrom_solid (hwords word List.mem_cons_self), List.flatMap_cons,
      ih fun w hw => hwords w (List.mem_cons_of_mem word hw)]

theorem Numeral.all_isSolid (n : Numeral) : n.characters.all isSolid := by
  have hdigits : n.digits.all isSolid := by
    rw [List.all_eq_true]
    intro c hc
    by_cases hpoint : c = '.'
    · rw [hpoint]
      rfl
    · have hdigit := n.isDigit_of_ne_point hc hpoint
      have hquote : c ≠ '"' := by
        rintro rfl
        cases hdigit
      simp [isSolid, isBlank_of_isDigit hdigit, hquote]
  unfold characters
  split
  · exact hdigits
  · exact hdigits

namespace Arithmetic

theorem all_isSolid_operand (e : Arithmetic) {t : Token} (ht : t ∈ e.operand) :
    t.text.toList.all isSolid := by
  induction e with
  | literal n =>
    rw [operand, List.mem_singleton] at ht
    subst ht
    rw [Numeral.token, String.toList_ofList]
    exact n.all_isSolid
  | binary op left right ihleft ihright =>
    simp only [operand, parens, List.mem_append, List.mem_cons, List.not_mem_nil, or_false] at ht
    rcases ht with (rfl | ht | rfl | ht) | rfl
    · rfl
    · exact ihleft ht
    · cases op <;> rfl
    · exact ihright ht
    · rfl

theorem mem_operand_of_mem_print {e : Arithmetic} {t : Token} (ht : t ∈ e.print) : t ∈ e.operand := by
  cases e with
  | literal n => exact ht
  | binary op left right =>
    rw [operand, parens]
    exact List.mem_append_left _ (List.mem_cons_of_mem _ ht)

end Arithmetic

end

section

/-! The names of the standard functions begin with letters, so no numeral is taken for a call. -/

variable {σ : Type}

theorem Registry.mem_foldl_insert {entries : List (String × Builtin σ)} {registry : Registry σ}
    {name : String}
    (h : name ∈ entries.foldl (fun registry entry => registry.insert entry.1 entry.2) registry) :
    name ∈ registry ∨ name ∈ entries.map Prod.fst := by
  induction entries generalizing registry with
  | nil => exact .inl h
  | cons entry entries ih =>
    rcases ih h with hmem | hmem
    · rcases Std.ExtTreeMap.mem_insert.mp hmem with heq | hmem
      · obtain rfl := Std.LawfulEqCmp.eq_of_compare heq
        exact .inr List.mem_cons_self
      · exact .inl hmem
    · exact .inr (List.mem_cons_of_mem _ hmem)

theorem Registry.head_standard [Host σ] {name : String}
    (h : name ∈ (Registry.standard : Registry σ).names) : name.toList.head?.any Char.isAlpha := by
  have hmem := mem_foldl_insert (Std.ExtTreeMap.mem_keys.mp h)
  have hnames : (standardEntries : List (String × Builtin σ)).map Prod.fst =
      ["sin", "cos", "tan", "sqrt", "abs", "exp", "int", "frac", "sign", "pow", "clamp", "lerp",
        "bez_curve_x", "bez_curve_y", "debug"] := rfl
  have hletters : ∀ word ∈ (standardEntries : List (String × Builtin σ)).map Prod.fst,
      word.toList.head?.any Char.isAlpha := by
    rw [hnames]
    decide
  exact hletters name (hmem.resolve_left (by simp))

theorem Scanner.plain_start {builtins : List String}
    (h : ∀ name ∈ builtins, name.toList.head?.any Char.isAlpha) : (Scanner.start builtins).Plain where
  undeclared := rfl
  scope := rfl
  header := nofun
  names name hname := by
    obtain ⟨word, hword, rfl⟩ := List.mem_map.mp (Trie.contains_ofList.mp hname)
    exact h word hword

end

/-- Arithmetic is scanned to the tokens that it was written for, whatever the white space. -/
theorem tokenize_arithmetic (σ : Type) [Host σ] (e : Arithmetic) {source : String}
    (h : Spaced (e.print.map Token.text) source.toList) :
    (tokenize (Registry.standard : Registry σ).names source).tokens = e.print := by
  apply tokenize_of_scans
  have hsolid : ∀ word ∈ e.print.map Token.text, word.toList.all isSolid := by
    intro word hword
    obtain ⟨t, ht, rfl⟩ := List.mem_map.mp hword
    exact e.all_isSolid_operand (Arithmetic.mem_operand_of_mem_print ht)
  have hspell : stripBlanks source.toList = spell e.print := by
    rw [h.stripBlanks_eq hsolid, List.flatMap_map]
    rfl
  have hscans := e.readsOperand_print (Scanner.start (Registry.standard : Registry σ).names) [] []
    (Scanner.plain_start fun _ => Registry.head_standard) rfl .nil fun _ _ _ => .done
  rw [hspell]
  simpa using hscans

end HostScript
