import HostScript.Event
import HostScript.Proofs.Text.Quotations
import HostScript.Proofs.Token.Names

/-!
# Quoted literals

Apart from a directive, which goes on to the end of its statement, no token has a double quote in its
text. So the scan meets the quotes of a script only where quoted literals begin and end, and it pairs them
as they are paired in the text. What it reads outside of the literals has no white space left.
-/
namespace HostScript

open Text

/-- The kinds of tokens that go on to the end of a statement, whatever stands there. -/
def Kind.isDirective : Kind → Bool
  | .namespaceName | .usingName | .importName => true
  | _ => false

namespace Matcher

variable {builtins : List String} {s : Scanner} {input : List Char} {l : Lexeme}

/-- A category that reads no directive reads a token without a quote in its text. -/
theorem scan_unquoted (m : Matcher) (hs : s.Reachable builtins)
    (hbuiltins : ∀ name ∈ builtins, '"' ∉ name.toList) (hread : ∀ t ∈ s.tokens, '"' ∉ t.text.toList)
    (h : m.scan s input = some l) (hkind : l.token.kind.isDirective = false) :
    '"' ∉ l.token.text.toList := by
  have named (hnamed : ∀ c ∈ l.token.text.toList, isNameChar c) : '"' ∉ l.token.text.toList :=
    fun hquote => by cases hnamed '"' hquote
  have written {word : String} (hword : l.token.kind.written? = some word) (hquote : '"' ∉ word.toList) :
      '"' ∉ l.token.text.toList := by
    rwa [(scan_fits hs.parametersNonempty m h).written word hword]
  have declared (hlooksUp : l.token.kind.looksUp) : '"' ∉ l.token.text.toList := by
    rcases scan_looksUp m h hlooksUp with hvariable | hparameter
    · obtain ⟨t, ht, rfl | ⟨_, himport⟩⟩ := hs.declares hvariable
      · exact hread ⟨.letName, _⟩ ht
      · rw [← himport]
        exact fun hquote => hread t ht ((List.takeWhile_prefix _).subset hquote)
    · unfold Scanner.activeParameters at hparameter
      split at hparameter
      · exact hread ⟨.parameter, _⟩ (hs.recorded hparameter)
      · cases hparameter
  cases hk : l.token.kind with
  | number =>
    obtain ⟨digits, _, hdigits, htext⟩ := scan_number m h hk
    have hquote : '"' ∉ digits := fun hquote => by cases hdigits '"' hquote
    rcases htext with htext | htext
    all_goals simpa [htext] using hquote
  | text => exact scan_text m h hk
  | query | access | function | parameter | letName => exact named (scan_isNameChar m h (by rw [hk]; rfl))
  | variableName | assign => exact declared (by rw [hk]; rfl)
  | call =>
    rcases hs.knows.1 _ (scan_call m h hk) with hbuiltin | hheader
    · exact hbuiltins _ hbuiltin
    · exact hread ⟨.function, _⟩ hheader
  | namespaceName | usingName | importName =>
    rw [hk] at hkind
    cases hkind
  | _ => exact written (by rw [hk]; rfl) (by decide)

end Matcher

/-- The texts of the tokens of a scan have no quotes if those of its directives have none. -/
theorem Scanner.Reachable.unquoted {builtins : List String} {s : Scanner} (hs : Reachable builtins s)
    (hbuiltins : ∀ name ∈ builtins, '"' ∉ name.toList)
    (hdirectives : ∀ t ∈ s.tokens, t.kind.isDirective → '"' ∉ t.text.toList) :
    ∀ t ∈ s.tokens, '"' ∉ t.text.toList := by
  induction hs with
  | start => nofun
  | @commit s input m l hs hnext ih =>
    obtain ⟨hnew, hold⟩ := List.forall_mem_cons.mp hdirectives
    refine List.forall_mem_cons.mpr ⟨?_, ih hold⟩
    cases hkind : l.token.kind.isDirective with
    | true => exact hnew hkind
    | false => exact m.scan_unquoted hs hbuiltins (ih hold) (scan_of_next? hnext) hkind

/-- Without a quote in its text, a token other than a quoted literal is written without one. -/
theorem Token.not_mem_spelling {t : Token} (htext : '"' ∉ t.text.toList) (hkind : t.kind ≠ .text)
    {spelling : List Char} (h : spelling ∈ t.spellings) : '"' ∉ spelling := by
  unfold spellings at h
  split at h
  case h_9 => exact absurd ‹_› hkind
  all_goals
    simp only [List.mem_cons, List.not_mem_nil, or_false] at h
    rcases h with rfl | rfl
    all_goals simp [htext]

/-- A quoted literal takes one quotation off the front of the unread text, another token takes none.
What it leaves does not begin inside of a quotation. -/
theorem Lexeme.Fits.quotations {l : Lexeme} {input : List Char} (h : l.Fits input)
    (htext : '"' ∉ l.token.text.toList) :
    ∃ rest, l.spelling ++ rest = input ∧ (rest = [] ∨ quotedAfter false l.spelling = false) ∧
      Text.quotations input =
        (if l.token.kind = .text then [l.token.text.toList] else []) ++ Text.quotations rest := by
  have hcount : l.token.text.toList.count '"' = 0 := List.count_eq_zero.mpr htext
  obtain ⟨rest, hrest⟩ := h.front
  refine ⟨rest, hrest, ?_⟩
  by_cases hkind : l.token.kind = .text
  · have hspelled := h.spelled
    simp only [Token.spellings, hkind, List.mem_cons, List.not_mem_nil, or_false] at hspelled
    rw [if_pos hkind]
    rcases hspelled with hclosed | hopen
    · refine ⟨.inr ?_, ?_⟩
      · simp [hclosed, quotedAfter, hcount]
      · rw [← hrest, hclosed, List.append_assoc]
        exact quotations_closed htext
    · obtain rfl : rest = [] := by simpa [← hrest] using h.closed hkind hopen
      refine ⟨.inl rfl, ?_⟩
      rw [← hrest, hopen, List.append_nil]
      exact quotations_open htext
  · have hspelling := Token.not_mem_spelling htext hkind h.spelled
    rw [if_neg hkind, ← hrest]
    exact ⟨.inr (by simp [quotedAfter, List.count_eq_zero.mpr hspelling]), quotations_append hspelling⟩

/-- A double quote begins a token. -/
theorem Scanner.next?_quote (s : Scanner) (cs : List Char) : s.next? ('"' :: cs) ≠ none := by
  intro h
  have hnone := List.findSome?_eq_none_iff.mp h .text (by decide)
  simp [Matcher.scan, Matcher.scanText] at hnone

section

variable {builtins : List String} {s : Scanner} {c : Cursor} {ps : List Piece}

/-- The quoted literals of a scan are the quotations of the text. -/
theorem Scanner.Cuts.quotations (hs : Reachable builtins s) (h : Cuts s c ps)
    (hunquoted : ∀ t ∈ ps.filterMap Piece.token?, '"' ∉ t.text.toList) :
    ((ps.filterMap Piece.token?).filter (·.kind == .text)).map (·.text.toList) = Text.quotations c.rest := by
  induction h with
  | done hrest => rw [hrest]; rfl
  | @token _ c _ l _ hnext _ ih =>
    obtain ⟨hnew, hold⟩ := List.forall_mem_cons.mp hunquoted
    obtain ⟨rest, hrest, _, hquotations⟩ := (next?_fits hs.parametersNonempty hnext).quotations hnew
    have hskip : (c.skip l.spelling.length).rest = rest := by
      rw [Cursor.rest_skip, ← hrest, List.drop_left]
    have htail := ih (.commit hs hnext) hold
    rw [hskip] at htail
    rw [hquotations, ← htail, List.filterMap_cons]
    simp only [Piece.token?, List.filter_cons, beq_iff_eq]
    split <;> rfl
  | @skipped s c ch cs _ hrest hnext _ ih =>
    have hch : ch ≠ '"' := by
      rintro rfl
      exact s.next?_quote cs (hrest ▸ hnext)
    have htail := ih hs hunquoted
    rw [Cursor.bump, Cursor.rest_skip, hrest] at htail
    rw [hrest, Text.quotations, quotationsFrom_false_cons hch]
    exact htail

/-- In a text without white space outside of quotations, a scan skips none. -/
theorem Scanner.Cuts.not_isBlank (hs : Reachable builtins s) (h : Cuts s c ps)
    (hunquoted : ∀ t ∈ ps.filterMap Piece.token?, '"' ∉ t.text.toList)
    (hstripped : stripFrom false c.rest = c.rest) {position : Nat} {ch : Char}
    (hskipped : .skipped position ch ∈ ps) : isBlank ch = false := by
  induction h with
  | done => cases hskipped
  | @token _ c _ l _ hnext _ ih =>
    obtain ⟨hnew, hold⟩ := List.forall_mem_cons.mp hunquoted
    obtain ⟨rest, hrest, houtside, _⟩ := (next?_fits hs.parametersNonempty hnext).quotations hnew
    refine ih (.commit hs hnext) hold ?_ ((List.mem_cons.mp hskipped).resolve_left nofun)
    rw [Cursor.rest_skip, ← hrest, List.drop_left]
    rcases houtside with rfl | houtside
    · rfl
    · rw [← hrest] at hstripped
      have htail := stripFrom_of_append hstripped
      rwa [houtside] at htail
  | @skipped s c d cs _ hrest hnext _ ih =>
    have hd : d ≠ '"' := by
      rintro rfl
      exact s.next?_quote cs (hrest ▸ hnext)
    rw [hrest, stripFrom_false_cons hd] at hstripped
    split at hstripped
    · have hlen := length_stripFrom_le false cs
      rw [hstripped, List.length_cons] at hlen
      omega
    · rename_i hblank
      rcases List.mem_cons.mp hskipped with heq | hskipped
      · cases heq
        exact Bool.eq_false_iff.mpr hblank
      · refine ih hs hunquoted ?_ hskipped
        rw [Cursor.bump, Cursor.rest_skip, hrest]
        exact (List.cons.inj hstripped).2

end

/-- Quoted literals survive verbatim. If no built-in name and no directive of a script has a double quote,
the texts of its quoted literals are the quotations of the script as it was written, with all of their
white space, and no white space is reported as a skipped character. -/
theorem tokenize_quotations {builtins : List String} {source : String}
    (hbuiltins : ∀ name ∈ builtins, '"' ∉ name.toList)
    (hdirectives : ∀ t ∈ (tokenize builtins source).tokens, t.kind.isDirective → '"' ∉ t.text.toList) :
    ((tokenize builtins source).textsOf .text).map String.toList = quotations source.toList ∧
      ∀ position ch, .skipped position ch ∈ (tokenize builtins source).events → isBlank ch = false := by
  have hcuts := tokenize_cuts builtins source
  have hunquoted : ∀ t ∈ (tokenize builtins source).pieces.filterMap Piece.token?,
      '"' ∉ t.text.toList := by
    obtain ⟨s, hs, htokens⟩ := hcuts.reachable .start
    have hmem (t : Token) : t ∈ s.tokens ↔ t ∈ (tokenize builtins source).pieces.filterMap Piece.token? := by
      rw [htokens]
      simp [Scanner.start]
    intro t ht
    exact hs.unquoted hbuiltins (fun u hu => hdirectives u ((hmem u).mp hu)) t ((hmem t).mpr ht)
  constructor
  · rw [Tokenized.textsOf, List.map_map, ← quotations_stripBlanks]
    exact hcuts.quotations .start hunquoted
  · intro position ch hskipped
    obtain ⟨p, hp, hevent⟩ := List.mem_map.mp hskipped
    cases p with
    | token m l => cases hevent
    | skipped =>
      cases hevent
      exact hcuts.not_isBlank .start hunquoted (stripFrom_stripFrom false source.toList) hp

/-- White space stays in a literal, also in one that the end of the script leaves open, and a directive ends
none. -/
theorem tokenize_quotations_open :
    ((tokenize ["max"] "import pack-query; let s = \"a  b\"; s + \"open end").textsOf .text).map
        String.toList = ["a  b".toList, "open end".toList] ∧
      ∀ position ch,
        .skipped position ch ∈
            (tokenize ["max"] "import pack-query; let s = \"a  b\"; s + \"open end").events →
          isBlank ch = false := by
  have hscan := @tokenize_quotations ["max"] "import pack-query; let s = \"a  b\"; s + \"open end"
    (by decide +kernel) (by decide +kernel)
  exact ⟨hscan.1.trans (by decide +kernel), hscan.2⟩

end HostScript
