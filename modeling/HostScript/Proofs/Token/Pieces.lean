import HostScript.Event
import HostScript.Proofs.Token.Lexeme
import HostScript.Token.Tokenized

/-!
# Cutting a script into pieces

A scan goes on from one state to the next by committing the token it reads, and every state it can get
into records nonempty parameters only. So each piece takes at least one character off the front of the
text: the scan ends, nothing of the text is lost, and no piece begins or ends inside a character.
-/
namespace HostScript

open Text

/-- The states that a scan can get into. -/
inductive Scanner.Reachable (builtins : List String) : Scanner → Prop where
  | start : Reachable builtins (Scanner.start builtins)
  | commit {s : Scanner} {input : List Char} {m : Matcher} {l : Lexeme} (hs : Reachable builtins s)
    (h : s.next? input = some (m, l)) : Reachable builtins (s.commit l.token)

theorem Scanner.ParametersNonempty.commit {s : Scanner} (hs : s.ParametersNonempty) {t : Token}
    (ht : t.kind = .parameter → t.text ≠ "") : (s.commit t).ParametersNonempty := by
  have recorded (function : String) : "" ∉ s.parameters.getD function [] := by
    rw [Std.ExtTreeMap.getD_eq_getD_getElem?]
    cases hnames : s.parameters[function]? with
    | none => simp
    | some names => exact hs function names hnames
  have insert {function : String} {names : List String} (hnames : "" ∉ names) :
      Scanner.ParametersNonempty { s with parameters := s.parameters.insert function names } := by
    intro other others hothers
    simp only [Std.ExtTreeMap.getElem?_insert] at hothers
    split at hothers
    · cases hothers
      exact hnames
    · exact hs other others hothers
  unfold Scanner.commit Scanner.learn
  split
  · exact insert (recorded t.text)
  · split
    · apply insert
      simp only [List.mem_append, List.mem_singleton, not_or]
      exact ⟨recorded _, Ne.symm (ht ‹_›)⟩
    · exact hs
  any_goals exact hs
  split <;> exact hs

theorem Scanner.Reachable.parametersNonempty {builtins : List String} {s : Scanner}
    (h : Reachable builtins s) : s.ParametersNonempty := by
  induction h with
  | start =>
    intro function names hnames
    simp [Scanner.start] at hnames
  | @commit s input m l _ hnext ih =>
    refine ih.commit fun hkind htext => ?_
    have hfits := Scanner.next?_fits ih hnext
    have hspelled := hfits.spelled
    simp only [Token.spellings, hkind, htext, List.mem_singleton] at hspelled
    exact hfits.nonempty hspelled

/-- A scan of the unread text from a state on, without fuel. -/
inductive Scanner.Cuts : Scanner → Cursor → List Piece → Prop where
  | done {s : Scanner} {c : Cursor} (h : c.rest = []) : Cuts s c []
  | token {s : Scanner} {c : Cursor} {m : Matcher} {l : Lexeme} {ps : List Piece}
    (h : s.next? c.rest = some (m, l))
    (hps : Cuts (s.commit l.token) (c.skip l.spelling.length) ps) : Cuts s c (.token m l :: ps)
  | skipped {s : Scanner} {c : Cursor} {ch : Char} {cs : List Char} {ps : List Piece}
    (hrest : c.rest = ch :: cs) (h : s.next? c.rest = none) (hps : Cuts s c.bump ps) :
    Cuts s c (.skipped c.position ch :: ps)

section

variable {builtins : List String} {s : Scanner} {c : Cursor} {ps : List Piece}

theorem Scanner.pieces_of_rest_eq_nil (hrest : c.rest = []) (fuel : Nat) : s.pieces fuel c = [] := by
  cases fuel with
  | zero => rfl
  | succ fuel => simp [pieces, Cursor.atEnd, hrest]

/-- The scan goes on behind a token that it has read. -/
theorem Scanner.pieces_of_next? {m : Matcher} {l : Lexeme} (hne : l.spelling ≠ [])
    (hfront : l.spelling <+: c.rest) (hnext : s.next? c.rest = some (m, l)) (fuel : Nat) :
    s.pieces (fuel + 1) c =
      .token m l :: (s.commit l.token).pieces fuel (c.skip l.spelling.length) := by
  have hunread : c.rest ≠ [] := fun hrest => hne (List.prefix_nil.mp (hrest ▸ hfront))
  simp [pieces, Cursor.atEnd, hunread, hnext, Cursor.advance_of_prefix hfront]

/-- The scan goes on behind a character that it has skipped. -/
theorem Scanner.pieces_of_next?_eq_none {ch : Char} {cs : List Char} (hrest : c.rest = ch :: cs)
    (hnext : s.next? c.rest = none) (fuel : Nat) :
    s.pieces (fuel + 1) c = .skipped c.position ch :: s.pieces fuel c.bump := by
  rw [hrest] at hnext
  simp [pieces, Cursor.atEnd, Cursor.peek?, hrest, hnext]

/-- With a unit of fuel for every character, the scan goes on to the end of the text. -/
theorem Scanner.pieces_cuts (hs : Reachable builtins s) {fuel : Nat} (hfuel : c.rest.length ≤ fuel) :
    Cuts s c (s.pieces fuel c) := by
  induction fuel generalizing s c with
  | zero => exact .done (List.eq_nil_of_length_eq_zero (Nat.le_zero.mp hfuel))
  | succ fuel ih =>
    cases hrest : c.rest with
    | nil =>
      rw [pieces_of_rest_eq_nil hrest]
      exact .done hrest
    | cons ch cs =>
      have hlength : c.rest.length = cs.length + 1 := congrArg List.length hrest
      cases hnext : s.next? c.rest with
      | some read =>
        obtain ⟨m, l⟩ := read
        have hfits := next?_fits hs.parametersNonempty hnext
        have hlen := List.length_pos_iff.mpr hfits.nonempty
        rw [pieces_of_next? hfits.nonempty hfits.front hnext]
        refine .token hnext (ih (.commit hs hnext) ?_)
        rw [Cursor.rest_skip, List.length_drop]
        omega
      | none =>
        rw [pieces_of_next?_eq_none hrest hnext]
        refine .skipped hrest hnext (ih hs ?_)
        rw [Cursor.bump, Cursor.rest_skip, List.length_drop]
        omega

/-- A scan has one result. -/
theorem Scanner.Cuts.unique (hs : Reachable builtins s) {qs : List Piece} (h : Cuts s c ps)
    (h' : Cuts s c qs) : ps = qs := by
  have unread {s : Scanner} {c : Cursor} {m : Matcher} {l : Lexeme} (hs : Reachable builtins s)
      (hrest : c.rest = []) (hnext : s.next? c.rest = some (m, l)) : False := by
    have hfits := next?_fits hs.parametersNonempty hnext
    rw [hrest] at hfits
    exact hfits.nonempty (List.prefix_nil.mp hfits.front)
  induction h generalizing qs with
  | done hrest =>
    cases h' with
    | done => rfl
    | token hnext => exact (unread hs hrest hnext).elim
    | skipped hrest' =>
      rw [hrest] at hrest'
      cases hrest'
  | token hnext _ ih =>
    cases h' with
    | done hrest => exact (unread hs hrest hnext).elim
    | token hnext' hqs =>
      rw [hnext] at hnext'
      cases hnext'
      rw [ih (.commit hs hnext) hqs]
    | skipped _ hnext' =>
      rw [hnext] at hnext'
      cases hnext'
  | skipped hrest hnext _ ih =>
    cases h' with
    | done hrest' =>
      rw [hrest] at hrest'
      cases hrest'
    | token hnext' =>
      rw [hnext] at hnext'
      cases hnext'
    | skipped hrest' _ hqs =>
      rw [hrest] at hrest'
      cases hrest'
      rw [ih hs hqs]

theorem Scanner.Cuts.flatMap_spelling (hs : Reachable builtins s) (h : Cuts s c ps) :
    ps.flatMap Piece.spelling = c.rest := by
  induction h with
  | done hrest => exact hrest.symm
  | token hnext _ ih =>
    rw [List.flatMap_cons, ih (.commit hs hnext)]
    exact Cursor.append_rest_skip (next?_fits hs.parametersNonempty hnext).front
  | skipped hrest _ _ ih =>
    rw [List.flatMap_cons, ih hs, Cursor.bump, Cursor.rest_skip, hrest]
    rfl

/-- A scan can be taken up again after any of its pieces, in the state that their tokens lead to and at the
offset that they lead to. -/
theorem Scanner.Cuts.split (hs : Reachable builtins s) {before after : List Piece}
    (h : Cuts s c (before ++ after)) :
    ∃ s' c', s' = (before.filterMap Piece.token?).foldl commit s ∧ Reachable builtins s' ∧
      Cuts s' c' after ∧ c'.position = c.position + byteLength (before.flatMap Piece.spelling) := by
  induction before generalizing s c with
  | nil => exact ⟨s, c, rfl, hs, h, rfl⟩
  | cons p before ih =>
    cases h with
    | @token _ _ m l _ hnext hps =>
      obtain ⟨s', c', hstate, hs', hcuts, hposition⟩ := ih (.commit hs hnext) hps
      refine ⟨s', c', hstate, hs', hcuts, ?_⟩
      have htake := List.prefix_iff_eq_take.mp (next?_fits hs.parametersNonempty hnext).front
      rw [hposition, Cursor.skip, ← htake, List.flatMap_cons, byteLength_append, Nat.add_assoc]
      rfl
    | skipped hrest _ hps =>
      obtain ⟨s', c', hstate, hs', hcuts, hposition⟩ := ih hs hps
      refine ⟨s', c', hstate, hs', hcuts, ?_⟩
      rw [hposition, Cursor.bump, Cursor.skip, hrest, List.flatMap_cons, byteLength_append,
        Nat.add_assoc]
      rfl

end

theorem tokenize_cuts (builtins : List String) (source : String) :
    (Scanner.start builtins).Cuts (Cursor.start (stripBlanks source.toList))
      (tokenize builtins source).pieces :=
  Scanner.pieces_cuts .start (Nat.le_refl _)

theorem utf8ByteSize_ofList (cs : List Char) : (String.ofList cs).utf8ByteSize = byteLength cs := by
  induction cs with
  | nil => rfl
  | cons c cs ih =>
    rw [← List.singleton_append, String.ofList_append, String.utf8ByteSize_append, ih,
      byteLength_append]
    simp [byteLength]

/-- The end of the first part of a text is no offset inside a character. -/
theorem isValid_byteLength (cs ds : List Char) :
    String.Pos.Raw.IsValid (String.ofList (cs ++ ds)) ⟨byteLength cs⟩ := by
  refine String.Pos.Raw.isValid_iff_exists_append.mpr ⟨String.ofList cs, String.ofList ds, ?_, ?_⟩
  · exact String.ofList_append
  · rw [String.Pos.Raw.ext_iff, String.byteIdx_rawEndPos, utf8ByteSize_ofList]

/-- What holds of a piece between the pieces before and after it. A token is written in one of the ways
in which it may be, where a literal lacks its closing quote only at the end of the text. A skipped
character is reported with the offset that the pieces before it lead to. -/
def Piece.InPlace (before after : List Piece) : Piece → Prop
  | .token _ l =>
    l.spelling ∈ l.token.spellings ∧ (∀ word, l.token.kind.written? = some word → l.token.text = word) ∧
      (l.token.kind = .text → after ≠ [] → l.spelling = '"' :: l.token.text.toList ++ ['"'])
  | .skipped position _ => position = byteLength (before.flatMap Piece.spelling)

theorem Scanner.Cuts.inPlace {builtins : List String} {s : Scanner} {text : List Char}
    (hs : Reachable builtins s) {before after : List Piece} {p : Piece}
    (h : Cuts s (Cursor.start text) (before ++ p :: after)) :
    p.spelling ≠ [] ∧ p.InPlace before after := by
  obtain ⟨s', c', -, hs', hcuts, hposition⟩ := h.split hs
  cases hcuts with
  | @token _ _ m l _ hnext hafter =>
    have hfits := next?_fits hs'.parametersNonempty hnext
    refine ⟨hfits.nonempty, hfits.spelled, hfits.written, fun hkind hne => ?_⟩
    have hspelled := hfits.spelled
    simp only [Token.spellings, hkind, List.mem_cons, List.not_mem_nil, or_false] at hspelled
    refine hspelled.resolve_right fun hopen => hne ?_
    have hended : (c'.skip l.spelling.length).rest = [] := by
      rw [Cursor.rest_skip, hfits.closed hkind hopen, List.drop_length]
    exact hafter.unique (.commit hs' hnext) (.done hended)
  | skipped _ _ _ =>
    refine ⟨List.cons_ne_nil _ _, ?_⟩
    simpa [Piece.InPlace, Cursor.start] using hposition

/-- A text cut into consecutive nonempty pieces, each in place, where no piece begins or ends inside a
character. -/
structure Cutting (text : List Char) (pieces : List Piece) : Prop where
  complete : pieces.flatMap Piece.spelling = text
  nonempty : ∀ p ∈ pieces, p.spelling ≠ []
  inPlace : ∀ before p after, pieces = before ++ p :: after → p.InPlace before after
  boundary : ∀ before after, pieces = before ++ after →
    String.Pos.Raw.IsValid (String.ofList text) ⟨byteLength (before.flatMap Piece.spelling)⟩

theorem tokenize_cutting (builtins : List String) (source : String) :
    Cutting (stripBlanks source.toList) (tokenize builtins source).pieces := by
  have hcuts := tokenize_cuts builtins source
  have hcomplete : (tokenize builtins source).pieces.flatMap Piece.spelling =
      stripBlanks source.toList := hcuts.flatMap_spelling .start
  have hplace (before : List Piece) (p : Piece) (after : List Piece)
      (h : (tokenize builtins source).pieces = before ++ p :: after) :
      p.spelling ≠ [] ∧ p.InPlace before after := Scanner.Cuts.inPlace .start (h ▸ hcuts)
  refine ⟨hcomplete, fun p hp => ?_, fun before p after h => (hplace before p after h).2,
    fun before after h => ?_⟩
  · obtain ⟨before, after, h⟩ := List.append_of_mem hp
    exact (hplace before p after h).1
  · rw [← hcomplete, h, List.flatMap_append]
    exact isValid_byteLength _ _

/-- A scan cuts the text without white space into pieces, one for each token and for each skipped
character, and any larger amount of fuel gives the same pieces. The offset in the report of a skipped
character is the length of what was read before it. -/
theorem tokenize_lossless (builtins : List String) (source : String) :
    Cutting (stripBlanks source.toList) (tokenize builtins source).pieces ∧
      (∀ fuel, (stripBlanks source.toList).length ≤ fuel →
        (Scanner.start builtins).pieces fuel (Cursor.start (stripBlanks source.toList)) =
          (tokenize builtins source).pieces) ∧
      ∀ earlier position ch later,
        (tokenize builtins source).events = earlier ++ .skipped position ch :: later →
          position = byteLength
            (((tokenize builtins source).pieces.take earlier.length).flatMap Piece.spelling) := by
  have hcutting := tokenize_cutting builtins source
  refine ⟨hcutting, fun fuel hfuel => ?_, fun earlier position ch later hevents => ?_⟩
  · exact (Scanner.pieces_cuts .start hfuel).unique .start (tokenize_cuts builtins source)
  · obtain ⟨before, rest, hsplit, rfl, hrest⟩ := List.map_eq_append_iff.mp hevents
    obtain ⟨p, after, rfl, hevent, rfl⟩ := List.map_eq_cons_iff.mp hrest
    have hpiece := hcutting.inPlace before p after hsplit
    cases p with
    | token m l => cases hevent
    | skipped q d =>
      cases hevent
      rw [List.length_map, hsplit, List.take_left]
      exact hpiece

end HostScript
