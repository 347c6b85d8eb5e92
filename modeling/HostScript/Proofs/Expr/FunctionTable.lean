import Mathlib.Data.List.Nodup
import HostScript.Proofs.Expr.Definitions
import HostScript.Proofs.Expr.Derivation

/-!
# The function table of a parsed script

The parser enters a function into the table when it has read the header, before the body. `Advance` says
what any stretch of reading does to the state: it reads only what is there, and every function that is
new in the table has its header among what is read. It is closed under sequencing, so the rules of the
grammar keep it, however deep the definitions are nested. In the end the table has one entry for each
definition in the script, with the parameters of its header.
-/
namespace HostScript

/-- Tokens that are the header of a function, from its name to the opening brace. -/
def IsFunctionHeader (name : String) (params : List String) (header : List Token) : Prop :=
  ∃ u us v w, header = ⟨.function, name⟩ :: u :: (us ++ [v, w]) ∧ u.kind = .leftParen ∧
    ListsParameters params us ∧ v.kind = .rightParen ∧ w.kind = .leftScope

/-- A statement with the header of a function in it, among the given ones. -/
def ShowsHeader (statements : List (List Token)) (name : String) (params : List String) : Prop :=
  ∃ statement ∈ statements, ∃ header, IsFunctionHeader name params header ∧ header <:+: statement

namespace ParserState

/-- The statements that are yet to be read, the rest of the current one first. -/
def lines (s : ParserState) : List (List Token) := s.tokens :: s.pending

/-- What reading does to the state. -/
structure Advance (s s' : ParserState) : Prop where
  lines : ∀ line ∈ s'.lines, ∃ other ∈ s.lines, line <:+ other
  functions : ∀ (name : String) (entry : FunctionEntry), s'.functions[name]? = some entry →
    s.functions[name]? = some entry ∨ ShowsHeader s.lines name entry.params

namespace Advance

variable {s s' s'' : ParserState} {t : Token} {ts us line : List Token} {ps ps' : List (List Token)}
  {fs fs' : FunctionTable}

theorem shows (h : Advance s s') {name : String} {params : List String}
    (hshows : ShowsHeader s'.lines name params) : ShowsHeader s.lines name params := by
  obtain ⟨line, hline, header, hheader, hinfix⟩ := hshows
  obtain ⟨other, hother, hsuffix⟩ := h.lines line hline
  exact ⟨other, hother, header, hheader, hinfix.trans hsuffix.isInfix⟩

theorem refl (s : ParserState) : Advance s s :=
  ⟨fun line hline => ⟨line, hline, List.suffix_refl line⟩, fun _ _ hentry => .inl hentry⟩

theorem trans (h : Advance s s') (h' : Advance s' s'') : Advance s s'' := by
  constructor
  · intro line hline
    obtain ⟨other, hother, hsuffix⟩ := h'.lines line hline
    obtain ⟨first, hfirst, hsuffix'⟩ := h.lines other hother
    exact ⟨first, hfirst, hsuffix.trans hsuffix'⟩
  · intro name entry hentry
    rcases h'.functions name entry hentry with hentry | hshows
    · exact h.functions name entry hentry
    · exact .inr (h.shows hshows)

/-- Reading on in the statement, or putting the rest of it aside. -/
theorem suffix (h : us <:+ ts) : Advance ⟨ts, ps, fs⟩ ⟨us, ps, fs⟩ := by
  constructor
  · intro line hline
    rcases List.mem_cons.mp hline with rfl | hline
    · exact ⟨ts, List.mem_cons_self, h⟩
    · exact ⟨line, List.mem_cons_of_mem ts hline, List.suffix_refl line⟩
  · exact fun _ _ hentry => .inl hentry

theorem token : Advance ⟨t :: ts, ps, fs⟩ ⟨ts, ps, fs⟩ := suffix (List.suffix_cons t ts)

theorem statement : Advance ⟨[], line :: ps, fs⟩ ⟨line, ps, fs⟩ :=
  ⟨fun other hother => ⟨other, List.mem_cons_of_mem [] hother, List.suffix_refl other⟩,
    fun _ _ hentry => .inl hentry⟩

/-- What is read behind a header does not touch the rest of the header. -/
theorem behind (h : Advance ⟨[], ps, fs⟩ ⟨[], ps', fs'⟩) : Advance ⟨ts, ps, fs⟩ ⟨ts, ps', fs'⟩ := by
  have hbody : Advance ⟨ts, ps, fs⟩ ⟨[], ps', fs'⟩ := (suffix (List.nil_suffix)).trans h
  constructor
  · intro line hline
    rcases List.mem_cons.mp hline with rfl | hline
    · exact ⟨line, List.mem_cons_self, List.suffix_refl line⟩
    · exact hbody.lines line (List.mem_cons_of_mem [] hline)
  · exact hbody.functions

/-- The header of a function. -/
theorem header {u v w : Token} {params : List String} (ht : t.kind = .function) (hu : u.kind = .leftParen)
    (hparams : ListsParameters params us) (hv : v.kind = .rightParen) (hw : w.kind = .leftScope) :
    Advance ⟨t :: u :: (us ++ v :: w :: ts), ps, fs⟩ ⟨ts, ps, fs.insert t.text { params }⟩ := by
  have hheader : IsFunctionHeader t.text params (t :: u :: (us ++ [v, w])) := by
    refine ⟨u, us, v, w, ?_, hu, hparams, hv, hw⟩
    rw [← ht]
  have hread : Advance ⟨t :: u :: (us ++ v :: w :: ts), ps, fs⟩ ⟨ts, ps, fs⟩ :=
    suffix ⟨t :: u :: (us ++ [v, w]), by simp⟩
  refine ⟨hread.lines, fun name entry hentry => ?_⟩
  rw [Std.ExtTreeMap.getElem?_insert] at hentry
  split at hentry
  · rename_i hname
    obtain rfl := Std.LawfulEqCmp.eq_of_compare hname
    cases hentry
    exact .inr ⟨_, List.mem_cons_self, _, hheader, [], ts, by simp⟩
  · exact .inl hentry

end Advance

end ParserState

open ParserState

theorem Reads.advance {p : Part} {s s' : ParserState} (h : Reads p s s') : s.Advance s' := by
  induction h with
  | leaf => exact .token
  | opening _ _ ih => exact .trans .token ih
  | step => exact .trans .token .token
  | compound _ _ _ ih => exact .trans .token (.trans .token ih)
  | group _ _ ih => exact .trans .token (.trans ih .token)
  | call _ _ _ _ _ ih => exact .trans .token (.trans .token (.trans ih .token))
  | @define _ _ _ _ _ _ ts _ _ _ _ _ ht hu hparams hv hw _ _ _ ih =>
    obtain ⟨us, hsplit, hlists⟩ := parameterNames_lists listLimit ts
    rw [hparams] at hsplit hlists
    rw [hsplit]
    exact .trans (.header ht hu hlists hv hw) ih.behind
  | forLoop _ _ _ _ _ _ _ _ _ _ _ ihinit ihcondition ihstep ihbody =>
    apply Advance.trans .token
    apply Advance.trans .token
    apply ihinit.trans
    apply Advance.trans .token
    apply ihcondition.trans
    apply Advance.trans .token
    apply ihstep.trans
    apply Advance.trans .token
    exact Advance.trans .token ihbody.behind
  | whileLoop _ _ _ _ _ _ _ ihcondition ihbody =>
    apply Advance.trans .token
    apply Advance.trans .token
    apply ihcondition.trans
    apply Advance.trans .token
    exact Advance.trans .token ihbody.behind
  | block _ _ _ ih => exact .trans .token ih.behind
  | access _ _ ih => exact ih.trans .token
  | write _ _ _ ih ih' | binary _ _ _ ih ih' | argument _ _ _ ih ih' => exact ih.trans (.trans .token ih')
  | ternary _ _ _ _ _ ihcondition ihyes ihno =>
    exact ihcondition.trans (.trans .token (ihyes.trans (.trans .token ihno)))
  | noArgument | programEnd => exact .refl _
  | lastArgument _ ih => exact ih
  | bodyEnd => exact .trans .statement (.suffix (List.nil_suffix))
  | bodyStatement _ _ _ ih ihrest | programStatement _ _ _ ih ihrest =>
    exact .trans .statement (ih.trans ihrest)

theorem count_definedNames (name : String) (es : List Expr) :
    (definedNames es).count name = Expr.headings ⟨.function, name⟩ es := by
  induction es with
  | nil => rfl
  | cons e es ih =>
    rw [Expr.headings_cons, ← ih, definedNames, definedNames, List.filterMap_cons]
    cases e with
    | define other body =>
      simp only [Expr.defines?, Expr.heading?, Option.toList_some, count_function_heading]
      rw [← List.count_append]
      rfl
    | call other arguments => simp [Expr.defines?, Expr.heading?]
    | _ => simp [Expr.defines?, Expr.heading?]

/-- The function table mirrors the script, at whatever depth its functions are defined. No name is defined
twice, the functions of the table are those that are defined, and none of them has a body yet. The
parameters of each are the names in the one header it has in the tree, in order. -/
theorem parse_functions {tree : TokenTree} {parsed : Parsed} (h : parse tree = .ok parsed) :
    (definedNames (Expr.nodesAll parsed.expressions)).Nodup ∧
      (∀ name, name ∈ parsed.functions ↔ name ∈ definedNames (Expr.nodesAll parsed.expressions)) ∧
      ∀ (name : String) (entry : FunctionEntry), parsed.functions[name]? = some entry →
        entry.body = none ∧ tree.tokens.count ⟨.function, name⟩ = 1 ∧
          ShowsHeader tree.statements name entry.params := by
  have hcount (name : String) : (definedNames (Expr.nodesAll parsed.expressions)).count name =
      parsed.functions.present name := by
    have hpresent := (parse_reads h).present_eq name
    rw [count_definedNames, ← hpresent]
    simp [FunctionTable.present, Part.nodes]
  have hmem (name : String) :
      name ∈ parsed.functions ↔ name ∈ definedNames (Expr.nodesAll parsed.expressions) := by
    rw [← List.count_pos_iff, hcount, FunctionTable.present]
    by_cases hname : name ∈ parsed.functions
    · simp [hname]
    · simp [hname]
  refine ⟨List.nodup_iff_count_le_one.mpr fun name => ?_, hmem, fun name entry hentry => ?_⟩
  · rw [hcount, FunctionTable.present]
    split
    · exact Nat.le_refl 1
    · exact Nat.zero_le 1
  · have hname : name ∈ parsed.functions := by
      rw [Std.ExtTreeMap.mem_iff_isSome_getElem?, hentry]
      rfl
    have hone : tree.tokens.count ⟨.function, name⟩ = 1 := by
      rw [parse_headings h rfl, ← count_definedNames, hcount, FunctionTable.present, if_pos hname]
    rcases (parse_reads h).advance.functions name entry hentry with hbefore | hshows
    · simp at hbefore
    · obtain ⟨statement, hstatement, header, hheader, hinfix⟩ := hshows
      refine ⟨parse_bodyless h name entry hentry, hone, statement, ?_, header, hheader, hinfix⟩
      rcases List.mem_cons.mp hstatement with rfl | hstatement
      · obtain ⟨u, us, v, w, rfl, -⟩ := hheader
        cases List.infix_nil.mp hinfix
      · exact hstatement

/-- `function f(a, b){ function g(c,){ return c } return g(a) }` -/
def nestedDefinitions : List Token :=
  [⟨.function, "f"⟩, ⟨.leftParen, "("⟩, ⟨.parameter, "a"⟩, ⟨.comma, ","⟩, ⟨.parameter, "b"⟩,
   ⟨.rightParen, ")"⟩,
   ⟨.leftScope, "\x7b"⟩, ⟨.function, "g"⟩, ⟨.leftParen, "("⟩, ⟨.parameter, "c"⟩, ⟨.comma, ","⟩,
   ⟨.rightParen, ")"⟩,
   ⟨.leftScope, "\x7b"⟩, ⟨.returnWord, "return"⟩, ⟨.variableName, "c"⟩, ⟨.rightScope, "\x7d"⟩,
   ⟨.returnWord, "return"⟩, ⟨.call, "g"⟩, ⟨.leftParen, "("⟩, ⟨.variableName, "a"⟩, ⟨.rightParen, ")"⟩,
   ⟨.rightScope, "\x7d"⟩]

theorem parse_functions_nested :
    ∃ parsed, parse (group nestedDefinitions) = .ok parsed ∧
      (∀ name, name ∈ parsed.functions ↔ name ∈ ["f", "g"]) ∧
      ∃ params, parsed.functions["g"]? = some { params } ∧
        ShowsHeader (group nestedDefinitions).statements "g" params := by
  have hnames : (match parse (group nestedDefinitions) with
      | .ok parsed => definedNames (Expr.nodesAll parsed.expressions) == ["f", "g"]
      | .error _ => false) = true := by decide +kernel
  cases h : parse (group nestedDefinitions) with
  | error error =>
    rw [h] at hnames
    cases hnames
  | ok parsed =>
    rw [h] at hnames
    obtain ⟨-, hmem, hentry⟩ := parse_functions h
    rw [beq_iff_eq.mp hnames] at hmem
    have hg : "g" ∈ parsed.functions := (hmem "g").mpr (by simp)
    obtain ⟨⟨params, body⟩, hlookup⟩ :=
      Option.isSome_iff_exists.mp (Std.ExtTreeMap.mem_iff_isSome_getElem?.mp hg)
    obtain ⟨hbody, -, hshows⟩ := hentry "g" _ hlookup
    cases hbody
    exact ⟨parsed, rfl, hmem, params, hlookup, hshows⟩

end HostScript
