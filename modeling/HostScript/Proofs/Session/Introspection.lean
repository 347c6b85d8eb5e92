import HostScript.Proofs.Session.Kept
import HostScript.Proofs.Session.Scoping

/-!
# What a program says about itself

A program lists the imports and the usings of its script. The lists are read off the tokens, while the
expressions are built from the same tokens later, and there a directive is split into the name and the type
that it imports. Both lists are those of the expressions, at any depth, in order and with repetitions, and
the names that the scan takes for variables are those that the expressions bind or import.
-/
namespace HostScript

/-! ## Declarations -/

/-- A declaration in a script: a binding, an import or a using. -/
inductive Declaration where
  | binding (name : String)
  | imported (name type : String)
  | used (name : String)

namespace Declaration

def declared? : Declaration → Option String
  | binding name | imported name _ => some name
  | used _ => none

def imported? : Declaration → Option (String × String)
  | imported name type => some (name, type)
  | _ => none

def used? : Declaration → Option String
  | used name => some name
  | _ => none

end Declaration

def Expr.declaration? : Expr → Option Declaration
  | .letBinding name _ => some (.binding name)
  | .importName name type => some (.imported name type)
  | .usingName name => some (.used name)
  | _ => none

def Token.declaration? (t : Token) : Option Declaration :=
  match t.kind with
  | .letName => some (.binding t.text)
  | .importName => some (.imported (importParts t.text).1 (importParts t.text).2)
  | .usingName => some (.used t.text)
  | _ => none

/-- The kinds of tokens that make a declaration. -/
def Kind.declares : Kind → Bool
  | .letName | .importName | .usingName => true
  | _ => false

section

variable {t : Token}

theorem Token.declaration?_of_kind {kind : Kind} (ht : t.kind = kind) (hkind : kind.declares = false) :
    t.declaration? = none := by
  subst ht
  unfold Token.declaration?
  split <;> simp_all [Kind.declares]

theorem Token.declaration?_of_leaf? {e : Expr} (h : t.leaf? = some e) :
    t.declaration? = e.declaration? := by
  unfold Token.leaf? at h
  unfold Token.declaration?
  cases hk : t.kind <;> simp only [hk, Option.map_eq_some_iff, Option.some.injEq, reduceCtorEq] at h ⊢
  case number =>
    obtain ⟨x, _, rfl⟩ := h
    rfl
  all_goals
    subst h
    rfl

theorem Token.Heads.declaration? {e : Expr} (h : t.Heads e) : t.declaration? = e.declaration? := by
  cases e with
  | literal | query | var | namespaceName | usingName | importName => exact Token.declaration?_of_leaf? h
  | call | define | letBinding | assign | compound =>
    cases h
    rfl
  | forLoop | whileLoop | returns | write => exact Token.declaration?_of_kind h rfl
  | ternary | block | access => exact h.elim
  | binary op left right =>
    have hkind : Joint.ofKind? t.kind = some (.operator op) := h
    refine Token.declaration?_of_kind rfl ?_
    revert hkind
    cases t.kind <;> simp [Joint.ofKind?, Kind.declares]

/-- A token makes the declaration of the construct that it stands for. -/
theorem Token.Shows.declaration? {sign : Sign} (h : t.Shows sign) :
    t.declaration? = sign.pick? Expr.declaration? := by
  cases sign with
  | head e => exact Token.Heads.declaration? h
  | update op =>
    have hkind : compoundOf? t.kind = some (op, true) := h
    refine Token.declaration?_of_kind rfl ?_
    revert hkind
    cases t.kind <;> simp [compoundOf?, Kind.declares]
  | member name =>
    cases h
    rfl
  | parameter name =>
    obtain ⟨hparameter, _⟩ := h
    simp only [Token.isParameter, Bool.or_eq_true, beq_iff_eq] at hparameter
    rcases hparameter with hkind | hkind <;> exact Token.declaration?_of_kind hkind rfl

/-- No declaration is lost where tokens are spelled out. -/
theorem Token.filterMap_spelledOut (t : Token) :
    t.spelledOut.filterMap Token.declaration? = t.declaration?.toList := by
  cases hk : t.kind <;>
    simp [Token.spelledOut, Token.declaration?, hk, Kind.separates, Kind.isBracket]

theorem Token.filterMap_flatMap_spelledOut (ts : List Token) :
    (ts.flatMap Token.spelledOut).filterMap Token.declaration? = ts.filterMap Token.declaration? := by
  induction ts with
  | nil => rfl
  | cons t ts ih =>
    rw [List.flatMap_cons, List.filterMap_append, Token.filterMap_spelledOut, ih, List.filterMap_cons]
    cases t.declaration? <;> rfl

end

theorem Expr.declaration?_of_leads (e : Expr) (h : e.leads = false) : e.declaration? = none := by
  cases e <;> first | rfl | cases h

/-- The declarations of the tokens are those of the expressions, in order. -/
theorem parse_declarations {ts : List Token} {parsed : Parsed} (h : parse (group ts) = .ok parsed) :
    ts.filterMap Token.declaration? =
      (Expr.nodesAll parsed.expressions).filterMap Expr.declaration? := by
  have hshows := ((parse_derives h).spelled.program {} (.inl rfl)).1
  have hnodes := Expr.pick_marksAll parsed.expressions
    (fun e _ => e.pick_marks Expr.declaration?_of_leads parsed.functions) none
  rw [← Token.filterMap_flatMap_spelledOut, ← Scanner.map_snd_trace {},
    hshows.filterMap fun _ _ => Token.Shows.declaration?]
  exact hnodes

/-! ## The lists of a program -/

theorem importParts_eq (directive : String) :
    importParts directive =
      (String.ofList (Scanner.importedName directive.toList),
        String.ofList (directive.toList.dropWhile (· != '-')).tail) := by
  unfold importParts Text.splitOnce Scanner.importedName
  cases hrest : directive.toList.dropWhile (· != '-') with
  | nil =>
    have hwhole := List.takeWhile_append_dropWhile (p := (· != '-')) (l := directive.toList)
    rw [hrest, List.append_nil] at hwhole
    rw [hwhole, String.ofList_toList]
    rfl
  | cons c after => rfl

/-- The name that a token declares is that of its declaration. -/
theorem Token.declares_iff {t : Token} {name : String} :
    t.Declares name ↔ t.declaration?.bind Declaration.declared? = some name := by
  obtain ⟨kind, text⟩ := t
  cases kind with
  | importName =>
    have hname : (importParts text).1 = name ↔ Scanner.importedName text.toList = name.toList := by
      rw [importParts_eq, ← String.toList_inj, String.toList_ofList]
    simp [Token.Declares, Token.declaration?, Declaration.declared?, hname]
  | _ => simp [Token.Declares, Token.declaration?, Declaration.declared?]

namespace Tokenized

/-- The declarations of the tokens of a script. -/
def declarations (t : Tokenized) : List Declaration := t.tokens.filterMap Token.declaration?

theorem imports_eq (t : Tokenized) :
    t.imports.map importParts = t.declarations.filterMap Declaration.imported? := by
  have himported (u : Token) : u.declaration?.bind Declaration.imported? =
      if u.kind = .importName then some (importParts u.text) else none := by
    unfold Token.declaration?
    split <;> simp_all [Declaration.imported?]
  unfold imports declarations textsOf
  rw [List.map_map, List.filterMap_filterMap, ← List.filterMap_eq_map, List.filterMap_filter]
  simp [himported]

theorem usings_eq (t : Tokenized) : t.usings = t.declarations.filterMap Declaration.used? := by
  have hused (u : Token) : u.declaration?.bind Declaration.used? =
      if u.kind = .usingName then some u.text else none := by
    unfold Token.declaration?
    split <;> simp_all [Declaration.used?]
  unfold usings declarations textsOf
  rw [List.filterMap_filterMap, ← List.filterMap_eq_map, List.filterMap_filter]
  simp [hused]

/-- The variables that the scan of a script knows at its end are those that its tokens declare. -/
theorem known_iff (builtins : List String) (t : Tokenized) (name : String) :
    (t.tokens.foldl Scanner.commit (Scanner.start builtins)).variableNames.contains name.toList ↔
      name ∈ t.declarations.filterMap Declaration.declared? := by
  have hstart : (Scanner.start builtins).variableNames.contains name.toList = false :=
    Trie.contains_empty _
  rw [Scanner.variableNames_foldl_commit, hstart, or_iff_left Bool.false_ne_true]
  unfold declarations
  rw [List.filterMap_filterMap, List.mem_filterMap]
  simp only [Token.declares_iff]

end Tokenized

/-- The declarations in the expressions of a program, function and loop bodies included, in order. -/
def Program.declarations (p : Program) : List Declaration :=
  (Expr.nodesAll p.expressions).filterMap Expr.declaration?

/-- A compiled program has the lists of its tokens, and the declarations of its tokens. -/
theorem Session.compile_tokenized {σ : Type} {s t : Session σ} {source : String} {debug : Bool}
    {p : Program} (h : compile source debug s = (.ok p, t)) :
    p.imports = (tokenize s.builtins.names source).imports ∧
      p.usings = (tokenize s.builtins.names source).usings ∧
      p.declarations = (tokenize s.builtins.names source).declarations := by
  have hdeclarations := parse_declarations (parseSource_of_compile h)
  have hobtains := compile_obtains source debug s
  rw [h] at hobtains
  cases hobtains with
  | found _ hkept => cases hkept
  | compiled => exact ⟨rfl, rfl, hdeclarations.symm⟩

/-- What a program says about itself agrees with its expressions. In order and with repetitions, its
directives are those of the imports in the expressions, where the name of an import is the text of the
directive before the first hyphen and the type is the text after it; and its usings are the names of those
in the expressions. The scan of the script ends with exactly the names as variables that the expressions
bind or import. -/
theorem compile_introspective {σ : Type} {s t : Session σ} {source : String} {debug : Bool} {p : Program}
    (h : Session.compile source debug s = (.ok p, t)) :
    p.imports.map (fun directive => (String.ofList (directive.toList.takeWhile (· != '-')),
        String.ofList (directive.toList.dropWhile (· != '-')).tail)) =
        p.declarations.filterMap Declaration.imported? ∧
      p.usings = p.declarations.filterMap Declaration.used? ∧
      ∀ name : String,
        ((tokenize s.builtins.names source).tokens.foldl Scanner.commit
          (Scanner.start s.builtins.names)).variableNames.contains name.toList ↔
          name ∈ p.declarations.filterMap Declaration.declared? := by
  obtain ⟨himports, husings, hdeclarations⟩ := Session.compile_tokenized h
  rw [himports, husings, hdeclarations]
  refine ⟨?_, Tokenized.usings_eq _, Tokenized.known_iff _ _⟩
  rw [← Tokenized.imports_eq]
  exact List.map_congr_left fun directive _ => (importParts_eq directive).symm

/-- `import speed-float; function f(a){ while(a){ import mode; using A.B } } import speed-float`. The body of
the loop has an import without a type and a using. -/
def scatteredImports : String :=
  "import speed-float; function f(a)\x7b while(a)\x7b import mode; using A.B \x7d \x7d import speed-float"

theorem compile_introspective_scattered :
    ∃ p t, Session.compile scatteredImports false (Session.start ∅ ()) = (.ok p, t) ∧
      p.imports = ["speed-float", "mode", "speed-float"] ∧
      p.declarations.filterMap Declaration.imported? =
        [("speed", "float"), ("mode", ""), ("speed", "float")] ∧
      p.declarations.filterMap Declaration.used? = ["A.B"] := by
  have hfound : (match (Session.compile scatteredImports false (Session.start ∅ ())).1 with
      | .ok p => p.imports == ["speed-float", "mode", "speed-float"] && p.usings == ["A.B"]
      | .error _ => false) = true := by decide +kernel
  rcases hcompile : Session.compile scatteredImports false (Session.start ∅ ()) with ⟨failure | p, t⟩
  · rw [hcompile] at hfound
    cases hfound
  · rw [hcompile] at hfound
    simp only [Bool.and_eq_true, beq_iff_eq] at hfound
    obtain ⟨himports, husings⟩ := hfound
    obtain ⟨hnames, hused, -⟩ := compile_introspective hcompile
    rw [himports] at hnames
    exact ⟨p, t, rfl, himports, hnames.symm, hused ▸ husings⟩

end HostScript
