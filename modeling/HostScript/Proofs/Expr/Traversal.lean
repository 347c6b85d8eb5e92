import Mathlib.Data.List.Forall2
import HostScript.Proofs.Expr.Nesting
import HostScript.Token.Scanner

/-!
# The tokens of a parsed script

A parsed script has the tokens it was parsed from: apart from those that group or separate, they are met
in their order when the expressions are walked from left to right. `Expr.marks` is that walk. It notes for
every token what it stands for and which function is around it, and the latter is also the function that
the scan of the tokens holds to be around it.
-/
namespace HostScript

/-! ## The walk through the expressions -/

/-- What a token stands for: a construct, the operator of an update, the name of a member, or a
parameter in the header of a function. -/
inductive Sign where
  | head (e : Expr)
  | update (op : Operator)
  | member (name : String)
  | parameter (name : String)

/-- The token that a construct has to itself, before, between or behind its parts. The operator of an
update and the name of a member are signs of their own. -/
def Token.Heads (t : Token) : Expr → Prop
  | .binary op _ _ => Joint.ofKind? t.kind = some (.operator op)
  | .call name _ => t = ⟨.call, name⟩
  | .define name _ => t = ⟨.function, name⟩
  | .forLoop _ _ _ _ => t.kind = .forWord
  | .whileLoop _ _ => t.kind = .whileWord
  | .letBinding name _ => t = ⟨.letName, name⟩
  | .assign name _ => t = ⟨.assign, name⟩
  | .compound name _ _ => t = ⟨.variableName, name⟩
  | .returns _ => t.kind = .returnWord
  | .write _ _ _ => t.kind = .equals
  | .ternary _ _ _ | .block _ | .access _ _ => False
  | e => t.leaf? = some e

/-- Whether a token is there for a sign. -/
def Token.Shows (t : Token) : Sign → Prop
  | .head e => t.Heads e
  | .update op => compoundOf? t.kind = some (op, true)
  | .member name => t = ⟨.access, name⟩
  | .parameter name => t.isParameter ∧ t.text = name

theorem Token.eq_mk {t : Token} {kind : Kind} (h : t.kind = kind) : t = ⟨kind, t.text⟩ := by
  rw [← h]

theorem Token.heads_of_leaf? {t : Token} {e : Expr} (h : t.leaf? = some e) : t.Heads e := by
  have hleaf := Token.isLeaf_of_leaf? h
  cases e with
  | literal | query | var | namespaceName | usingName | importName => exact h
  | _ => cases hleaf

theorem Token.heads_of_opening? {t : Token} {f : Expr → Expr} (h : t.opening? = some f) (e : Expr) :
    t.Heads (f e) := by
  obtain ⟨hk, rfl⟩ | ⟨hk, rfl⟩ | ⟨hk, rfl⟩ := Token.opening?_cases h
  · exact Token.eq_mk hk
  · exact Token.eq_mk hk
  · exact hk

/-- A place in a script: what stands there, and the innermost function whose body it lies in. -/
structure Mark where
  scope : Option String
  sign : Sign

/-- The parameters that a table has for a function. -/
def FunctionTable.paramsOf (T : FunctionTable) (name : String) : List String :=
  (T[name]?.map FunctionEntry.params).getD []

namespace Expr

mutual

/-- The places of an expression from left to right, where `g` is the function around it. -/
def marks (T : FunctionTable) (g : Option String) : Expr → List Mark
  | .binary op left right =>
    left.marks T g ++ ⟨g, .head (.binary op left right)⟩ :: right.marks T g
  | .ternary condition yes no => condition.marks T g ++ (yes.marks T g ++ no.marks T g)
  | .call name arguments => ⟨g, .head (.call name arguments)⟩ :: marksAll T g arguments
  | .define name body =>
    ⟨g, .head (.define name body)⟩
      :: ((T.paramsOf name).map (fun x => ⟨g, .parameter x⟩) ++ marksAll T (some name) body)
  | .forLoop init condition step body =>
    ⟨g, .head (.forLoop init condition step body)⟩
      :: (init.marks T g ++ (condition.marks T g ++ (step.marks T g ++ marksAll T g body)))
  | .whileLoop condition body =>
    ⟨g, .head (.whileLoop condition body)⟩ :: (condition.marks T g ++ marksAll T g body)
  | .block body => marksAll T g body
  | .letBinding name value => ⟨g, .head (.letBinding name value)⟩ :: value.marks T g
  | .assign name value => ⟨g, .head (.assign name value)⟩ :: value.marks T g
  | .compound name op value =>
    ⟨g, .head (.compound name op value)⟩ :: ⟨g, .update op⟩ :: value.marks T g
  | .returns value => ⟨g, .head (.returns value)⟩ :: value.marks T g
  | .access target member => target.marks T g ++ [⟨g, .member member⟩]
  | .write target member value =>
    target.marks T g
      ++ ⟨g, .member member⟩ :: ⟨g, .head (.write target member value)⟩ :: value.marks T g
  | e => [⟨g, .head e⟩]

def marksAll (T : FunctionTable) (g : Option String) : List Expr → List Mark
  | [] => []
  | e :: es => e.marks T g ++ marksAll T g es

end

end Expr

def Part.marks (T : FunctionTable) (g : Option String) : Part → List Mark
  | .expr e => e.marks T g
  | .arguments es | .body es | .program es => Expr.marksAll T g es

theorem Token.leaf?_marks {t : Token} {e : Expr} (h : t.leaf? = some e) (T : FunctionTable)
    (g : Option String) : e.marks T g = [⟨g, .head e⟩] := by
  have hleaf := Token.isLeaf_of_leaf? h
  cases e with
  | literal | query | var | namespaceName | usingName | importName => rfl
  | _ => cases hleaf

theorem Token.opening?_marks {t : Token} {f : Expr → Expr} (h : t.opening? = some f) (e : Expr)
    (T : FunctionTable) (g : Option String) :
    (f e).marks T g = ⟨g, .head (f e)⟩ :: e.marks T g := by
  obtain ⟨_, rfl⟩ | ⟨_, rfl⟩ | ⟨_, rfl⟩ := Token.opening?_cases h
  all_goals rfl

/-! ## What is read off the places -/

def Expr.leads : Expr → Bool
  | .binary _ _ _ | .ternary _ _ _ | .block _ | .access _ _ | .write _ _ _ => false
  | _ => true

section

variable {α : Type} {pick : Expr → Option α}

/-- What is read off the construct of a sign. -/
def Sign.pick? (pick : Expr → Option α) : Sign → Option α
  | .head e => pick e
  | _ => none

/-- What is read off the construct at a place. -/
def Mark.pick? (pick : Expr → Option α) (m : Mark) : Option α := m.sign.pick? pick

theorem Expr.pick_marksAll {T : FunctionTable} (es : List Expr)
    (h : ∀ e ∈ es, ∀ g, (e.marks T g).filterMap (Mark.pick? pick) = e.nodes.filterMap pick)
    (g : Option String) :
    (marksAll T g es).filterMap (Mark.pick? pick) = (nodesAll es).filterMap pick := by
  induction es with
  | nil => rfl
  | cons e es ih =>
    obtain ⟨he, hes⟩ := List.forall_mem_cons.mp h
    rw [marksAll, List.filterMap_append, he g, ih hes, nodesAll_cons, List.filterMap_append]

/-- The places of an expression and the constructs in it give the same in the same order, if it is read off
constructs only that begin with a token of their own. -/
theorem Expr.pick_marks (hpick : ∀ e : Expr, e.leads = false → pick e = none) (T : FunctionTable)
    (e : Expr) (g : Option String) :
    (e.marks T g).filterMap (Mark.pick? pick) = e.nodes.filterMap pick := by
  have parameters (g : Option String) (names : List String) :
      (names.map fun x => (⟨g, .parameter x⟩ : Mark)).filterMap (Mark.pick? pick) = [] := by
    simp [Mark.pick?, Sign.pick?, List.filterMap_map, Function.comp_def]
  have between (g : Option String) (n : Expr) (hn : n.leads = false) :
      Mark.pick? pick ⟨g, .head n⟩ = none := hpick n hn
  induction e using Expr.induction generalizing g with
  | step e ih =>
    cases e with
    | literal | query | var | namespaceName | usingName | importName => rfl
    | letBinding name value | assign name value | compound name op value | returns value =>
      simp only [marks, nodes, List.filterMap_cons]
      rw [ih value (by simp [parts])]
      rfl
    | access target member =>
      rw [nodes, List.filterMap_cons_none (hpick _ rfl), marks, List.filterMap_append,
        ih target (by simp [parts])]
      exact List.append_nil _
    | binary op left right =>
      rw [nodes, List.filterMap_cons_none (hpick _ rfl), marks, List.filterMap_append,
        List.filterMap_cons_none (between _ _ rfl), List.filterMap_append]
      rw [ih left (by simp [parts]), ih right (by simp [parts])]
    | write target member value =>
      rw [nodes, List.filterMap_cons_none (hpick _ rfl), marks, List.filterMap_append,
        List.filterMap_cons_none rfl, List.filterMap_cons_none (between _ _ rfl), List.filterMap_append]
      rw [ih target (by simp [parts]), ih value (by simp [parts])]
    | ternary condition yes no =>
      rw [nodes, List.filterMap_cons_none (hpick _ rfl), marks]
      simp only [List.filterMap_append, List.append_assoc]
      rw [ih condition (by simp [parts]), ih yes (by simp [parts]), ih no (by simp [parts])]
    | block body =>
      rw [nodes, List.filterMap_cons_none (hpick _ rfl), marks]
      exact pick_marksAll body ih g
    | call name body =>
      simp only [marks, nodes, List.filterMap_cons]
      rw [pick_marksAll body ih]
      rfl
    | define name body =>
      simp only [marks, nodes, List.filterMap_append, List.filterMap_cons]
      rw [parameters, pick_marksAll body ih]
      rfl
    | forLoop init condition step body =>
      have hbody := pick_marksAll body (fun e he => ih e (by simp [parts, he])) g
      simp only [marks, nodes, List.filterMap_append, List.filterMap_cons, List.append_assoc]
      rw [ih init (by simp [parts]), ih condition (by simp [parts]), ih step (by simp [parts]), hbody]
      rfl
    | whileLoop condition body =>
      have hbody := pick_marksAll body (fun e he => ih e (by simp [parts, he])) g
      simp only [marks, nodes, List.filterMap_append, List.filterMap_cons]
      rw [ih condition (by simp [parts]), hbody]
      rfl

end

/-! ## The scan along the tokens -/

namespace Scanner

/-- The tokens that a scan takes in, spelled out, each with the function around it. -/
def trace (s : Scanner) : List Token → List (Option String × Token)
  | [] => []
  | t :: ts => t.spelledOut.map (fun u => (s.scope, u)) ++ (s.commit t).trace ts

@[simp] theorem trace_append (s : Scanner) (ts us : List Token) :
    s.trace (ts ++ us) = s.trace ts ++ (ts.foldl commit s).trace us := by
  induction ts generalizing s with
  | nil => rfl
  | cons t ts ih => simp [trace, ih]

theorem map_snd_trace (s : Scanner) (ts : List Token) :
    (s.trace ts).map Prod.snd = ts.flatMap Token.spelledOut := by
  induction ts generalizing s with
  | nil => rfl
  | cons t ts ih => simp [trace, ih, Function.comp_def]

/-- Two points of a scan in the same region, with the same region announced. -/
structure Still (s s' : Scanner) : Prop where
  scope : s'.scope = s.scope
  enclosing : s'.enclosing = s.enclosing
  pending : s'.pending = s.pending

theorem Still.trans {s s' s'' : Scanner} (h : s.Still s') (h' : s'.Still s'') : s.Still s'' :=
  ⟨h'.scope.trans h.scope, h'.enclosing.trans h.enclosing, h'.pending.trans h.pending⟩

theorem still_commit (s : Scanner) {t : Token} (ht : t.kind.movesScope = false) :
    s.Still (s.commit t) := by
  unfold commit learn
  cases hk : t.kind <;> simp only [hk, Kind.movesScope, Bool.true_eq_false] at ht
  case parameter =>
    dsimp only
    split <;> exact ⟨rfl, rfl, rfl⟩
  all_goals exact ⟨rfl, rfl, rfl⟩

theorem commit_function (s : Scanner) {t : Token} (ht : t.kind = .function) :
    (s.commit t).scope = s.scope ∧ (s.commit t).enclosing = s.enclosing ∧
      (s.commit t).pending = some (some t.text) := by
  simp [commit, learn, ht]

theorem commit_loop (s : Scanner) {t : Token} (ht : t.kind = .forWord ∨ t.kind = .whileWord) :
    (s.commit t).scope = s.scope ∧ (s.commit t).enclosing = s.enclosing ∧
      (s.commit t).pending = some s.scope := by
  rcases ht with ht | ht <;> simp [commit, learn, ht]

theorem commit_leftScope (s : Scanner) {t : Token} (ht : t.kind = .leftScope) :
    (s.commit t).scope = s.pending.getD s.scope ∧ (s.commit t).enclosing = s.scope :: s.enclosing ∧
      (s.commit t).pending = none := by
  simp [commit, learn, ht]

theorem commit_rightScope {s : Scanner} {outer : Option String} {rest : List (Option String)}
    (hs : s.enclosing = outer :: rest) {t : Token} (ht : t.kind = .rightScope) :
    (s.commit t).scope = outer ∧ (s.commit t).enclosing = rest ∧ (s.commit t).pending = s.pending := by
  simp [commit, learn, ht, hs]

/-- A point of a scan at which no other function is announced. -/
def Ready (s : Scanner) : Prop := s.pending = none ∨ s.pending = some s.scope

/-- Two points of a scan in the same region, where nothing more is announced at the second one. -/
structure Resumes (s s' : Scanner) : Prop where
  scope : s'.scope = s.scope
  enclosing : s'.enclosing = s.enclosing
  pending : s'.pending = none ∨ s'.pending = s.pending

theorem Still.resumes {s s' : Scanner} (h : s.Still s') : s.Resumes s' :=
  ⟨h.scope, h.enclosing, .inr h.pending⟩

theorem Resumes.trans {s s' s'' : Scanner} (h : s.Resumes s') (h' : s'.Resumes s'') :
    s.Resumes s'' := by
  refine ⟨h'.scope.trans h.scope, h'.enclosing.trans h.enclosing, ?_⟩
  rcases h'.pending with hnone | heq
  · exact .inl hnone
  · rw [heq]
    exact h.pending

theorem Ready.resumes {s s' : Scanner} (hs : s.Ready) (h : s.Resumes s') : s'.Ready := by
  rcases h.pending with hnone | heq
  · exact .inl hnone
  · rw [Ready, heq, h.scope]
    exact hs

end Scanner

/-- Tokens that show the given places, in order and in their functions. -/
def ShowsAll : List (Option String × Token) → List Mark → Prop :=
  List.Forall₂ fun x m => x.1 = m.scope ∧ x.2.Shows m.sign

/-- What is read off the tokens is what is read off the places, if it is so for each token and its place. -/
theorem ShowsAll.filterMap {α : Type} {f : Token → Option α} {pick : Expr → Option α}
    {xs : List (Option String × Token)} {ms : List Mark} (h : ShowsAll xs ms)
    (hf : ∀ (t : Token) (sign : Sign), t.Shows sign → f t = sign.pick? pick) :
    (xs.map Prod.snd).filterMap f = ms.filterMap (Mark.pick? pick) := by
  induction h with
  | nil => rfl
  | @cons x m xs ms hshown _ ih =>
    rw [List.map_cons, List.filterMap_cons, List.filterMap_cons, hf x.2 m.sign hshown.2, ih]
    rfl

/-- Tokens that make up the places `ms g` wherever they stand in the body of the function `g`. -/
def Spells (ms : Option String → List Mark) (ts : List Token) : Prop :=
  ∀ s : Scanner, s.Ready → ShowsAll (s.trace ts) (ms s.scope) ∧ s.Resumes (ts.foldl Scanner.commit s)

/-- The same for the tokens of a body, the last of which ends the region. -/
def SpellsBody (ms : Option String → List Mark) (ts : List Token) : Prop :=
  ∀ (s : Scanner) (outer : Option String) (rest : List (Option String)), s.pending = none →
    s.enclosing = outer :: rest →
    ShowsAll (s.trace ts) (ms s.scope) ∧ (ts.foldl Scanner.commit s).scope = outer ∧
      (ts.foldl Scanner.commit s).enclosing = rest ∧ (ts.foldl Scanner.commit s).pending = none

section

variable {ms ns : Option String → List Mark} {t : Token} {ts us : List Token}

theorem Spells.nil : Spells (fun _ => []) [] := fun _ _ => ⟨.nil, rfl, rfl, .inr rfl⟩

theorem Spells.append (hts : Spells ms ts) (hus : Spells ns us) :
    Spells (fun g => ms g ++ ns g) (ts ++ us) := by
  intro s hs
  obtain ⟨hms, hresumes⟩ := hts s hs
  obtain ⟨hns, hresumes'⟩ := hus _ (hs.resumes hresumes)
  rw [hresumes.scope] at hns
  rw [Scanner.trace_append, List.foldl_append]
  exact ⟨List.rel_append hms hns, hresumes.trans hresumes'⟩

/-- A token that stands for itself. -/
theorem Spells.plain (sign : Sign) (ht : t.kind.plain) (hsign : t.Shows sign) :
    Spells (fun g => [⟨g, sign⟩]) [t] := by
  intro s _
  refine ⟨?_, (s.still_commit (movesScope_of_plain ht)).resumes⟩
  rw [Scanner.trace, spelledOut_of_plain ht]
  exact .cons ⟨rfl, hsign⟩ .nil

/-- A token that groups or separates. -/
theorem Spells.separator {kind : Kind} (ht : t.kind = kind) (hkind : kind.separates)
    (hmoves : kind.movesScope = false) : Spells (fun _ => []) [t] := by
  subst ht
  intro s _
  refine ⟨?_, (s.still_commit hmoves).resumes⟩
  rw [Scanner.trace, spelledOut_of_separates hkind]
  exact .nil

/-- A step by one, which is written as an update. -/
theorem Spells.step {op : Operator} (ht : compoundOf? t.kind = some (op, false)) :
    Spells (fun g => [⟨g, .update op⟩, ⟨g, .head (.literal (.number 1))⟩]) [t] := by
  have hone : Token.leaf? ⟨.number, "1"⟩ = some (.literal (.number 1)) := rfl
  intro s _
  cases hk : t.kind <;> simp only [hk, compoundOf?, Option.some.injEq, Prod.mk.injEq, reduceCtorEq,
    and_true, and_false] at ht
  all_goals
    subst ht
    refine ⟨?_, (s.still_commit (by rw [hk]; rfl)).resumes⟩
    simp only [Scanner.trace, Token.spelledOut, hk]
    exact .cons ⟨rfl, rfl⟩ (.cons ⟨rfl, hone⟩ .nil)

/-- A region lies in the function that is announced for it, and is left again at its end. -/
theorem SpellsBody.enter (hbody : SpellsBody ms ts) (ht : t.kind = .leftScope) (s : Scanner) :
    ShowsAll (s.trace (t :: ts)) (ms (s.pending.getD s.scope)) ∧
      s.Resumes ((t :: ts).foldl Scanner.commit s) ∧
      ((t :: ts).foldl Scanner.commit s).pending = none := by
  obtain ⟨hscope, henclosing, hpending⟩ := s.commit_leftScope ht
  have hspelled : t.spelledOut = [] := spelledOut_of_separates (by rw [ht]; rfl)
  obtain ⟨hms, hscope', henclosing', hpending'⟩ := hbody _ _ _ hpending henclosing
  rw [hscope] at hms
  rw [Scanner.trace, hspelled, List.foldl_cons]
  exact ⟨hms, ⟨hscope', henclosing', .inl hpending'⟩, hpending'⟩

theorem Scanner.Ready.getD_pending {s : Scanner} (hs : s.Ready) : s.pending.getD s.scope = s.scope := by
  rcases hs with hs | hs <;> rw [hs] <;> rfl

theorem Spells.region (ht : t.kind = .leftScope) (hbody : SpellsBody ms ts) : Spells ms (t :: ts) := by
  intro s hs
  obtain ⟨hms, hresumes, -⟩ := hbody.enter ht s
  rw [hs.getD_pending] at hms
  exact ⟨hms, hresumes⟩

/-- A loop announces a region in the function around it. -/
theorem Spells.loop {e : Expr} {w : Token} (ht : t.kind = .forWord ∨ t.kind = .whileWord)
    (hhead : t.Heads e) (hts : Spells ms ts) (hw : w.kind = .leftScope) (hbody : SpellsBody ns us) :
    Spells (fun g => ⟨g, .head e⟩ :: (ms g ++ ns g)) (t :: (ts ++ w :: us)) := by
  intro s hs
  have hspelled : t.spelledOut = [t] := by
    rcases ht with ht | ht <;> simp [Token.spelledOut, ht, Kind.separates, Kind.isBracket]
  obtain ⟨hscope, henclosing, hannounced⟩ := s.commit_loop ht
  have hready : (s.commit t).Ready := by
    right
    rw [hannounced, hscope]
  obtain ⟨hms, hresumes⟩ := hts _ hready
  obtain ⟨hns, hresumes', hpending⟩ := hbody.enter hw (ts.foldl Scanner.commit (s.commit t))
  rw [(hready.resumes hresumes).getD_pending, hresumes.scope, hscope] at hns
  rw [hscope] at hms
  have hboth := hresumes.trans hresumes'
  rw [Scanner.trace, hspelled, Scanner.trace_append, List.foldl_cons, List.foldl_append]
  exact ⟨.cons ⟨rfl, hhead⟩ (List.rel_append hms hns), hboth.scope.trans hscope,
    hboth.enclosing.trans henclosing, .inl hpending⟩

theorem ListsParameters.shows {params : List String} (h : ListsParameters params ts) (s : Scanner) :
    ShowsAll (s.trace ts) (params.map fun x => ⟨s.scope, .parameter x⟩) ∧
      s.Still (ts.foldl Scanner.commit s) := by
  induction h generalizing s with
  | nil => exact ⟨.nil, rfl, rfl, rfl⟩
  | @last t ht =>
    have hplain := Token.plain_of_isParameter ht
    rw [Scanner.trace, spelledOut_of_plain hplain]
    exact ⟨.cons ⟨rfl, ht, rfl⟩ .nil, s.still_commit (movesScope_of_plain hplain)⟩
  | @cons t u names ts ht hu _ ih =>
    have hplain := Token.plain_of_isParameter ht
    have hcomma : u.spelledOut = [] := spelledOut_of_separates (by rw [hu]; rfl)
    have hstill := (s.still_commit (movesScope_of_plain hplain)).trans
      ((s.commit t).still_commit (t := u) (by rw [hu]; rfl))
    obtain ⟨hnames, hstill'⟩ := ih ((s.commit t).commit u)
    rw [hstill.scope] at hnames
    rw [Scanner.trace, Scanner.trace, spelledOut_of_plain hplain, hcomma]
    exact ⟨.cons ⟨rfl, ht, rfl⟩ hnames, hstill.trans hstill'⟩

/-- The header of a function announces a region of that function. -/
theorem Spells.function {params : List String} {e : Expr} {u v w : Token} (ht : t.kind = .function)
    (hhead : t.Heads e) (hu : u.kind = .leftParen) (hparams : ListsParameters params ts)
    (hv : v.kind = .rightParen) (hw : w.kind = .leftScope) (hbody : SpellsBody ms us) :
    Spells (fun g => ⟨g, .head e⟩ :: (params.map (fun x => ⟨g, .parameter x⟩) ++ ms (some t.text)))
      (t :: u :: (ts ++ v :: w :: us)) := by
  intro s _
  have hspelled : t.spelledOut = [t] := by simp [Token.spelledOut, ht, Kind.separates, Kind.isBracket]
  have hopen : u.spelledOut = [] := spelledOut_of_separates (by rw [hu]; rfl)
  have hclose : v.spelledOut = [] := spelledOut_of_separates (by rw [hv]; rfl)
  obtain ⟨hscope, henclosing, hpending⟩ := s.commit_function ht
  have hstart := (s.commit t).still_commit (t := u) (by rw [hu]; rfl)
  obtain ⟨hnames, hstill⟩ := hparams.shows ((s.commit t).commit u)
  have hend := (hstart.trans hstill).trans (Scanner.still_commit _ (t := v) (by rw [hv]; rfl))
  obtain ⟨hms, hresumes, hnone⟩ :=
    hbody.enter hw ((ts.foldl Scanner.commit ((s.commit t).commit u)).commit v)
  rw [hend.pending, hpending] at hms
  rw [hstart.scope, hscope] at hnames
  have hall := hend.resumes.trans hresumes
  rw [Scanner.trace, Scanner.trace, hspelled, hopen, Scanner.trace_append, Scanner.trace, hclose,
    List.foldl_cons, List.foldl_cons, List.foldl_append, List.foldl_cons]
  exact ⟨.cons ⟨rfl, hhead⟩ (List.rel_append hnames hms), hall.scope.trans hscope,
    hall.enclosing.trans henclosing, .inl hnone⟩

theorem SpellsBody.close (ht : t.kind = .rightScope) : SpellsBody (fun _ => []) [t] := by
  intro s outer rest hpending henclosing
  have hspelled : t.spelledOut = [] := spelledOut_of_separates (by rw [ht]; rfl)
  obtain ⟨hscope, hrest, hpending'⟩ := Scanner.commit_rightScope henclosing ht
  rw [Scanner.trace, hspelled]
  exact ⟨.nil, hscope, hrest, hpending'.trans hpending⟩

theorem SpellsBody.append (hts : Spells ms ts) (hus : SpellsBody ns us) :
    SpellsBody (fun g => ms g ++ ns g) (ts ++ us) := by
  intro s outer rest hpending henclosing
  obtain ⟨hms, hresumes⟩ := hts s (.inl hpending)
  have hpending' : (ts.foldl Scanner.commit s).pending = none := by
    rcases hresumes.pending with h | h
    · exact h
    · rw [h, hpending]
  obtain ⟨hns, hleft⟩ := hus _ outer rest hpending' (hresumes.enclosing.trans henclosing)
  rw [hresumes.scope] at hns
  rw [Scanner.trace_append, List.foldl_append]
  exact ⟨List.rel_append hms hns, hleft⟩

end

/-- The tokens of a part make up its places. -/
def Part.Spelled (T : FunctionTable) (p : Part) (ts : List Token) : Prop :=
  match p with
  | .body es => SpellsBody (Expr.marksAll T · es) ts
  | p => Spells (p.marks T ·) ts

theorem Part.Spelled.expr {T : FunctionTable} {e : Expr} {ts : List Token}
    (h : Part.Spelled T (.expr e) ts) : Spells (e.marks T ·) ts := h

theorem Part.Spelled.arguments {T : FunctionTable} {es : List Expr} {ts : List Token}
    (h : Part.Spelled T (.arguments es) ts) : Spells (Expr.marksAll T · es) ts := h

theorem Part.Spelled.body {T : FunctionTable} {es : List Expr} {ts : List Token}
    (h : Part.Spelled T (.body es) ts) : SpellsBody (Expr.marksAll T · es) ts := h

theorem Part.Spelled.program {T : FunctionTable} {es : List Expr} {ts : List Token}
    (h : Part.Spelled T (.program es) ts) : Spells (Expr.marksAll T · es) ts := h

/-- The walk through a part meets its tokens, each in the function that the scan takes it to be in. By the
rules of the grammar: in each of them the scan ends where it began, or one region further out if the rule
is one of a body. -/
theorem Derives.spelled {T : FunctionTable} {p : Part} {ts : List Token} (h : Derives T p ts) :
    p.Spelled T ts := by
  have plain {t : Token} {kind : Kind} (sign : Sign) (ht : t.kind = kind) (hkind : kind.plain = true)
      (hsign : t.Shows sign) : Spells (fun g => [⟨g, sign⟩]) [t] := .plain sign (ht ▸ hkind) hsign
  induction h with
  | leaf ht =>
    simp only [Part.Spelled, Part.marks, Token.leaf?_marks ht]
    exact .plain _ (Token.plain_of_leaf? ht) (Token.heads_of_leaf? ht)
  | @opening t f e ts ht _ ih =>
    have hhead := Spells.plain (.head (f e)) (Token.plain_of_opening? ht)
      (Token.heads_of_opening? ht e)
    simp only [Part.Spelled, Part.marks, Token.opening?_marks ht]
    exact hhead.append ih.expr
  | @step t u op ht hu =>
    have hname := plain (.head (.compound t.text op (.literal (.number 1)))) ht rfl (Token.eq_mk ht)
    exact hname.append (.step hu)
  | @compound t u op e ts ht hu _ ih =>
    have hname := plain (.head (.compound t.text op e)) ht rfl (Token.eq_mk ht)
    have hupdate := Spells.plain (.update op) (Kind.plain_of_compoundOf? hu) hu
    exact hname.append (hupdate.append ih.expr)
  | @group t u e ts ht _ ih =>
    obtain ⟨ht, hu⟩ | ⟨ht, hu⟩ := Kind.closer?_cases ht
    all_goals
      have hgroup := (Spells.separator ht rfl rfl).append (ih.expr.append (Spells.separator hu rfl rfl))
      simpa [Part.Spelled, Part.marks] using hgroup
  | @call t u v es ts ht hu hv _ _ ih =>
    have hname := plain (.head (.call t.text es)) ht rfl (Token.eq_mk ht)
    have harguments := (Spells.separator hu rfl rfl).append
      (ih.arguments.append (Spells.separator hv rfl rfl))
    have hcall := hname.append harguments
    simpa [Part.Spelled, Part.marks, Expr.marks] using hcall
  | @define t u v w params es us ts ht hu hparams hv hw hentry _ _ ih =>
    have hhead : t.Heads (.define t.text es) := Token.eq_mk ht
    have hdefine := Spells.function ht hhead hu hparams hv hw ih.body
    simpa [Part.Spelled, Part.marks, Expr.marks, FunctionTable.paramsOf, hentry] using hdefine
  | @forLoop t u v w x y init condition step es is cs ss ts ht hu _ hv _ hw _ hx hy _ _ ihinit ihcondition
      ihstep ihbody =>
    have hthird := (Spells.separator hw rfl rfl).append (ihstep.expr.append (Spells.separator hx rfl rfl))
    have hsecond := (Spells.separator hv rfl rfl).append (ihcondition.expr.append hthird)
    have hheader := (Spells.separator hu rfl rfl).append (ihinit.expr.append hsecond)
    have hhead : t.Heads (.forLoop init condition step es) := ht
    have hloop := Spells.loop (.inl ht) hhead hheader hy ihbody.body
    simpa [Part.Spelled, Part.marks, Expr.marks] using hloop
  | @whileLoop t u v w condition es cs ts ht hu _ hv hw _ _ ihcondition ihbody =>
    have hheader := (Spells.separator hu rfl rfl).append
      (ihcondition.expr.append (Spells.separator hv rfl rfl))
    have hhead : t.Heads (.whileLoop condition es) := ht
    have hloop := Spells.loop (.inr ht) hhead hheader hw ihbody.body
    simpa [Part.Spelled, Part.marks, Expr.marks] using hloop
  | block ht _ _ ih => exact .region ht ih.body
  | @access t e ts _ ht ih => exact ih.expr.append (plain (.member t.text) ht rfl (Token.eq_mk ht))
  | @write t target member value ts vs _ ht _ ihtarget ihvalue =>
    have hequals := plain (.head (.write target member value)) ht rfl ht
    have hwrite := ihtarget.expr.append (hequals.append ihvalue.expr)
    simpa [Part.Spelled, Part.marks, Expr.marks] using hwrite
  | @binary t op left right ls rs _ ht _ ihleft ihright =>
    have hjoint := Spells.plain (.head (.binary op left right)) (Kind.plain_of_joint ht) ht
    exact ihleft.expr.append (hjoint.append ihright.expr)
  | ternary _ ht _ hu _ ihcondition ihyes ihno =>
    have hno := (Spells.separator hu rfl rfl).append ihno.expr
    have hyes := (Spells.separator ht rfl rfl).append (ihyes.expr.append hno)
    exact ihcondition.expr.append hyes
  | noArgument | programEnd => exact .nil
  | lastArgument _ ih => simpa [Part.Spelled, Part.marks, Expr.marksAll] using ih.expr
  | argument _ ht _ ih ihrest =>
    exact ih.expr.append ((Spells.separator ht rfl rfl).append ihrest.arguments)
  | bodyEnd ht => exact .close ht
  | bodySemicolon ht _ ih => exact .append (Spells.separator ht rfl rfl) ih.body
  | bodyStatement _ _ ih ihrest => exact .append ih.expr ihrest.body
  | programSemicolon ht _ ih => exact (Spells.separator ht rfl rfl).append ih.program
  | programStatement _ _ ih ihrest => exact ih.expr.append ihrest.program

/-- The parser accepts only its grammar. The brackets of the tokens are nested, and the tokens make up
the expressions by the rules; those that neither group nor separate are the tokens of the expressions from
left to right, each of them once. No body, no argument list and no parameter list is too long. -/
theorem parse_faithful {ts : List Token} {parsed : Parsed} (h : parse (group ts) = .ok parsed) :
    WellNested ts ∧ Derives parsed.functions (.program parsed.expressions) ts ∧
      List.Forall₂ Token.Shows (ts.flatMap Token.spelledOut)
        ((Expr.marksAll parsed.functions none parsed.expressions).map Mark.sign) ∧
      (∀ n ∈ Expr.nodesAll parsed.expressions, n.Bounded 64 30) ∧
      ∀ (name : String) (entry : FunctionEntry), parsed.functions[name]? = some entry →
        entry.params.length ≤ 30 := by
  have hderives := parse_derives h
  refine ⟨hderives.nested, hderives, ?_, hderives.bounded, parse_params_bounded h⟩
  have hshows := (hderives.spelled.program {} (.inl rfl)).1
  rw [← Scanner.map_snd_trace {}, List.forall₂_map_left_iff, List.forall₂_map_right_iff]
  exact hshows.imp fun _ _ hshown => hshown.2

/-- `function f(a){ while(a > 0){ a-- } }` -/
def countdown : List Token :=
  [⟨.function, "f"⟩, ⟨.leftParen, "("⟩, ⟨.parameter, "a"⟩, ⟨.rightParen, ")"⟩, ⟨.leftScope, "\x7b"⟩,
   ⟨.whileWord, "while"⟩, ⟨.leftParen, "("⟩, ⟨.variableName, "a"⟩, ⟨.greater, ">"⟩, ⟨.number, "0"⟩,
   ⟨.rightParen, ")"⟩, ⟨.leftScope, "\x7b"⟩, ⟨.variableName, "a"⟩, ⟨.decrement, "--"⟩,
   ⟨.rightScope, "\x7d"⟩, ⟨.rightScope, "\x7d"⟩]

theorem parse_faithful_countdown :
    ∃ parsed, parse (group countdown) = .ok parsed ∧ WellNested countdown ∧
      List.Forall₂ Token.Shows
        [⟨.function, "f"⟩, ⟨.parameter, "a"⟩, ⟨.whileWord, "while"⟩, ⟨.variableName, "a"⟩,
         ⟨.greater, ">"⟩, ⟨.number, "0"⟩, ⟨.variableName, "a"⟩, ⟨.minusAssign, "-="⟩, ⟨.number, "1"⟩]
        ((Expr.marksAll parsed.functions none parsed.expressions).map Mark.sign) := by
  have hok : (parse (group countdown)).isOk = true := by decide +kernel
  cases h : parse (group countdown) with
  | error error =>
    rw [h] at hok
    cases hok
  | ok parsed =>
    obtain ⟨hnested, -, hshows, -⟩ := parse_faithful h
    exact ⟨parsed, rfl, hnested, hshows⟩

end HostScript
