import HostScript.Proofs.Expr.Traversal
import HostScript.Proofs.Session.History
import HostScript.Proofs.Token.Names

/-!
# Scopes of names

The scan of a script decides which names are visible, with a record of the parameters of each function
and a stack of the regions around the current point. Which construct a name belongs to is decided later,
by the parser. In a script that compiles the two agree: a name is looked up only behind a binding of it
or an import, or where it is a parameter of the innermost function around it.
-/
namespace HostScript

/-! ## Recorded parameters -/

/-- Every parameter that a scan has recorded for a function is one that the table has for it. -/
def Scanner.Recorded (T : FunctionTable) (s : Scanner) : Prop :=
  ∀ function name, name ∈ s.parameters.getD function [] →
    ∃ entry, T[function]? = some entry ∧ name ∈ entry.params

/-- Tokens that record nothing else than what the table has. -/
def Records (T : FunctionTable) (ts : List Token) : Prop :=
  ∀ s : Scanner, s.Recorded T → (ts.foldl Scanner.commit s).Recorded T

section

variable {T : FunctionTable} {t u : Token} {ts us : List Token}

theorem Records.nil : Records T [] := fun _ hs => hs

theorem Records.append (hts : Records T ts) (hus : Records T us) : Records T (ts ++ us) := by
  intro s hs
  rw [List.foldl_append]
  exact hus _ (hts s hs)

theorem Records.cons (ht : t.kind ≠ .parameter) (hts : Records T ts) : Records T (t :: ts) := by
  refine fun s hs => hts _ fun function name hname => ?_
  rcases (s.mem_parameters_commit t).mp hname with hold | ⟨rfl, _⟩
  · exact hs function name hold
  · exact absurd rfl ht

theorem Records.single (ht : t.kind ≠ .parameter) : Records T [t] := .cons ht .nil

theorem Records.between (hts : Records T ts) (ht : t.kind ≠ .parameter) (hus : Records T us) :
    Records T (ts ++ t :: us) :=
  hts.append (.cons ht hus)

/-- Behind the header of a function, its parameters are recorded for it. -/
theorem ListsParameters.recorded {names : List String} (h : ListsParameters names us)
    {function : String} {entry : FunctionEntry} (hentry : T[function]? = some entry)
    (hnames : ∀ name ∈ names, name ∈ entry.params) {s : Scanner} (hs : s.Recorded T)
    (hheader : s.header?.map Token.text = some function) : (us.foldl Scanner.commit s).Recorded T := by
  have parameter {t : Token} {s : Scanner} (ht : t.text ∈ entry.params) (hs : s.Recorded T)
      (hheader : s.header?.map Token.text = some function) : (s.commit t).Recorded T := by
    intro other name hname
    rcases (s.mem_parameters_commit t).mp hname with hold | ⟨rfl, hother⟩
    · exact hs other name hold
    · rw [hheader, Option.some.injEq] at hother
      subst hother
      exact ⟨entry, hentry, ht⟩
  induction h generalizing s with
  | nil => exact hs
  | last ht => exact parameter (hnames _ List.mem_cons_self) hs hheader
  | @cons t u names ts ht hu _ ih =>
    have hfunction : t.kind ≠ .function := by
      intro hk
      simp [Token.isParameter, hk] at ht
    have hrecorded := parameter (hnames _ List.mem_cons_self) hs hheader
    refine ih (fun name hname => hnames name (List.mem_cons_of_mem _ hname)) ?_ ?_
    · exact Records.single (by simp [hu]) _ hrecorded
    · rw [Scanner.header?_commit, if_neg (by simp [hu]), Scanner.header?_commit, if_neg hfunction]
      exact hheader

theorem Records.header {params : List String} (ht : t.kind = .function) (hu : u.kind = .leftParen)
    (hentry : T[t.text]? = some { params }) (hparams : ListsParameters params us) (hts : Records T ts) :
    Records T (t :: u :: (us ++ ts)) := by
  intro s hs
  have hopened : ([t, u].foldl Scanner.commit s).Recorded T :=
    Records.cons (by simp [ht]) (.single (by simp [hu])) s hs
  have hheader : ((s.commit t).commit u).header?.map Token.text = some t.text := by
    rw [Scanner.header?_commit, if_neg (by simp [hu]), Scanner.header?_commit, if_pos ht]
    rfl
  rw [List.foldl_cons, List.foldl_cons, List.foldl_append]
  exact hts _ (hparams.recorded hentry (fun _ hname => hname) hopened hheader)

end

theorem Derives.records {T : FunctionTable} {p : Part} {ts : List Token} (h : Derives T p ts) :
    Records T ts := by
  have other {t : Token} {kind : Kind} (ht : t.kind = kind) (hkind : kind ≠ .parameter) :
      t.kind ≠ .parameter := ht ▸ hkind
  induction h with
  | leaf ht =>
    refine .single fun hk => ?_
    simp [Token.leaf?, hk] at ht
  | opening ht _ ih =>
    refine .cons (fun hk => ?_) ih
    simp [Token.opening?, hk] at ht
  | step ht hu =>
    refine .cons (other ht (by decide)) (.single fun hk => ?_)
    rw [hk] at hu
    cases hu
  | compound ht hu _ ih =>
    refine .cons (other ht (by decide)) (.cons (fun hk => ?_) ih)
    rw [hk] at hu
    cases hu
  | group ht _ ih =>
    obtain ⟨ht, hu⟩ | ⟨ht, hu⟩ := Kind.closer?_cases ht
    all_goals exact .cons (other ht (by decide)) (.append ih (.single (other hu (by decide))))
  | call ht hu hv _ _ ih =>
    exact .cons (other ht (by decide)) (.cons (other hu (by decide)) (.append ih (.single (other hv (by decide)))))
  | define ht hu hparams hv hw hentry _ _ ih =>
    exact .header ht hu hentry hparams (.cons (other hv (by decide)) (.cons (other hw (by decide)) ih))
  | forLoop ht hu _ hv _ hw _ hx hy _ _ ihinit ihcondition ihstep ihbody =>
    have hbody := Records.cons (other hx (by decide)) (.cons (other hy (by decide)) ihbody)
    have hclauses := Records.between ihinit (other hv (by decide))
      (.between ihcondition (other hw (by decide)) (ihstep.append hbody))
    exact .cons (other ht (by decide)) (.cons (other hu (by decide)) hclauses)
  | whileLoop ht hu _ hv hw _ _ ihcondition ihbody =>
    have hbody := Records.cons (other hv (by decide)) (.cons (other hw (by decide)) ihbody)
    exact .cons (other ht (by decide)) (.cons (other hu (by decide)) (ihcondition.append hbody))
  | block ht _ _ ih => exact .cons (other ht (by decide)) ih
  | access _ ht ih => exact ih.append (.single (other ht (by decide)))
  | write _ ht _ ihtarget ihvalue => exact ihtarget.between (other ht (by decide)) ihvalue
  | binary _ ht _ ihleft ihright =>
    refine ihleft.between (fun hk => ?_) ihright
    rw [hk] at ht
    cases ht
  | ternary _ ht _ hu _ ihcondition ihyes ihno =>
    exact ihcondition.between (other ht (by decide)) (ihyes.between (other hu (by decide)) ihno)
  | noArgument | programEnd => exact .nil
  | lastArgument _ ih => exact ih
  | argument _ ht _ ih ihrest => exact ih.between (other ht (by decide)) ihrest
  | bodyEnd ht => exact .single (other ht (by decide))
  | bodySemicolon ht _ ih | programSemicolon ht _ ih => exact .cons (other ht (by decide)) ih
  | bodyStatement _ _ ih ihrest | programStatement _ _ ih ihrest => exact ih.append ihrest

/-! ## Lookups -/

def Expr.uses? : Expr → Option String
  | .var name | .assign name _ | .compound name _ _ => some name
  | _ => none

/-- The construct at a place, if it looks a name up. -/
def Mark.lookup? (m : Mark) : Option Expr :=
  match m.sign with
  | .head e => if e.uses?.isSome then some e else none
  | _ => none

theorem Mark.lookup?_eq_some {m : Mark} {n : Expr} (h : m.lookup? = some n) : m.sign = .head n := by
  unfold Mark.lookup? at h
  split at h
  · split at h
    · cases h
      assumption
    · cases h
  · cases h

/-- The constructs that look a name up, read off the places. -/
theorem Mark.lookup?_eq_pick? : Mark.lookup? = Mark.pick? (Option.guard fun e => e.uses?.isSome) := by
  funext ⟨g, sign⟩
  cases sign with
  | head e => cases h : e.uses? <;> simp [lookup?, pick?, Sign.pick?, Option.guard, h]
  | _ => rfl

theorem Expr.filterMap_marksAll {T : FunctionTable} (es : List Expr)
    (h : ∀ e ∈ es, ∀ g, (e.marks T g).filterMap Mark.lookup? = e.nodes.filter fun n => n.uses?.isSome)
    (g : Option String) :
    (Expr.marksAll T g es).filterMap Mark.lookup? = (Expr.nodesAll es).filter fun n => n.uses?.isSome := by
  simp only [Mark.lookup?_eq_pick?, ← List.filterMap_eq_filter] at h ⊢
  exact Expr.pick_marksAll es h g

/-- The places of an expression have every lookup of it once and in order. -/
theorem Expr.filterMap_marks (T : FunctionTable) (e : Expr) (g : Option String) :
    (e.marks T g).filterMap Mark.lookup? = e.nodes.filter fun n => n.uses?.isSome := by
  rw [Mark.lookup?_eq_pick?, ← List.filterMap_eq_filter]
  refine Expr.pick_marks (fun n hn => ?_) T e g
  cases n <;> first | rfl | cases hn

theorem Token.Heads.looksUp {t : Token} {n : Expr} {name : String} (h : t.Heads n)
    (hname : n.uses? = some name) : t.kind.looksUp ∧ t.text = name := by
  cases n with
  | var =>
    cases hname
    have hleaf : t.leaf? = some (.var name) := h
    unfold Token.leaf? at hleaf
    cases hk : t.kind <;> simp [hk] at hleaf
    exact ⟨rfl, hleaf⟩
  | assign | compound =>
    cases hname
    cases h
    exact ⟨rfl, rfl⟩
  | _ => cases hname

theorem Token.spelledOut_cases (t : Token) :
    t.spelledOut = [] ∨ t.spelledOut = [t] ∨
      ∃ u v, t.spelledOut = [u, v] ∧ u.kind.looksUp = false ∧ v.kind.looksUp = false := by
  unfold Token.spelledOut
  split
  · exact .inr (.inr ⟨_, _, rfl, rfl, rfl⟩)
  · exact .inr (.inr ⟨_, _, rfl, rfl, rfl⟩)
  · split
    · exact .inl rfl
    · exact .inr (.inl rfl)

/-- A token that looks a name up, found among the tokens that a scan takes in, comes from one place in
them. -/
theorem Scanner.trace_split {s : Scanner} {ts : List Token} {xs ys : List (Option String × Token)}
    {g : Option String} {u : Token} (h : s.trace ts = xs ++ (g, u) :: ys) (hu : u.kind.looksUp) :
    ∃ pre post, ts = pre ++ u :: post ∧ s.trace pre = xs ∧ (pre.foldl commit s).scope = g := by
  induction ts generalizing s xs with
  | nil => simp [trace] at h
  | cons t ts ih =>
    have later {zs : List (Option String × Token)} (hzs : (s.commit t).trace ts = zs ++ (g, u) :: ys)
        (hxs : xs = t.spelledOut.map (fun v => (s.scope, v)) ++ zs) :
        ∃ pre post, t :: ts = pre ++ u :: post ∧ s.trace pre = xs ∧ (pre.foldl commit s).scope = g := by
      obtain ⟨pre, post, rfl, htrace, hscope⟩ := ih hzs
      exact ⟨t :: pre, post, rfl, by rw [trace, htrace, hxs], hscope⟩
    rw [trace] at h
    rcases t.spelledOut_cases with hnone | hself | ⟨v, w, hboth, hv, hw⟩
    · rw [hnone] at h later
      exact later h rfl
    · rw [hself] at h later
      cases xs with
      | nil =>
        cases h
        exact ⟨[], ts, rfl, rfl, rfl⟩
      | cons x xs =>
        simp only [List.map_cons, List.map_nil, List.cons_append, List.nil_append, List.cons.injEq] at h
        obtain ⟨rfl, h⟩ := h
        exact later h rfl
    · rw [hboth] at h later
      simp only [List.map_cons, List.map_nil, List.cons_append, List.nil_append] at h
      rcases xs with _ | ⟨x, _ | ⟨y, xs⟩⟩
      · cases h
        rw [hv] at hu
        cases hu
      · cases h
        rw [hw] at hu
        cases hu
      · simp only [List.cons_append, List.cons.injEq] at h
        obtain ⟨rfl, rfl, h⟩ := h
        exact later h rfl

/-- Where a name may be looked up, behind the tokens `pre` and in the body of the function `g`: it is
declared by one of the tokens, or it is a parameter of the function. -/
def Visible (T : FunctionTable) (pre : List Token) (g : Option String) (name : String) : Prop :=
  (∃ d ∈ pre, d.Declares name) ∨
    ∃ function entry, g = some function ∧ T[function]? = some entry ∧ name ∈ entry.params

/-- The token of a lookup at a place of a parsed script, between the tokens of the places before and after
it, and what makes its name visible there. -/
theorem parseSource_visible {builtins : List String} {source : String} {parsed : Parsed}
    (h : parseSource builtins source = .ok parsed) {before after : List Mark} {g : Option String}
    {n : Expr} {name : String}
    (hmarks : Expr.marksAll parsed.functions none parsed.expressions = before ++ ⟨g, .head n⟩ :: after)
    (hname : n.uses? = some name) :
    ∃ pre t post, (tokenize builtins source).tokens = pre ++ t :: post ∧ t.Heads n ∧
      List.Forall₂ Token.Shows (pre.flatMap Token.spelledOut) (before.map Mark.sign) ∧
      Visible parsed.functions pre g name := by
  have hderives : Derives parsed.functions (.program parsed.expressions) (tokenize builtins source).tokens :=
    parse_derives h
  have hshows : ShowsAll ((Scanner.start builtins).trace (tokenize builtins source).tokens)
      (before ++ ⟨g, .head n⟩ :: after) := hmarks ▸ (hderives.spelled.program _ (.inl rfl)).1
  have hbefore := List.forall₂_take_append _ _ _ hshows
  obtain ⟨⟨_, t⟩, later, ⟨rfl, hheads⟩, -, hdrop⟩ :=
    List.forall₂_cons_right_iff.mp (List.forall₂_drop_append _ _ _ hshows)
  obtain ⟨hkind, rfl⟩ := Token.Heads.looksUp hheads hname
  have htrace := List.take_append_drop before.length
    ((Scanner.start builtins).trace (tokenize builtins source).tokens)
  rw [hdrop] at htrace
  obtain ⟨pre, post, hsplit, hpre, hscope⟩ := Scanner.trace_split htrace.symm hkind
  refine ⟨pre, t, post, hsplit, hheads, ?_, ?_⟩
  · rw [← hpre] at hbefore
    rw [← Scanner.map_snd_trace (Scanner.start builtins), List.forall₂_map_left_iff,
      List.forall₂_map_right_iff]
    exact hbefore.imp fun _ _ hshown => hshown.2
  · rcases tokenize_looksUp hsplit hkind with hdeclared | ⟨function, hfunction, hparameter⟩
    · exact .inl hdeclared
    · have hstart : (Scanner.start builtins).Recorded parsed.functions := by
        intro function name hname
        simp [Scanner.start] at hname
      have hrecorded := hderives.records _ hstart
      rw [hsplit, List.foldl_append] at hrecorded
      obtain ⟨entry, hentry, hmem⟩ :=
        hrecorded function t.text (Scanner.mem_parameters_foldl_commit hparameter (t :: post))
      exact .inr ⟨function, entry, hscope ▸ hfunction, hentry, hmem⟩

namespace Session

variable {σ : Type}

theorem parseSource_of_compile {s t : Session σ} {source : String} {debug : Bool} {p : Program}
    (h : compile source debug s = (.ok p, t)) :
    parseSource s.builtins.names source = .ok ⟨p.expressions, p.functions⟩ := by
  have hobtains := compile_obtains source debug s
  rw [h] at hobtains
  cases hobtains with
  | found _ hkept => cases hkept
  | compiled _ _ hparsed => exact hparsed

end Session

/-- Names are lexically scoped in every script that compiles. The walk through the program meets every
construct that looks a name up. The token of the construct, found behind the tokens of what comes before
it in the walk, has the name declared by a token before it, or the name is a parameter that the table has
for the innermost function around the construct. -/
theorem compile_scoped {σ : Type} {s t : Session σ} {source : String} {debug : Bool} {p : Program}
    (h : Session.compile source debug s = (.ok p, t)) :
    (Expr.marksAll p.functions none p.expressions).filterMap Mark.lookup? =
        (Expr.nodesAll p.expressions).filter (fun n => n.uses?.isSome) ∧
      ∀ before g n after name,
        Expr.marksAll p.functions none p.expressions = before ++ ⟨g, .head n⟩ :: after →
        n.uses? = some name →
        ∃ pre u post, (tokenize s.builtins.names source).tokens = pre ++ u :: post ∧ u.Heads n ∧
          List.Forall₂ Token.Shows (pre.flatMap Token.spelledOut) (before.map Mark.sign) ∧
          Visible p.functions pre g name := by
  refine ⟨Expr.filterMap_marksAll _ (fun e _ => e.filterMap_marks p.functions) none, ?_⟩
  intro before g n after name hmarks hname
  exact parseSource_visible (Session.parseSource_of_compile h) hmarks hname

/-- `let x = 1; function g(b){ function f(a){ while(x < 2){ x = a } } }`, where a loop stands between the
inner function and the names that it looks up. -/
def nestedFunctions : String :=
  "let x = 1; function g(b)\x7b function f(a)\x7b while(x < 2)\x7b x = a \x7d \x7d \x7d"

theorem compile_scoped_nested :
    ∃ p t before n after, Session.compile nestedFunctions false (Session.start ∅ ()) = (.ok p, t) ∧
      Expr.marksAll p.functions none p.expressions = before ++ ⟨some "f", .head n⟩ :: after ∧
      n.uses? = some "a" ∧
      ∃ pre u post, (tokenize [] nestedFunctions).tokens = pre ++ u :: post ∧ u.Heads n ∧
        Visible p.functions pre (some "f") "a" := by
  have hfound : (match (Session.compile nestedFunctions false (Session.start ∅ ())).1 with
      | .ok p => (Expr.marksAll p.functions none p.expressions).any fun m =>
          m.scope == some "f" && m.lookup?.bind Expr.uses? == some "a"
      | .error _ => false) = true := by decide +kernel
  rcases hcompile : Session.compile nestedFunctions false (Session.start ∅ ()) with ⟨failure | p, t⟩
  · rw [hcompile] at hfound
    cases hfound
  · rw [hcompile] at hfound
    obtain ⟨⟨g, sign⟩, hmem, hm⟩ := List.any_eq_true.mp hfound
    simp only [Bool.and_eq_true, beq_iff_eq] at hm
    obtain ⟨rfl, hlookup⟩ := hm
    obtain ⟨n, hn, hname⟩ := Option.bind_eq_some_iff.mp hlookup
    obtain rfl := Mark.lookup?_eq_some hn
    obtain ⟨before, after, hmarks⟩ := List.append_of_mem hmem
    obtain ⟨pre, u, post, hsplit, hheads, -, hvisible⟩ :=
      (compile_scoped hcompile).2 _ _ _ _ _ hmarks hname
    exact ⟨p, t, before, n, after, rfl, hmarks, hname, pre, u, post, hsplit, hheads, hvisible⟩

end HostScript
