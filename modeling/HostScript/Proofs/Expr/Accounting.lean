import HostScript.Proofs.Expr.Nodes
import HostScript.Proofs.Expr.Outcome

/-!
# Calls and definitions of parsed scripts

Every call and every definition in a parsed script comes from one token of its own, and every such token
of the script becomes one of them. The functions found by the parser are those that are defined in the
script, and they have no bodies.
-/
namespace HostScript

/-- The token that a call or a definition begins with. -/
def Expr.heading? : Expr → Option Token
  | .call name _ => some ⟨.call, name⟩
  | .define name _ => some ⟨.function, name⟩
  | _ => none

/-- How often a token heads a call or a definition among the listed constructs. -/
def Expr.headings (t : Token) (es : List Expr) : Nat := (es.filterMap Expr.heading?).count t

@[simp] theorem Expr.headings_append (t : Token) (es fs : List Expr) :
    Expr.headings t (es ++ fs) = Expr.headings t es + Expr.headings t fs := by
  simp [Expr.headings]

@[simp] theorem Expr.headings_nil (t : Token) : Expr.headings t [] = 0 := rfl

theorem Expr.headings_cons (t : Token) (e : Expr) (es : List Expr) :
    Expr.headings t (e :: es) = e.heading?.toList.count t + Expr.headings t es := by
  cases h : e.heading? with
  | none => simp [Expr.headings, h]
  | some u =>
    simp only [Expr.headings, List.filterMap_cons, h, Option.toList_some, List.count_cons,
      List.count_nil]
    omega

def Part.nodes : Part → List Expr
  | .expr e => e.nodes
  | .arguments es | .body es | .program es => Expr.nodesAll es

/-- How often a token is still to be read. -/
def ParserState.unread (s : ParserState) (t : Token) : Nat :=
  s.tokens.count t + s.pending.flatten.count t

def Kind.heads : Kind → Bool
  | .call | .function => true
  | _ => false

theorem Token.leaf?_nodes {u : Token} {e : Expr} (h : u.leaf? = some e) :
    u.kind.heads = false ∧ e.nodes = [e] ∧ e.heading? = none := by
  have hkind : u.kind.heads = false := by
    unfold Token.leaf? at h
    revert h
    cases u.kind <;> simp [Kind.heads]
  have hleaf := Token.isLeaf_of_leaf? h
  cases e with
  | literal | query | var | namespaceName | usingName | importName => exact ⟨hkind, rfl, rfl⟩
  | _ => cases hleaf

theorem Token.opening?_nodes {u : Token} {f : Expr → Expr} (h : u.opening? = some f) (e : Expr) :
    u.kind.heads = false ∧ (f e).nodes = f e :: e.nodes ∧ (f e).heading? = none := by
  obtain ⟨hk, rfl⟩ | ⟨hk, rfl⟩ | ⟨hk, rfl⟩ := Token.opening?_cases h
  all_goals exact ⟨by rw [hk]; rfl, rfl, rfl⟩

theorem heads_of_closer? {k : Kind} {l : Kind} (h : k.closer? = some l) :
    k.heads = false ∧ l.heads = false := by
  obtain ⟨rfl, rfl⟩ | ⟨rfl, rfl⟩ := Kind.closer?_cases h
  all_goals exact ⟨rfl, rfl⟩

theorem heads_of_compoundOf? {k : Kind} {r : Operator × Bool} (h : compoundOf? k = some r) :
    k.heads = false := by
  cases k with
  | call | function => cases h
  | _ => rfl

theorem heads_of_joint {k : Kind} {joint : Joint} (h : Joint.ofKind? k = some joint) :
    k.heads = false := by
  cases k with
  | call | function => cases h
  | _ => rfl

section

variable {t : Token} (ht : t.kind.heads)

include ht

theorem count_cons_of_kind {u : Token} (hu : u.kind.heads = false) (ts : List Token) :
    (u :: ts).count t = ts.count t := by
  refine List.count_cons_of_ne fun h => ?_
  rw [h, ht] at hu
  cases hu

theorem parameterNames_count (allowance : Nat) (ts : List Token) :
    (parameterNames allowance ts).2.count t = ts.count t := by
  have parameter_heads (u : Token) (hu : (u.kind == .parameter || u.kind == .variableName) = true) :
      u.kind.heads = false := by
    simp only [Bool.or_eq_true, beq_iff_eq] at hu
    rcases hu with hu | hu <;> rw [hu] <;> rfl
  fun_induction parameterNames allowance ts with
  | case1 | case2 | case6 => rfl
  | case3 allowance u hu => rw [count_cons_of_kind ht (parameter_heads u hu)]
  | case4 allowance u hu v rest hv more ih =>
    have hv' : v.kind.heads = false := by
      rw [beq_iff_eq.mp hv]
      rfl
    rw [count_cons_of_kind ht (parameter_heads u hu), count_cons_of_kind ht hv']
    exact ih
  | case5 allowance u hu v rest hv => rw [count_cons_of_kind ht (parameter_heads u hu)]

/-- The rules lose no token that heads a call or a definition, and make none up. -/
theorem Reads.unread_eq {p : Part} {s s' : ParserState} (h : Reads p s s') :
    s.unread t = Expr.headings t p.nodes + s'.unread t := by
  have skip {u : Token} {k : Kind} (hu : u.kind = k) (hk : k.heads = false) (ts : List Token) :
      (u :: ts).count t = ts.count t := count_cons_of_kind ht (hu ▸ hk) ts
  have head {u : Token} {k : Kind} (hu : u.kind = k) (ts : List Token) :
      (u :: ts).count t = [⟨k, u.text⟩].count t + ts.count t := by
    subst hu
    rw [← List.count_append]
    rfl
  have closing {st : List Token} (hst : isClosing st) : st.count t = 0 := by
    unfold isClosing closing? at hst
    split at hst
    · split at hst
      · rw [skip ‹_› rfl, List.count_nil]
      · cases hst
    · cases hst
  induction h with
  | leaf hleaf =>
    obtain ⟨hu, hnodes, hheading⟩ := Token.leaf?_nodes hleaf
    simp [ParserState.unread, Part.nodes, hnodes, Expr.headings_cons, hheading, count_cons_of_kind ht hu]
  | @opening u f e ts ps fs s' hopening _ ih =>
    obtain ⟨hu, hnodes, hheading⟩ := Token.opening?_nodes hopening e
    simpa [ParserState.unread, Part.nodes, count_cons_of_kind ht hu, hnodes, Expr.headings_cons,
      hheading] using ih
  | step hu hv =>
    simp [ParserState.unread, Part.nodes, Expr.nodes, Expr.headings_cons, Expr.heading?,
      skip hu rfl, count_cons_of_kind ht (heads_of_compoundOf? hv)]
  | compound hu hv _ ih =>
    simpa [ParserState.unread, Part.nodes, Expr.nodes, Expr.headings_cons, Expr.heading?,
      skip hu rfl, count_cons_of_kind ht (heads_of_compoundOf? hv)] using ih
  | group hu _ ih =>
    obtain ⟨hopen, hclose⟩ := heads_of_closer? hu
    simpa [ParserState.unread, Part.nodes, count_cons_of_kind ht hopen, count_cons_of_kind ht hclose]
      using ih
  | call hu hv hw _ _ ih =>
    simp only [ParserState.unread, Part.nodes, Expr.nodes, Expr.headings_cons, Expr.heading?, head hu,
      skip hv rfl, skip hw rfl, Option.toList_some] at ih ⊢
    omega
  | @define u v w x params es ts ts' ps fs ps' fs' hu hv hparams hw hx _ _ _ ih =>
    have hcount := parameterNames_count ht listLimit ts
    rw [hparams, skip hw rfl, skip hx rfl] at hcount
    simp only [ParserState.unread, Part.nodes, Expr.nodes, Expr.headings_cons, Expr.heading?, head hu,
      skip hv rfl, List.count_nil, Option.toList_some] at ih ⊢
    omega
  | forLoop hu hv _ hw _ hx _ hy hz _ _ ihinit ihcondition ihstep ihbody =>
    simp only [ParserState.unread, Part.nodes, Expr.nodes, Expr.headings_cons, Expr.headings_append,
      Expr.heading?, skip hu rfl, skip hv rfl, skip hw rfl, skip hx rfl, skip hy rfl, skip hz rfl,
      List.count_nil, Option.toList_none] at *
    omega
  | whileLoop hu hv _ hw hx _ _ ihcondition ihbody =>
    simp only [ParserState.unread, Part.nodes, Expr.nodes, Expr.headings_cons, Expr.headings_append,
      Expr.heading?, skip hu rfl, skip hv rfl, skip hw rfl, skip hx rfl, List.count_nil,
      Option.toList_none] at *
    omega
  | block hu _ _ ih =>
    simp only [ParserState.unread, Part.nodes, Expr.nodes, Expr.headings_cons, Expr.heading?,
      skip hu rfl, List.count_nil, Option.toList_none] at *
    omega
  | access _ hu ih =>
    simp only [ParserState.unread, Part.nodes, Expr.nodes, Expr.headings_cons, Expr.heading?,
      skip hu rfl, List.count_nil, Option.toList_none] at *
    omega
  | write _ hu _ ihtarget ihvalue =>
    simp only [ParserState.unread, Part.nodes, Expr.nodes, Expr.headings_cons, Expr.headings_append,
      Expr.heading?, skip hu rfl, Option.toList_none] at *
    omega
  | binary _ hu _ ihleft ihright =>
    have hjoint := count_cons_of_kind ht (heads_of_joint hu)
    simp only [ParserState.unread, Part.nodes, Expr.nodes, Expr.headings_cons, Expr.headings_append,
      Expr.heading?, hjoint, List.count_nil, Option.toList_none] at *
    omega
  | ternary _ hu _ hv _ ihcondition ihyes ihno =>
    simp only [ParserState.unread, Part.nodes, Expr.nodes, Expr.headings_cons, Expr.headings_append,
      Expr.heading?, skip hu rfl, skip hv rfl, List.count_nil, Option.toList_none] at *
    omega
  | noArgument | programEnd => simp [Part.nodes]
  | lastArgument _ ih => simpa [Part.nodes] using ih
  | argument _ hu _ ih ihrest =>
    simp only [ParserState.unread, Part.nodes, Expr.nodesAll_cons, Expr.headings_append,
      skip hu rfl] at *
    omega
  | bodyEnd hclose => simp [ParserState.unread, Part.nodes, closing hclose]
  | bodyStatement _ _ _ ih ihrest | programStatement _ _ _ ih ihrest =>
    simp only [ParserState.unread, Part.nodes, Expr.nodesAll_cons, Expr.headings_append,
      List.flatten_cons, List.count_append, List.count_nil] at *
    omega

end

/-- What holds of a table, and stays true when a new function is found, holds of all later tables. -/
theorem Reads.functions_induction {P : FunctionTable → Prop}
    (hinsert : ∀ (fs : FunctionTable) (name : String) (params : List String), P fs → name ∉ fs →
      params.length ≤ listLimit → P (fs.insert name { params }))
    {p : Part} {s s' : ParserState} (h : Reads p s s') (hs : P s.functions) : P s'.functions := by
  induction h with
  | leaf | step | noArgument | bodyEnd | programEnd => exact hs
  | opening _ _ ih | compound _ _ _ ih | group _ _ ih | call _ _ _ _ _ ih | block _ _ _ ih
  | access _ _ ih | lastArgument _ ih => exact ih hs
  | @define _ _ _ _ params _ ts _ _ _ _ _ _ _ hparams _ _ hnew _ _ ih =>
    have hlen := length_fst_parameterNames_le listLimit ts
    rw [hparams] at hlen
    exact ih (hinsert _ _ params hs hnew hlen)
  | forLoop _ _ _ _ _ _ _ _ _ _ _ ihinit ihcondition ihstep ihbody =>
    exact ihbody (ihstep (ihcondition (ihinit hs)))
  | whileLoop _ _ _ _ _ _ _ ihcondition ihbody => exact ihbody (ihcondition hs)
  | write _ _ _ ih ih' | binary _ _ _ ih ih' | argument _ _ _ ih ih' | bodyStatement _ _ _ ih ih'
  | programStatement _ _ _ ih ih' => exact ih' (ih hs)
  | ternary _ _ _ _ _ ihcondition ihyes ihno => exact ihno (ihyes (ihcondition hs))

/-- The functions found so far stay as they are. -/
theorem Reads.getElem?_functions {p : Part} {s s' : ParserState} (h : Reads p s s') {name : String}
    {entry : FunctionEntry} (hentry : s.functions[name]? = some entry) :
    s'.functions[name]? = some entry := by
  refine h.functions_induction (P := fun fs => fs[name]? = some entry) ?_ hentry
  intro fs other _ hfs hnew _
  rw [Std.ExtTreeMap.getElem?_insert, if_neg, hfs]
  intro heq
  rw [Std.LawfulEqCmp.eq_of_compare heq] at hnew
  exact hnew (Std.ExtTreeMap.mem_iff_isSome_getElem?.mpr (by rw [hfs]; rfl))

/-- A table in which every listed definition stands without a body. -/
def FunctionTable.Finds (fs : FunctionTable) (es : List Expr) : Prop :=
  ∀ name body, .define name body ∈ es → ∃ params, fs[name]? = some { params }

theorem FunctionTable.finds_append {fs : FunctionTable} {es es' : List Expr} :
    fs.Finds (es ++ es') ↔ fs.Finds es ∧ fs.Finds es' := by
  simp only [FunctionTable.Finds, List.mem_append, or_imp, forall_and]

theorem FunctionTable.finds_cons {fs : FunctionTable} {e : Expr} {es : List Expr}
    (he : ∀ name body, e ≠ .define name body) : fs.Finds (e :: es) ↔ fs.Finds es := by
  simp only [FunctionTable.Finds, List.mem_cons]
  refine ⟨fun h name body hmem => h name body (.inr hmem), fun h name body hmem => ?_⟩
  rcases hmem with heq | hmem
  · exact absurd heq.symm (he name body)
  · exact h name body hmem

theorem Reads.finds_mono {p : Part} {s s' : ParserState} (h : Reads p s s') {es : List Expr}
    (hes : s.functions.Finds es) : s'.functions.Finds es := by
  intro name body hmem
  obtain ⟨params, hparams⟩ := hes name body hmem
  exact ⟨params, h.getElem?_functions hparams⟩

/-- Every definition that is read is found. -/
theorem Reads.finds {p : Part} {s s' : ParserState} (h : Reads p s s') :
    s'.functions.Finds p.nodes := by
  have none_found (fs : FunctionTable) : fs.Finds [] := by simp [FunctionTable.Finds]
  have heading_ne {e : Expr} (he : e.heading? = none) (name : String) (body : List Expr) :
      e ≠ .define name body := by
    rintro rfl
    cases he
  induction h with
  | leaf hleaf =>
    obtain ⟨_, hnodes, hheading⟩ := Token.leaf?_nodes hleaf
    simp only [Part.nodes]
    rw [hnodes, FunctionTable.finds_cons (heading_ne hheading)]
    exact none_found _
  | @opening _ _ e _ _ _ _ hopening _ ih =>
    obtain ⟨_, hnodes, hheading⟩ := Token.opening?_nodes hopening e
    simp only [Part.nodes]
    rw [hnodes, FunctionTable.finds_cons (heading_ne hheading)]
    exact ih
  | group _ _ ih => exact ih
  | @define t _ _ _ params _ _ _ _ _ _ _ _ _ _ _ _ _ _ hes ih =>
    intro name body hmem
    simp only [Part.nodes, Expr.nodes, List.mem_cons, Expr.define.injEq] at hmem
    rcases hmem with ⟨rfl, -⟩ | hmem
    · exact ⟨params, hes.getElem?_functions Std.ExtTreeMap.getElem?_insert_self⟩
    · exact ih name body hmem
  | step =>
    simp only [Part.nodes, Expr.nodes]
    rw [FunctionTable.finds_cons (by simp), FunctionTable.finds_cons (by simp)]
    exact none_found _
  | compound _ _ _ ih | call _ _ _ _ _ ih | block _ _ _ ih | access _ _ ih =>
    simp only [Part.nodes, Expr.nodes]
    rw [FunctionTable.finds_cons (by simp)]
    exact ih
  | forLoop _ _ _ _ hcondition _ hstep _ _ _ hbody ihinit ihcondition ihstep ihbody =>
    simp only [Part.nodes, Expr.nodes]
    rw [FunctionTable.finds_cons (by simp)]
    simp only [FunctionTable.finds_append]
    exact ⟨⟨⟨hbody.finds_mono (hstep.finds_mono (hcondition.finds_mono ihinit)),
      hbody.finds_mono (hstep.finds_mono ihcondition)⟩, hbody.finds_mono ihstep⟩, ihbody⟩
  | whileLoop _ _ _ _ _ _ hsecond ihfirst ihsecond | binary _ _ hsecond ihfirst ihsecond =>
    simp only [Part.nodes, Expr.nodes]
    rw [FunctionTable.finds_cons (by simp), FunctionTable.finds_append]
    exact ⟨hsecond.finds_mono ihfirst, ihsecond⟩
  | write _ _ hvalue ihtarget ihvalue =>
    simp only [Part.nodes, Expr.nodes] at ihtarget ⊢
    rw [FunctionTable.finds_cons (by simp)] at ihtarget ⊢
    exact FunctionTable.finds_append.mpr ⟨hvalue.finds_mono ihtarget, ihvalue⟩
  | ternary _ _ hyes _ hno ihcondition ihyes ihno =>
    simp only [Part.nodes, Expr.nodes]
    rw [FunctionTable.finds_cons (by simp)]
    simp only [FunctionTable.finds_append]
    exact ⟨⟨hno.finds_mono (hyes.finds_mono ihcondition), hno.finds_mono ihyes⟩, ihno⟩
  | noArgument | bodyEnd | programEnd => exact none_found _
  | lastArgument _ ih => simpa [Part.nodes] using ih
  | argument _ _ hrest ih ihrest | bodyStatement _ _ hrest ih ihrest
  | programStatement _ _ hrest ih ihrest =>
    exact FunctionTable.finds_append.mpr ⟨hrest.finds_mono ih, ihrest⟩

def FunctionTable.Bodyless (fs : FunctionTable) : Prop :=
  ∀ (name : String) (entry : FunctionEntry), fs[name]? = some entry → entry.body = none

theorem Reads.bodyless {p : Part} {s s' : ParserState} (h : Reads p s s')
    (hs : s.functions.Bodyless) : s'.functions.Bodyless := by
  refine h.functions_induction (fun fs other _ hfs _ _ name entry hentry => ?_) hs
  rw [Std.ExtTreeMap.getElem?_insert] at hentry
  split at hentry
  · cases hentry
    rfl
  · exact hfs name entry hentry

section

variable {tree : TokenTree} {parsed : Parsed} (h : parse tree = .ok parsed)

include h

/-- A token that heads a call or a definition stands in a script as often as it heads a construct. -/
theorem parse_headings {t : Token} (ht : t.kind.heads) :
    tree.tokens.count t = Expr.headings t (Expr.nodesAll parsed.expressions) := by
  have hreads := (parse_reads h).unread_eq ht
  simpa [ParserState.unread, Part.nodes, TokenTree.tokens] using hreads

theorem parse_finds : parsed.functions.Finds (Expr.nodesAll parsed.expressions) :=
  (parse_reads h).finds

theorem parse_bodyless : parsed.functions.Bodyless :=
  (parse_reads h).bodyless fun name entry hentry => by simp at hentry

end

end HostScript
