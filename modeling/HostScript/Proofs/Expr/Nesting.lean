import HostScript.Proofs.Expr.Derivation

/-!
# Nesting and lengths

In a list of tokens that makes up a part of a script the brackets are nested, and no list in the part is
longer than the parser allows.
-/
namespace HostScript

/-! ## Brackets -/

def Kind.isBracket : Kind → Bool
  | .leftParen | .rightParen | .leftBracket | .rightBracket | .leftScope | .rightScope => true
  | _ => false

/-- The kind of bracket that closes what a bracket opens. -/
def Kind.partner? : Kind → Option Kind
  | .leftParen => some .rightParen
  | .leftBracket => some .rightBracket
  | .leftScope => some .rightScope
  | _ => none

/-- Tokens whose parentheses, brackets and braces are nested. -/
inductive WellNested : List Token → Prop where
  | nil : WellNested []
  | other {t : Token} (ht : t.kind.isBracket = false) : WellNested [t]
  | append {ts us} (hts : WellNested ts) (hus : WellNested us) : WellNested (ts ++ us)
  | enclosed {t u : Token} {ts} (ht : t.kind.partner? = some u.kind) (hts : WellNested ts) :
    WellNested (t :: (ts ++ [u]))

/-! ## Kinds of tokens -/

/-- Whether a token of this kind only groups or separates what stands around it. -/
def Kind.separates : Kind → Bool
  | .comma | .semicolon | .question | .colon => true
  | kind => kind.isBracket

/-- Whether a token of this kind announces or begins or ends a region. -/
def Kind.movesScope : Kind → Bool
  | .function | .forWord | .whileWord | .leftScope | .rightScope => true
  | _ => false

/-- Whether a token of this kind is there for itself, inside a statement and without any effect on the
regions around it. -/
def Kind.plain (kind : Kind) : Bool :=
  !kind.separates && !kind.movesScope && kind != .increment && kind != .decrement

/-- What a token says, without what only groups or separates. A step by one is an update. -/
def Token.spelledOut (t : Token) : List Token :=
  match t.kind with
  | .increment => [⟨.plusAssign, "+="⟩, ⟨.number, "1"⟩]
  | .decrement => [⟨.minusAssign, "-="⟩, ⟨.number, "1"⟩]
  | kind => if kind.separates then [] else [t]

section

variable {t : Token}

theorem isBracket_of_plain (h : t.kind.plain) : t.kind.isBracket = false := by
  cases hk : t.kind <;> simp_all [Kind.plain, Kind.separates, Kind.isBracket]

theorem movesScope_of_plain (h : t.kind.plain) : t.kind.movesScope = false := by
  simp_all [Kind.plain]

theorem spelledOut_of_plain (h : t.kind.plain) : t.spelledOut = [t] := by
  unfold Token.spelledOut
  cases hk : t.kind <;> simp_all [Kind.plain, Kind.separates, Kind.isBracket]

theorem spelledOut_of_separates (h : t.kind.separates) : t.spelledOut = [] := by
  unfold Token.spelledOut
  cases hk : t.kind <;> simp_all [Kind.separates, Kind.isBracket]

theorem Token.plain_of_isParameter (h : t.isParameter) : t.kind.plain := by
  simp only [Token.isParameter, Bool.or_eq_true, beq_iff_eq] at h
  rcases h with h | h <;> rw [h] <;> rfl

theorem Token.plain_of_leaf? {e : Expr} (h : t.leaf? = some e) : t.kind.plain := by
  unfold Token.leaf? at h
  revert h
  cases t.kind <;> simp [Kind.plain, Kind.separates, Kind.isBracket, Kind.movesScope]

theorem Token.plain_of_opening? {f : Expr → Expr} (h : t.opening? = some f) : t.kind.plain := by
  unfold Token.opening? at h
  revert h
  cases t.kind <;> simp [Kind.plain, Kind.separates, Kind.isBracket, Kind.movesScope]

theorem Kind.plain_of_compoundOf? {kind : Kind} {op : Operator}
    (h : compoundOf? kind = some (op, true)) : kind.plain := by
  revert h
  cases kind <;> simp [compoundOf?, Kind.plain, Kind.separates, Kind.isBracket, Kind.movesScope]

theorem Kind.plain_of_joint {kind : Kind} {op : Operator}
    (h : Joint.ofKind? kind = some (.operator op)) : kind.plain := by
  revert h
  cases kind <;> simp [Joint.ofKind?, Kind.plain, Kind.separates, Kind.isBracket, Kind.movesScope]

end

/-- Brackets of a part. A body brings the brace that closes it, but not the one that opens it. -/
def Part.Nested : Part → List Token → Prop
  | .body _, ts => ∃ us u, ts = us ++ [u] ∧ u.kind = .rightScope ∧ WellNested us
  | _, ts => WellNested ts

section

variable {t u : Token} {ts us : List Token}

theorem WellNested.cons (ht : t.kind.isBracket = false) (h : WellNested ts) : WellNested (t :: ts) :=
  .append (.other ht) h

theorem WellNested.between (hts : WellNested ts) (ht : t.kind.isBracket = false) (hus : WellNested us) :
    WellNested (ts ++ t :: us) :=
  .append hts (.cons ht hus)

/-- A body behind the brace that opens it. -/
theorem WellNested.region {es : List Expr} (ht : t.kind = .leftScope)
    (hbody : Part.Nested (.body es) ts) : WellNested (t :: ts) := by
  obtain ⟨us, u, rfl, hu, hus⟩ := hbody
  exact .enclosed (by rw [ht, hu]; rfl) hus

/-- The header of a construct, in parentheses, and its body. -/
theorem WellNested.headed {v w : Token} {es : List Expr} (ht : t.kind.isBracket = false)
    (hu : u.kind = .leftParen) (hts : WellNested ts) (hv : v.kind = .rightParen)
    (hw : w.kind = .leftScope) (hbody : Part.Nested (.body es) us) :
    WellNested (t :: u :: (ts ++ v :: w :: us)) := by
  have hparens : WellNested (u :: (ts ++ [v])) := .enclosed (by rw [hu, hv]; rfl) hts
  have hall := hparens.append (.region hw hbody)
  rw [List.cons_append, List.append_assoc] at hall
  exact .cons ht hall

theorem ListsParameters.wellNested {params : List String} (h : ListsParameters params ts) :
    WellNested ts := by
  induction h with
  | nil => exact .nil
  | last ht => exact .other (isBracket_of_plain (Token.plain_of_isParameter ht))
  | cons ht hu _ ih =>
    exact .cons (isBracket_of_plain (Token.plain_of_isParameter ht)) (.cons (by rw [hu]; rfl) ih)

end

theorem Derives.nested {T : FunctionTable} {p : Part} {ts : List Token} (h : Derives T p ts) :
    p.Nested ts := by
  have kind_eq {t : Token} {kind : Kind} (ht : t.kind = kind) (hkind : kind.isBracket = false) :
      t.kind.isBracket = false := ht ▸ hkind
  induction h with
  | leaf ht => exact .other (isBracket_of_plain (Token.plain_of_leaf? ht))
  | opening ht _ ih => exact .cons (isBracket_of_plain (Token.plain_of_opening? ht)) ih
  | @step _ u _ ht hu =>
    have hstep : u.kind.isBracket = false := by
      revert hu
      cases u.kind <;> simp [compoundOf?, Kind.isBracket]
    exact .cons (kind_eq ht rfl) (.other hstep)
  | compound ht hu _ ih =>
    exact .cons (kind_eq ht rfl) (.cons (isBracket_of_plain (Kind.plain_of_compoundOf? hu)) ih)
  | @group t u _ _ ht _ ih =>
    have hpartner : t.kind.partner? = some u.kind := by
      obtain ⟨ht, hu⟩ | ⟨ht, hu⟩ := Kind.closer?_cases ht
      all_goals
        rw [ht, hu]
        rfl
    exact .enclosed hpartner ih
  | call ht hu hv _ _ ih => exact .cons (kind_eq ht rfl) (.enclosed (by rw [hu, hv]; rfl) ih)
  | define ht hu hparams hv hw _ _ _ ih => exact .headed (kind_eq ht rfl) hu hparams.wellNested hv hw ih
  | forLoop ht hu _ hv _ hw _ hx hy _ _ ihinit ihcondition ihstep ihbody =>
    have hclauses := WellNested.between ihinit (kind_eq hv rfl) (.between ihcondition (kind_eq hw rfl) ihstep)
    have hall := WellNested.headed (kind_eq ht rfl) hu hclauses hx hy ihbody
    rw [List.append_assoc, List.cons_append, List.append_assoc] at hall
    exact hall
  | whileLoop ht hu _ hv hw _ _ ihcondition ihbody =>
    exact .headed (kind_eq ht rfl) hu ihcondition hv hw ihbody
  | block ht _ _ ih => exact .region ht ih
  | access _ ht ih => exact .append ih (.other (kind_eq ht rfl))
  | write _ ht _ ihtarget ihvalue => exact .between ihtarget (kind_eq ht rfl) ihvalue
  | binary _ ht _ ihleft ihright =>
    exact .between ihleft (isBracket_of_plain (Kind.plain_of_joint ht)) ihright
  | ternary _ ht _ hu _ ihcondition ihyes ihno =>
    exact .between ihcondition (kind_eq ht rfl) (.between ihyes (kind_eq hu rfl) ihno)
  | noArgument | programEnd => exact .nil
  | lastArgument _ ih => exact ih
  | argument _ ht _ ih ihrest => exact .between ih (kind_eq ht rfl) ihrest
  | @bodyEnd t ht => exact ⟨[], t, rfl, ht, .nil⟩
  | bodySemicolon ht _ ih =>
    obtain ⟨us, u, rfl, hu, hus⟩ := ih
    exact ⟨_ :: us, u, rfl, hu, .cons (kind_eq ht rfl) hus⟩
  | bodyStatement _ _ ih ihrest =>
    obtain ⟨us, u, rfl, hu, hus⟩ := ihrest
    exact ⟨_ ++ us, u, by rw [List.append_assoc], hu, .append ih hus⟩
  | programSemicolon ht _ ih => exact .cons (kind_eq ht rfl) ih
  | programStatement _ _ ih ihrest => exact .append ih ihrest

/-! ## Lengths -/

/-- A construct whose body has at most `statements` statements and which has at most `entries`
arguments. -/
def Expr.Bounded (statements entries : Nat) : Expr → Prop
  | .call _ arguments => arguments.length ≤ entries
  | .define _ body | .forLoop _ _ _ body | .whileLoop _ body | .block body => body.length ≤ statements
  | _ => True

section

variable {statements entries : Nat} {t : Token}

theorem Token.bounded_of_leaf? {e : Expr} (h : t.leaf? = some e) : e.Bounded statements entries := by
  have hleaf := Token.isLeaf_of_leaf? h
  cases e with
  | literal | query | var | namespaceName | usingName | importName => trivial
  | _ => cases hleaf

theorem Token.bounded_of_opening? {f : Expr → Expr} (h : t.opening? = some f) (e : Expr) :
    (f e).Bounded statements entries := by
  obtain ⟨_, rfl⟩ | ⟨_, rfl⟩ | ⟨_, rfl⟩ := Token.opening?_cases h
  all_goals trivial

end

theorem Derives.bounded {T : FunctionTable} {p : Part} {ts : List Token} (h : Derives T p ts) :
    ∀ n ∈ p.nodes, n.Bounded bodyLimit listLimit := by
  induction h with
  | leaf ht =>
    rw [Part.nodes, (Token.leaf?_nodes ht).2.1]
    exact List.forall_mem_singleton.mpr (Token.bounded_of_leaf? ht)
  | @opening _ _ e _ ht _ ih =>
    rw [Part.nodes, (Token.opening?_nodes ht e).2.1]
    exact List.forall_mem_cons.mpr ⟨Token.bounded_of_opening? ht e, ih⟩
  | step => exact List.forall_mem_cons.mpr ⟨trivial, List.forall_mem_singleton.mpr trivial⟩
  | compound _ _ _ ih | access _ _ ih => exact List.forall_mem_cons.mpr ⟨trivial, ih⟩
  | group _ _ ih => exact ih
  | call _ _ _ hlen _ ih | define _ _ _ _ _ _ hlen _ ih | block _ hlen _ ih =>
    exact List.forall_mem_cons.mpr ⟨hlen, ih⟩
  | forLoop _ _ _ _ _ _ _ _ _ hlen _ ihinit ihcondition ihstep ihbody =>
    simp only [Part.nodes, Expr.nodes, List.forall_mem_cons, List.forall_mem_append]
    exact ⟨hlen, ⟨⟨ihinit, ihcondition⟩, ihstep⟩, ihbody⟩
  | whileLoop _ _ _ _ _ hlen _ ihcondition ihbody =>
    exact List.forall_mem_cons.mpr ⟨hlen, List.forall_mem_append.mpr ⟨ihcondition, ihbody⟩⟩
  | write _ _ _ ihtarget ihvalue =>
    have htarget := (List.forall_mem_cons.mp ihtarget).2
    exact List.forall_mem_cons.mpr ⟨trivial, List.forall_mem_append.mpr ⟨htarget, ihvalue⟩⟩
  | binary _ _ _ ihleft ihright =>
    exact List.forall_mem_cons.mpr ⟨trivial, List.forall_mem_append.mpr ⟨ihleft, ihright⟩⟩
  | ternary _ _ _ _ _ ihcondition ihyes ihno =>
    simp only [Part.nodes, Expr.nodes, List.forall_mem_cons, List.forall_mem_append]
    exact ⟨trivial, ⟨ihcondition, ihyes⟩, ihno⟩
  | noArgument | bodyEnd | programEnd => exact List.forall_mem_nil _
  | lastArgument _ ih => simpa [Part.nodes] using ih
  | argument _ _ _ ih ihrest | bodyStatement _ _ ih ihrest | programStatement _ _ ih ihrest =>
    exact List.forall_mem_append.mpr ⟨ih, ihrest⟩
  | bodySemicolon _ _ ih | programSemicolon _ _ ih => exact ih

/-- The functions of a parsed script have no more parameters than a header can list. -/
theorem parse_params_bounded {tree : TokenTree} {parsed : Parsed} (h : parse tree = .ok parsed)
    (name : String) (entry : FunctionEntry) (hentry : parsed.functions[name]? = some entry) :
    entry.params.length ≤ listLimit := by
  refine (parse_reads h).functions_induction (P := fun fs => ∀ (name : String) (entry : FunctionEntry),
    fs[name]? = some entry → entry.params.length ≤ listLimit) ?_ ?_ name entry hentry
  · intro fs new params hfs _ hlen other entry hother
    rw [Std.ExtTreeMap.getElem?_insert] at hother
    split at hother
    · cases hother
      exact hlen
    · exact hfs other entry hother
  · intro name entry hempty
    simp at hempty

end HostScript
