import HostScript.Proofs.Expr.Accounting
import HostScript.Proofs.Expr.Printer

/-!
# Names are defined once

The parser refuses a second function of the same name, at whatever depth it stands. So while a script is
read, the definitions of a name and its entry in the table keep in step: one definition where the name is
in the table, none where it is not. In a parsed script every definition is the only one of its name.
-/
namespace HostScript

/-- How many functions of a name are in a table. -/
def FunctionTable.present (fs : FunctionTable) (name : String) : Nat := if name ∈ fs then 1 else 0

theorem FunctionTable.present_insert {fs : FunctionTable} {name : String} (hnew : name ∉ fs)
    (entry : FunctionEntry) (other : String) :
    FunctionTable.present (fs.insert name entry) other = [name].count other + fs.present other := by
  by_cases hname : name = other
  · subst hname
    simp [present, hnew]
  · simp [present, hname]

theorem count_function_heading (name other : String) :
    ([⟨.function, name⟩] : List Token).count ⟨.function, other⟩ = [name].count other := by
  simp [List.count_cons]

/-- Every definition that is read brings its name into the table, where it was not before. -/
theorem Reads.present_eq {p : Part} {s s' : ParserState} (h : Reads p s s') (name : String) :
    Expr.headings ⟨.function, name⟩ p.nodes + s.functions.present name = s'.functions.present name := by
  induction h with
  | leaf hleaf =>
    obtain ⟨_, hnodes, hheading⟩ := Token.leaf?_nodes hleaf
    simp [Part.nodes, hnodes, Expr.headings_cons, hheading]
  | @opening _ _ e _ _ _ _ hopening _ ih =>
    obtain ⟨_, hnodes, hheading⟩ := Token.opening?_nodes hopening e
    simpa [Part.nodes, hnodes, Expr.headings_cons, hheading] using ih
  | step => simp [Part.nodes, Expr.nodes, Expr.headings_cons, Expr.heading?]
  | compound _ _ _ ih | call _ _ _ _ _ ih | block _ _ _ ih | access _ _ ih =>
    simpa [Part.nodes, Expr.nodes, Expr.headings_cons, Expr.heading?] using ih
  | group _ _ ih => exact ih
  | define _ _ _ _ _ hnew _ _ ih =>
    rw [FunctionTable.present_insert hnew] at ih
    simp only [Part.nodes, Expr.nodes, Expr.headings_cons, Expr.heading?, Option.toList_some,
      count_function_heading] at ih ⊢
    omega
  | forLoop _ _ _ _ _ _ _ _ _ _ _ ihinit ihcondition ihstep ihbody =>
    simp only [Part.nodes, Expr.nodes, Expr.headings_cons, Expr.headings_append, Expr.heading?,
      Option.toList_none, List.count_nil] at *
    omega
  | whileLoop _ _ _ _ _ _ _ ihfirst ihsecond | write _ _ _ ihfirst ihsecond
  | binary _ _ _ ihfirst ihsecond =>
    simp only [Part.nodes, Expr.nodes, Expr.headings_cons, Expr.headings_append, Expr.heading?,
      Option.toList_none, List.count_nil] at *
    omega
  | ternary _ _ _ _ _ ihcondition ihyes ihno =>
    simp only [Part.nodes, Expr.nodes, Expr.headings_cons, Expr.headings_append, Expr.heading?,
      Option.toList_none, List.count_nil] at *
    omega
  | noArgument | bodyEnd | programEnd => simp [Part.nodes]
  | lastArgument _ ih => simpa [Part.nodes] using ih
  | argument _ _ _ ih ihrest | bodyStatement _ _ _ ih ihrest | programStatement _ _ _ ih ihrest =>
    simp only [Part.nodes, Expr.nodesAll_cons, Expr.headings_append] at *
    omega

/-- The definitions of a name among the listed constructs. -/
def Expr.definitions (name : String) (es : List Expr) : List Expr :=
  es.filter fun e => e.defines? = some name

theorem Expr.length_definitions (name : String) (es : List Expr) :
    (Expr.definitions name es).length = Expr.headings ⟨.function, name⟩ es := by
  have heading_iff (e : Expr) : e.defines? = some name ↔ e.heading? = some ⟨.function, name⟩ := by
    cases e <;> simp [defines?, heading?]
  induction es with
  | nil => rfl
  | cons e es ih =>
    rw [Expr.headings_cons, ← ih]
    simp only [definitions, List.filter_cons, decide_eq_true_eq, heading_iff]
    cases e.heading? with
    | none => simp
    | some t =>
      by_cases ht : t = ⟨.function, name⟩
      · subst ht
        simp [Nat.add_comm]
      · simp [ht]

/-- Every definition of a parsed script is the only one of its name. -/
theorem parse_definitions {tree : TokenTree} {parsed : Parsed} (h : parse tree = .ok parsed)
    {name : String} {body : List Expr} (hdefine : .define name body ∈ Expr.nodesAll parsed.expressions) :
    Expr.definitions name (Expr.nodesAll parsed.expressions) = [.define name body] := by
  have hpresent := (parse_reads h).present_eq name
  have hlength := Expr.length_definitions name (Expr.nodesAll parsed.expressions)
  have hmem : Expr.define name body ∈ Expr.definitions name (Expr.nodesAll parsed.expressions) :=
    List.mem_filter.mpr ⟨hdefine, decide_eq_true rfl⟩
  have hle : (Expr.definitions name (Expr.nodesAll parsed.expressions)).length ≤ 1 := by
    rw [hlength]
    simp only [Part.nodes] at hpresent
    have hone : parsed.functions.present name ≤ 1 := by
      unfold FunctionTable.present
      split <;> omega
    omega
  obtain ⟨e, he⟩ := List.length_eq_one_iff.mp (Nat.le_antisymm hle (List.length_pos_of_mem hmem))
  rw [he, List.mem_singleton] at hmem
  rw [he, hmem]

end HostScript
