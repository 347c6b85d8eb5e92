import Mathlib.Data.List.Infix
import HostScript.Proofs.TokenTree

/-!
# Shape of grouped tokens

Whatever the order of headers, braces and parentheses in the input, the tree that it is grouped into has
regions of one shape: a header or an opening brace comes first, a closing brace comes last if there is one,
and there is no header in between. Closing braces that end no region stand in the root.

The grouping keeps the regions around the current token open, on a stack. `Open` says what holds of them
between two tokens.
-/
namespace HostScript

/-- What a statement of a grouped tree looks like. -/
structure StatementShape (statement : List Token) : Prop where
  nonempty : statement ≠ []
  closing : ∀ t ∈ statement, t.kind = .rightScope → statement = [t]
  opening : ∀ t ∈ statement.dropLast, t.kind ≠ .leftScope
  header : ∀ t ∈ statement.tail, t.kind.opensScope = false

namespace TokenTree

def isHeader : TokenTree → Bool
  | .statement (t :: _) => t.kind.opensScope
  | _ => false

/-- Whether a tree is a statement that a region can begin with. -/
def isOpening : TokenTree → Bool
  | .statement (t :: _) => t.kind.opensScope || t.kind == .leftScope
  | _ => false

def isMarker : TokenTree → Bool
  | .statement tokens => isClosing tokens
  | .scope _ => false

end TokenTree

/-- What the children of a region inside a grouped tree look like. -/
structure RegionShape (children : List TokenTree) : Prop where
  opening : ∃ tree ∈ children.head?, tree.isOpening
  header : ∀ tree ∈ children.tail, tree.isHeader = false
  closing : ∀ tree ∈ children.dropLast, tree.isMarker = false

/-- Trees whose statements and regions have these shapes at every depth. -/
inductive TokenTree.Shaped : TokenTree → Prop
  | statement {tokens : List Token} (h : StatementShape tokens) : Shaped (.statement tokens)
  | scope {children : List TokenTree} (h : RegionShape children) (hall : ∀ tree ∈ children, Shaped tree) :
    Shaped (.scope children)

/-- What the root of a grouped tree looks like. No header stands directly in it. -/
def RootShape (children : List TokenTree) : Prop := ∀ tree ∈ children, tree.Shaped ∧ tree.isHeader = false

namespace StatementShape

variable {statement : List Token} {t : Token}

theorem single (t : Token) : StatementShape [t] where
  nonempty := List.cons_ne_nil t []
  closing u hu _ := by rw [List.mem_singleton.mp hu]
  opening := by simp
  header := by simp

/-- In a statement that has its shape, only a lone closing brace is one. -/
theorem countP_rightScope (h : StatementShape statement) :
    statement.countP (·.kind == .rightScope) = if isClosing statement then 1 else 0 := by
  by_cases hmem : ∃ t ∈ statement, t.kind = .rightScope
  · obtain ⟨t, ht, hkind⟩ := hmem
    rw [h.closing t ht hkind]
    simp [isClosing, closing?, hkind]
  · have hnone : ∀ t ∈ statement, ¬(t.kind == .rightScope) := by simpa using hmem
    have hopen : isClosing statement = false := by
      unfold isClosing closing?
      split
      · rename_i t
        simpa using hnone t
      · rfl
    rw [List.countP_eq_zero.mpr hnone, hopen]
    rfl

end StatementShape

namespace TokenTree

mutual

theorem Shaped.statements :
    ∀ {tree : TokenTree}, tree.Shaped → ∀ statement ∈ tree.statements, StatementShape statement
  | .statement tokens, h => by
    cases h with
    | statement h => simpa [TokenTree.statements] using h
  | .scope children, h => by
    cases h with
    | scope _ hall => exact Shaped.statementsAll hall

theorem Shaped.statementsAll : ∀ {trees : List TokenTree}, (∀ tree ∈ trees, tree.Shaped) →
    ∀ statement ∈ TokenTree.statementsAll trees, StatementShape statement
  | [], _ => by simp [TokenTree.statementsAll]
  | tree :: rest, h => by
    have htree := Shaped.statements (h tree List.mem_cons_self)
    have hrest := Shaped.statementsAll fun other hother => h other (List.mem_cons_of_mem tree hother)
    exact List.forall_mem_append.mpr ⟨htree, hrest⟩

end

end TokenTree

theorem RegionShape.add {children : List TokenTree} {tree : TokenTree} (h : RegionShape children)
    (hunclosed : ∀ other ∈ children, other.isMarker = false) (hheader : tree.isHeader = false) :
    RegionShape (children ++ [tree]) := by
  obtain ⟨first, hfirst, hopening⟩ := h.opening
  have hne : children ≠ [] := by
    rintro rfl
    cases hfirst
  constructor
  · exact ⟨first, List.mem_head?_append_of_mem_head? hfirst, hopening⟩
  · rw [List.tail_append_of_ne_nil hne]
    exact List.forall_mem_append.mpr ⟨h.header, List.forall_mem_singleton.mpr hheader⟩
  · rwa [List.dropLast_concat]

/-- A region to which more can be added: it has begun, and has not been closed. -/
structure Begun (children : List TokenTree) : Prop where
  region : RegionShape children
  unclosed : ∀ tree ∈ children, tree.isMarker = false
  shaped : ∀ tree ∈ children, tree.Shaped

namespace Begun

variable {children : List TokenTree} {tree : TokenTree}

/-- A region that consists of a header or an opening brace. -/
theorem single {t : Token} {us : List Token} (h : StatementShape (t :: us))
    (ht : t.kind.opensScope ∨ t.kind = .leftScope) : Begun [.statement (t :: us)] := by
  have hkind : t.kind ≠ .rightScope := by
    intro hkind
    simp [hkind, Kind.opensScope] at ht
  have hunclosed : isClosing (t :: us) = false := by
    cases us with
    | nil => simp [isClosing, closing?, hkind]
    | cons u us => rfl
  constructor
  · constructor
    · exact ⟨_, rfl, by simpa [TokenTree.isOpening] using ht⟩
    · simp
    · simp
  · simpa [TokenTree.isMarker] using hunclosed
  · simpa using TokenTree.Shaped.statement h

theorem add (h : Begun children) (htree : tree.Shaped) (hheader : tree.isHeader = false)
    (hmarker : tree.isMarker = false) : Begun (children ++ [tree]) where
  region := h.region.add h.unclosed hheader
  unclosed := List.forall_mem_append.mpr ⟨h.unclosed, List.forall_mem_singleton.mpr hmarker⟩
  shaped := List.forall_mem_append.mpr ⟨h.shaped, List.forall_mem_singleton.mpr htree⟩

/-- The region may end where the input does. -/
theorem scope (h : Begun children) : (TokenTree.scope children).Shaped := .scope h.region h.shaped

/-- The region may end with a closing brace. -/
theorem scope_marker (h : Begun children) {t : Token} (ht : t.kind = .rightScope) :
    (TokenTree.scope (children ++ [.statement [t]])).Shaped := by
  have hheader : (TokenTree.statement [t]).isHeader = false := by
    simp [TokenTree.isHeader, ht, Kind.opensScope]
  have hmarker : (TokenTree.statement [t]).Shaped := .statement (.single t)
  apply TokenTree.Shaped.scope (h.region.add h.unclosed hheader)
  exact List.forall_mem_append.mpr ⟨h.shaped, List.forall_mem_singleton.mpr hmarker⟩

end Begun

theorem RootShape.add {children : List TokenTree} {tree : TokenTree} (h : RootShape children)
    (htree : tree.Shaped) (hheader : tree.isHeader = false) : RootShape (children ++ [tree]) :=
  List.forall_mem_append.mpr ⟨h, List.forall_mem_singleton.mpr ⟨htree, hheader⟩⟩

/-- The regions that are open, from the inside out. The last of them is the root. -/
inductive Open : List TokenTree → List (List TokenTree) → Prop
  | root {children : List TokenTree} (h : RootShape children) : Open children []
  | inner {children outer : List TokenTree} {rest : List (List TokenTree)} (h : Begun children)
    (houter : Open outer rest) : Open children (outer :: rest)

namespace Open

variable {children outer : List TokenTree} {enclosing rest : List (List TokenTree)} {tree : TokenTree}

theorem add (h : Open children enclosing) (htree : tree.Shaped) (hheader : tree.isHeader = false)
    (hmarker : tree.isMarker = false) : Open (children ++ [tree]) enclosing := by
  cases h with
  | root h => exact .root (h.add htree hheader)
  | inner h houter => exact .inner (h.add htree hheader hmarker) houter

theorem add_scope (h : Open children enclosing) {inner : List TokenTree}
    (hinner : (TokenTree.scope inner).Shaped) : Open (children ++ [.scope inner]) enclosing :=
  h.add hinner (by simp [TokenTree.isHeader]) (by simp [TokenTree.isMarker])

/-- Closing every region leaves the root. -/
theorem closeAll (h : Open children enclosing) :
    ∃ root, Grouping.closeAll children enclosing = .scope root ∧ RootShape root := by
  induction enclosing generalizing children with
  | nil =>
    cases h with
    | root h => exact ⟨children, rfl, h⟩
  | cons outer rest ih =>
    cases h with
    | inner h houter => exact ih (houter.add_scope h.scope)

end Open

/-- Tokens that are collected for a statement: a header comes first, and there is no brace. -/
structure Unbraced (us : List Token) : Prop where
  brace : ∀ u ∈ us, u.kind ≠ .leftScope ∧ u.kind ≠ .rightScope
  header : ∀ u ∈ us.tail, u.kind.opensScope = false

namespace Unbraced

variable {us : List Token} {u : Token}

theorem nil : Unbraced [] := ⟨by simp, by simp⟩

theorem header_append (h : Unbraced us) (hu : u.kind.opensScope = false) :
    ∀ t ∈ (us ++ [u]).tail, t.kind.opensScope = false := by
  cases us with
  | nil => simp
  | cons v vs => exact List.forall_mem_append.mpr ⟨h.header, List.forall_mem_singleton.mpr hu⟩

theorem collect (h : Unbraced us) (hbrace : u.kind ≠ .leftScope ∧ u.kind ≠ .rightScope)
    (hu : u.kind.opensScope = false) : Unbraced (us ++ [u]) where
  brace := List.forall_mem_append.mpr ⟨h.brace, List.forall_mem_singleton.mpr hbrace⟩
  header := h.header_append hu

theorem shape (h : Unbraced us) (hne : us ≠ []) : StatementShape us where
  nonempty := hne
  closing t ht hkind := absurd hkind (h.brace t ht).2
  opening t ht := (h.brace t (List.mem_of_mem_dropLast ht)).1
  header := h.header

/-- An opening brace completes the statement. -/
theorem shape_brace (h : Unbraced us) (hu : u.kind = .leftScope) : StatementShape (us ++ [u]) where
  nonempty := by simp
  closing t ht hkind := by
    rcases List.mem_append.mp ht with ht | ht
    · exact absurd hkind (h.brace t ht).2
    · rw [List.mem_singleton.mp ht, hu] at hkind
      cases hkind
  opening t ht := (h.brace t (by simpa using ht)).1
  header := h.header_append (by rw [hu]; rfl)

end Unbraced

namespace Grouping

/-- What holds between two tokens. Either the innermost region has begun, or the statement being
collected is its header. -/
inductive Shaped : Grouping → Prop
  | inside {buffer : List Token} {current : List TokenTree} {enclosing : List (List TokenTree)}
    {depth : Nat} {headerOpen : Bool} (hbuffer : Unbraced buffer)
    (hhead : ∀ t ∈ buffer.head?, t.kind.opensScope = false)
    (hopen : Open current enclosing) : Shaped ⟨buffer, current, enclosing, depth, headerOpen⟩
  | header {t : Token} {us : List Token} {outer : List TokenTree} {rest : List (List TokenTree)}
    {depth : Nat} {headerOpen : Bool} (hbuffer : Unbraced (t :: us)) (ht : t.kind.opensScope)
    (hopen : Open outer rest) :
    Shaped ⟨t :: us, [], outer :: rest, depth, headerOpen⟩

variable {g : Grouping} {t : Token}

theorem buffer_flush (g : Grouping) : g.flush.buffer = [] := by
  unfold flush
  split
  · exact List.isEmpty_iff.mp ‹_›
  · rfl

namespace Shaped

theorem unbraced (h : Shaped g) : Unbraced g.buffer := by
  cases h with
  | inside hbuffer => exact hbuffer
  | header hbuffer => exact hbuffer

/-- Between statements the innermost region has begun. -/
theorem of_open (hbuffer : g.buffer = []) (hopen : Open g.current g.enclosing) : Shaped g := by
  obtain ⟨buffer, current, enclosing, depth, headerOpen⟩ := g
  cases hbuffer
  exact .inside .nil (by simp) hopen

/-- The statement being collected may be ended by some more tokens. -/
theorem open_add (h : Shaped g) {us : List Token} (hshape : StatementShape (g.buffer ++ us))
    (hus : ∀ u ∈ us, u.kind.opensScope = false ∧ u.kind ≠ .rightScope) :
    Open (g.current ++ [.statement (g.buffer ++ us)]) g.enclosing := by
  have hall : ∀ u ∈ g.buffer ++ us, u.kind ≠ .rightScope :=
    List.forall_mem_append.mpr ⟨fun u hu => (h.unbraced.brace u hu).2, fun u hu => (hus u hu).2⟩
  have hmarker : isClosing (g.buffer ++ us) = false := by
    have hcount := hshape.countP_rightScope
    have hzero : (g.buffer ++ us).countP (·.kind == .rightScope) = 0 := by
      rw [List.countP_eq_zero]
      simpa using hall
    by_contra hclosing
    simp [hzero, hclosing] at hcount
  cases h with
  | @inside buffer current enclosing depth headerOpen hbuffer hhead hopen =>
    refine hopen.add (.statement hshape) ?_ (by simpa [TokenTree.isMarker] using hmarker)
    cases buffer with
    | cons v vs => exact hhead v rfl
    | nil =>
      cases us with
      | nil => simp [TokenTree.isHeader]
      | cons u us => exact (hus u List.mem_cons_self).1
  | header hbuffer ht hopen => exact .inner (.single hshape (.inl ht)) hopen

theorem open_flush (h : Shaped g) : Open g.flush.current g.flush.enclosing := by
  by_cases hempty : g.buffer = []
  · have hflush : g.flush = g := by simp [flush, hempty]
    rw [hflush]
    cases h with
    | inside hbuffer hhead hopen => exact hopen
    | header => cases hempty
  · have hflush : g.flush = { g.add (.statement g.buffer) with buffer := [] } := by simp [flush, hempty]
    rw [hflush]
    have hshape : StatementShape (g.buffer ++ []) := by
      rw [List.append_nil]
      exact h.unbraced.shape hempty
    simpa [Grouping.add] using h.open_add hshape (by simp)

theorem flush (h : Shaped g) : Shaped g.flush := of_open g.buffer_flush h.open_flush

theorem collect (h : Shaped g) (hbrace : t.kind ≠ .leftScope ∧ t.kind ≠ .rightScope)
    (ht : t.kind.opensScope = false) : Shaped (g.collect t) := by
  have hbuffer := h.unbraced.collect hbrace ht
  cases h with
  | @inside buffer current enclosing depth headerOpen _ hhead hopen =>
    refine .inside hbuffer ?_ hopen
    cases buffer with
    | nil => simpa using ht
    | cons v vs => simpa using hhead
  | header _ hhead hopen => exact .header hbuffer hhead hopen

/-- A header begins a region and is collected for it. -/
theorem begin_header (h : Shaped g) (ht : t.kind.opensScope) :
    Shaped { (g.flush.begin []).collect t with headerOpen := true } := by
  show Shaped ⟨g.flush.buffer ++ [t], [], g.flush.current :: g.flush.enclosing, g.flush.depth, true⟩
  rw [buffer_flush]
  apply header _ ht h.open_flush
  constructor
  · simp only [List.mem_singleton, forall_eq]
    constructor
    · intro hkind
      simp [hkind, Kind.opensScope] at ht
    · intro hkind
      simp [hkind, Kind.opensScope] at ht
  · simp

/-- The opening brace of a header ends the statement. -/
theorem flush_brace (h : Shaped g) (ht : t.kind = .leftScope) :
    Shaped { (g.collect t).flush with headerOpen := false } := by
  have hflush : (g.collect t).flush =
      { g with buffer := [], current := g.current ++ [.statement (g.buffer ++ [t])] } := by
    simp [Grouping.flush, Grouping.collect, Grouping.add]
  have hopen := h.open_add (h.unbraced.shape_brace ht) (by simp [ht, Kind.opensScope])
  rw [hflush]
  exact of_open rfl hopen

/-- An opening brace without a header begins a region. -/
theorem begin_brace (h : Shaped g) (ht : t.kind = .leftScope) :
    Shaped (g.flush.begin [.statement [t]]) :=
  of_open g.buffer_flush (.inner (.single (.single t) (.inr ht)) h.open_flush)

/-- A closing brace ends the innermost region. In the root it ends none. -/
theorem close_marker (h : Shaped g) (ht : t.kind = .rightScope) :
    Shaped (g.flush.add (.statement [t])).close := by
  have hbuffer := g.buffer_flush
  have hopen := h.open_flush
  generalize g.flush = g at hbuffer hopen
  obtain ⟨buffer, current, enclosing, depth, headerOpen⟩ := g
  cases hopen with
  | root hroot =>
    refine of_open hbuffer (.root (hroot.add (.statement (.single t)) ?_))
    simp [TokenTree.isHeader, ht, Kind.opensScope]
  | inner hbegun houter => exact of_open hbuffer (houter.add_scope (hbegun.scope_marker ht))

theorem depth (h : Shaped g) (depth : Nat) : Shaped { g with depth } := by
  cases h with
  | inside hbuffer hhead hopen => exact .inside hbuffer hhead hopen
  | header hbuffer ht hopen => exact .header hbuffer ht hopen

/-- Every token keeps the shape. An open header may be left behind by a region that has ended since, and
then an opening brace ends an ordinary statement. -/
theorem push (h : Shaped g) (t : Token) : Shaped (g.push t) := by
  unfold Grouping.push
  by_cases hopens : t.kind.opensScope
  · rw [if_pos hopens]
    exact h.begin_header hopens
  · rw [if_neg hopens]
    have hplain (hbrace : t.kind ≠ .leftScope ∧ t.kind ≠ .rightScope) : Shaped (g.collect t) :=
      h.collect hbrace (by simpa using hopens)
    cases hkind : t.kind with
    | leftScope =>
      simp only
      by_cases hheader : g.headerOpen
      · rw [if_pos hheader]
        exact h.flush_brace hkind
      · rw [if_neg hheader]
        exact h.begin_brace hkind
    | rightScope => exact h.close_marker hkind
    | leftParen => exact (hplain (by simp [hkind])).depth _
    | rightParen => exact (hplain (by simp [hkind])).depth _
    | semicolon =>
      simp only
      by_cases hdepth : g.depth = 0
      · rw [if_pos hdepth]
        exact h.flush
      · rw [if_neg hdepth]
        exact hplain (by simp [hkind])
    | _ => exact hplain (by simp [hkind])

theorem foldl_push (h : Shaped g) (ts : List Token) : Shaped (ts.foldl Grouping.push g) := by
  induction ts generalizing g with
  | nil => exact h
  | cons t ts ih => exact ih (h.push t)

end Shaped

theorem shaped_start : Shaped {} := .of_open rfl (.root (by simp [RootShape]))

end Grouping

/-- In statements that have their shape, all closing braces stand alone. -/
theorem countP_isClosing {statements : List (List Token)}
    (h : ∀ statement ∈ statements, StatementShape statement) :
    statements.countP isClosing = statements.flatten.countP (·.kind == .rightScope) := by
  induction statements with
  | nil => rfl
  | cons statement rest ih =>
    have hstatement := (h statement List.mem_cons_self).countP_rightScope
    have hrest := ih fun other hother => h other (List.mem_cons_of_mem _ hother)
    rw [List.countP_cons, List.flatten_cons, List.countP_append, hstatement, hrest, Nat.add_comm]

/-- Whatever the order of its headers, braces and parentheses, grouped input is a root whose regions, at any
depth, begin with a header or an opening brace and have no header besides, and whose closing braces stand
alone, one for each of the input. Only in the root does one come before the end of its region. -/
theorem group_shape (ts : List Token) :
    ∃ children, group ts = .scope children ∧ RootShape children ∧
      (group ts).closings = ts.countP (·.kind == .rightScope) := by
  have hopen := (Grouping.shaped_start.foldl_push ts).open_flush
  obtain ⟨children, hgroup, hroot⟩ := hopen.closeAll
  have hstatements : ∀ statement ∈ (group ts).statements, StatementShape statement := by
    rw [group, Grouping.finish, hgroup, TokenTree.statements]
    exact TokenTree.Shaped.statementsAll fun tree htree => (hroot tree htree).1
  have hclosings : (group ts).closings = ts.countP (·.kind == .rightScope) :=
    calc (group ts).closings
      _ = (group ts).tokens.countP (·.kind == .rightScope) := countP_isClosing hstatements
      _ = (withoutTerminators ts).countP (·.kind == .rightScope) := by rw [group_lossless]
      _ = ts.countP (·.kind == .rightScope) := countP_withoutTerminators (by simp +contextual) ts
  exact ⟨children, hgroup, hroot, hclosings⟩

end HostScript
