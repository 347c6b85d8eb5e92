import HostScript.Proofs.Expr.Accounting
import HostScript.Proofs.TokenTree

/-!
# Derivations of flat token lists

`Derives T p ts` says that the tokens `ts` make up the part `p` of a script, where `T` has the parameters
of the functions. The rules speak about the tokens in the order of the script: a body stands between the
braces of its header, and the semicolons that end statements are still there. The parser reads a body
from later statements and puts the rest of the header aside meanwhile, but grouping leaves nothing behind
an opening brace. So whatever parses is a derivation.
-/
namespace HostScript

theorem eq_singleton_of_isClosing {statement : List Token} (h : isClosing statement) :
    ∃ t, statement = [t] ∧ t.kind = .rightScope := by
  unfold isClosing closing? at h
  split at h
  · split at h
    · exact ⟨_, rfl, ‹_›⟩
    · cases h
  · cases h

/-- The rules of the grammar on flat lists of tokens. -/
inductive Derives (T : FunctionTable) : Part → List Token → Prop where
  | leaf {t e} (ht : t.leaf? = some e) : Derives T (.expr e) [t]
  | opening {t f e ts} (ht : t.opening? = some f) (he : Derives T (.expr e) ts) :
    Derives T (.expr (f e)) (t :: ts)
  | step {t u op} (ht : t.kind = .variableName) (hu : compoundOf? u.kind = some (op, false)) :
    Derives T (.expr (.compound t.text op (.literal (.number 1)))) [t, u]
  | compound {t u op e ts} (ht : t.kind = .variableName) (hu : compoundOf? u.kind = some (op, true))
    (he : Derives T (.expr e) ts) : Derives T (.expr (.compound t.text op e)) (t :: u :: ts)
  | group {t u e ts} (ht : t.kind.closer? = some u.kind) (he : Derives T (.expr e) ts) :
    Derives T (.expr e) (t :: (ts ++ [u]))
  | call {t u v es ts} (ht : t.kind = .call) (hu : u.kind = .leftParen) (hv : v.kind = .rightParen)
    (hlen : es.length ≤ listLimit) (hes : Derives T (.arguments es) ts) :
    Derives T (.expr (.call t.text es)) (t :: u :: (ts ++ [v]))
  | define {t u v w params es us ts} (ht : t.kind = .function) (hu : u.kind = .leftParen)
    (hparams : ListsParameters params us) (hv : v.kind = .rightParen) (hw : w.kind = .leftScope)
    (hentry : T[t.text]? = some { params }) (hlen : es.length ≤ bodyLimit)
    (hes : Derives T (.body es) ts) :
    Derives T (.expr (.define t.text es)) (t :: u :: (us ++ v :: w :: ts))
  | forLoop {t u v w x y init condition step es is cs ss ts} (ht : t.kind = .forWord)
    (hu : u.kind = .leftParen) (hinit : Derives T (.expr init) is) (hv : v.kind = .semicolon)
    (hcondition : Derives T (.expr condition) cs) (hw : w.kind = .semicolon)
    (hstep : Derives T (.expr step) ss) (hx : x.kind = .rightParen) (hy : y.kind = .leftScope)
    (hlen : es.length ≤ bodyLimit) (hes : Derives T (.body es) ts) :
    Derives T (.expr (.forLoop init condition step es))
      (t :: u :: (is ++ v :: (cs ++ w :: (ss ++ x :: y :: ts))))
  | whileLoop {t u v w condition es cs ts} (ht : t.kind = .whileWord) (hu : u.kind = .leftParen)
    (hcondition : Derives T (.expr condition) cs) (hv : v.kind = .rightParen)
    (hw : w.kind = .leftScope) (hlen : es.length ≤ bodyLimit) (hes : Derives T (.body es) ts) :
    Derives T (.expr (.whileLoop condition es)) (t :: u :: (cs ++ v :: w :: ts))
  | block {t es ts} (ht : t.kind = .leftScope) (hlen : es.length ≤ bodyLimit)
    (hes : Derives T (.body es) ts) : Derives T (.expr (.block es)) (t :: ts)
  | access {t e ts} (he : Derives T (.expr e) ts) (ht : t.kind = .access) :
    Derives T (.expr (.access e t.text)) (ts ++ [t])
  | write {t target member value ts vs} (htarget : Derives T (.expr (.access target member)) ts)
    (ht : t.kind = .equals) (hvalue : Derives T (.expr value) vs) :
    Derives T (.expr (.write target member value)) (ts ++ t :: vs)
  | binary {t op left right ls rs} (hleft : Derives T (.expr left) ls)
    (ht : Joint.ofKind? t.kind = some (.operator op)) (hright : Derives T (.expr right) rs) :
    Derives T (.expr (.binary op left right)) (ls ++ t :: rs)
  | ternary {t u condition yes no cs ys ns} (hcondition : Derives T (.expr condition) cs)
    (ht : t.kind = .question) (hyes : Derives T (.expr yes) ys) (hu : u.kind = .colon)
    (hno : Derives T (.expr no) ns) :
    Derives T (.expr (.ternary condition yes no)) (cs ++ t :: (ys ++ u :: ns))
  | noArgument : Derives T (.arguments []) []
  | lastArgument {e ts} (he : Derives T (.expr e) ts) : Derives T (.arguments [e]) ts
  | argument {t e es ts us} (he : Derives T (.expr e) ts) (ht : t.kind = .comma)
    (hes : Derives T (.arguments es) us) : Derives T (.arguments (e :: es)) (ts ++ t :: us)
  | bodyEnd {t} (ht : t.kind = .rightScope) : Derives T (.body []) [t]
  | bodySemicolon {t es ts} (ht : t.kind = .semicolon) (hes : Derives T (.body es) ts) :
    Derives T (.body es) (t :: ts)
  | bodyStatement {e es ts us} (he : Derives T (.expr e) ts) (hes : Derives T (.body es) us) :
    Derives T (.body (e :: es)) (ts ++ us)
  | programEnd : Derives T (.program []) []
  | programSemicolon {t es ts} (ht : t.kind = .semicolon) (hes : Derives T (.program es) ts) :
    Derives T (.program es) (t :: ts)
  | programStatement {e es ts us} (he : Derives T (.expr e) ts) (hes : Derives T (.program es) us) :
    Derives T (.program (e :: es)) (ts ++ us)

def Semicolons (ts : List Token) : Prop := ∀ t ∈ ts, t.kind = .semicolon

section

variable {T : FunctionTable} {es : List Expr} {ts ss : List Token}

theorem Derives.semicolons_body (hss : Semicolons ss) (h : Derives T (.body es) ts) :
    Derives T (.body es) (ss ++ ts) := by
  induction ss with
  | nil => exact h
  | cons s ss ih =>
    exact .bodySemicolon (hss s List.mem_cons_self) (ih fun t ht => hss t (List.mem_cons_of_mem s ht))

theorem Derives.semicolons_program (hss : Semicolons ss) (h : Derives T (.program es) ts) :
    Derives T (.program es) (ss ++ ts) := by
  induction ss with
  | nil => exact h
  | cons s ss ih =>
    exact .programSemicolon (hss s List.mem_cons_self)
      (ih fun t ht => hss t (List.mem_cons_of_mem s ht))

theorem Derives.program_semicolons (h : Derives T (.program es) ts) (hss : Semicolons ss) :
    Derives T (.program es) (ts ++ ss) := by
  generalize hp : Part.program es = p at h
  induction h generalizing es with
  | programEnd =>
    cases hp
    have hend := Derives.semicolons_program hss (.programEnd (T := T))
    rwa [List.append_nil] at hend
  | programSemicolon ht _ ih =>
    cases hp
    exact .programSemicolon ht (ih rfl)
  | programStatement he _ _ ih =>
    cases hp
    rw [List.append_assoc]
    exact .programStatement he (ih rfl)
  | _ => cases hp

end

/-- Nothing stands behind an opening brace. -/
def BraceLast : List Token → Prop
  | [] => True
  | t :: ts => (t.kind = .leftScope → ts = []) ∧ BraceLast ts

theorem BraceLast.append {ts us : List Token} (hts : ∀ t ∈ ts, t.kind ≠ .leftScope)
    (hus : BraceLast us) : BraceLast (ts ++ us) := by
  induction ts with
  | nil => exact hus
  | cons t ts ih =>
    exact ⟨fun ht => absurd ht (hts t List.mem_cons_self),
      ih fun u hu => hts u (List.mem_cons_of_mem t hu)⟩

/-- Statements in a list of tokens, with semicolons before, between and behind them. A statement ends at
its opening brace, if it has one. -/
inductive Layout : List (List Token) → List Token → Prop where
  | nil : Layout [] []
  | semicolon {t ps ts} (ht : t.kind = .semicolon) (h : Layout ps ts) : Layout ps (t :: ts)
  | statement {p ps ts} (hp : BraceLast p) (h : Layout ps ts) : Layout (p :: ps) (p ++ ts)

namespace Layout

theorem append {ps qs : List (List Token)} {ts us : List Token} (h : Layout ps ts)
    (h' : Layout qs us) : Layout (ps ++ qs) (ts ++ us) := by
  induction h with
  | nil => exact h'
  | semicolon ht _ ih => exact .semicolon ht ih
  | statement hp _ ih =>
    rw [List.append_assoc]
    exact .statement hp ih

theorem eq_semicolons {ts : List Token} (h : Layout [] ts) : Semicolons ts := by
  generalize hp : ([] : List (List Token)) = ps at h
  induction h with
  | nil => exact nofun
  | semicolon ht _ ih =>
    intro u hu
    rcases List.mem_cons.mp hu with rfl | hu
    · exact ht
    · exact ih hp u hu
  | statement => cases hp

theorem first {p : List Token} {ps : List (List Token)} {ts : List Token} (h : Layout (p :: ps) ts) :
    ∃ ss us, ts = ss ++ (p ++ us) ∧ Semicolons ss ∧ BraceLast p ∧ Layout ps us := by
  generalize hp : p :: ps = qs at h
  induction h with
  | nil => cases hp
  | @semicolon t _ _ ht _ ih =>
    obtain ⟨ss, us, rfl, hss, hbrace, hus⟩ := ih hp
    refine ⟨t :: ss, us, rfl, fun u hu => ?_, hbrace, hus⟩
    rcases List.mem_cons.mp hu with rfl | hu
    · exact ht
    · exact hss u hu
  | @statement _ _ us hbrace h =>
    cases hp
    exact ⟨[], us, rfl, nofun, hbrace, h⟩

end Layout

namespace Lines

/-- What holds of the statements of a list of tokens while they are being collected. -/
structure Tidy (ts : List Token) (g : Lines) : Prop where
  layout : ∃ us, Layout g.found us ∧ ts = us ++ g.buffer
  buffer : ∀ t ∈ g.buffer, t.kind ≠ .leftScope

namespace Tidy

variable {ts : List Token} {g : Lines}

theorem mk_flush (hlayout : ∃ us, Layout g.found us ∧ ts = us ++ g.buffer)
    (hbuffer : BraceLast g.buffer) : Tidy ts g.flush := by
  obtain ⟨us, hus, rfl⟩ := hlayout
  unfold flush
  split
  · rename_i hempty
    exact ⟨⟨us, hus, rfl⟩, by simp [List.isEmpty_iff.mp hempty]⟩
  · refine ⟨⟨us ++ g.buffer, ?_, by simp⟩, by simp⟩
    simpa using hus.append (.statement hbuffer .nil)

theorem flush (h : Tidy ts g) : Tidy ts g.flush := by
  have hbrace : BraceLast (g.buffer ++ []) := BraceLast.append h.buffer trivial
  rw [List.append_nil] at hbrace
  exact mk_flush h.layout hbrace

theorem collect (h : Tidy ts g) {t : Token} (ht : t.kind ≠ .leftScope) :
    Tidy (ts ++ [t]) (g.collect t) := by
  obtain ⟨us, hus, rfl⟩ := h.layout
  refine ⟨⟨us, hus, by simp [Lines.collect]⟩, fun u hu => ?_⟩
  rcases List.mem_append.mp hu with hu | hu
  · exact h.buffer u hu
  · rw [List.mem_singleton.mp hu]
    exact ht

/-- A statement of one token. -/
theorem add (h : Tidy ts g) (hempty : g.buffer = []) (t : Token) : Tidy (ts ++ [t]) (g.add t) := by
  obtain ⟨us, hus, rfl⟩ := h.layout
  have hlone : BraceLast [t] := ⟨fun _ => rfl, trivial⟩
  exact ⟨⟨us ++ [t], hus.append (.statement hlone .nil), by simp [Lines.add, hempty]⟩, h.buffer⟩

theorem semicolon (h : Tidy ts g) (hempty : g.buffer = []) {t : Token} (ht : t.kind = .semicolon) :
    Tidy (ts ++ [t]) g := by
  obtain ⟨us, hus, rfl⟩ := h.layout
  refine ⟨⟨us ++ [t], ?_, by simp [hempty]⟩, h.buffer⟩
  simpa using hus.append (.semicolon ht .nil)

/-- The step of the grouping. Where the depth or the open header changes, nothing else does. -/
theorem push (h : Tidy ts g) (t : Token) : Tidy (ts ++ [t]) (g.push t) := by
  have unchanged {g g' : Lines} (h : Tidy (ts ++ [t]) g) (hfound : g'.found = g.found)
      (hbuffer : g'.buffer = g.buffer) : Tidy (ts ++ [t]) g' :=
    ⟨by rw [hfound, hbuffer]; exact h.layout, by rw [hbuffer]; exact h.buffer⟩
  unfold Lines.push
  by_cases hopens : t.kind.opensScope
  · have ht : t.kind ≠ .leftScope := by
      intro hkind
      rw [hkind] at hopens
      cases hopens
    rw [if_pos hopens]
    exact unchanged (h.flush.collect ht) rfl rfl
  · rw [if_neg hopens]
    cases hkind : t.kind with
    | leftScope =>
      dsimp only
      split
      · obtain ⟨us, hus, rfl⟩ := h.layout
        have hbrace : BraceLast (g.collect t).buffer := BraceLast.append h.buffer ⟨fun _ => rfl, trivial⟩
        have hflush : Tidy (us ++ g.buffer ++ [t]) (g.collect t).flush :=
          mk_flush ⟨us, hus, by simp [Lines.collect]⟩ hbrace
        exact unchanged hflush rfl rfl
      · exact h.flush.add g.buffer_flush t
    | rightScope => exact h.flush.add g.buffer_flush t
    | semicolon =>
      dsimp only
      split
      · exact h.flush.semicolon g.buffer_flush hkind
      · exact h.collect (by simp [hkind])
    | leftParen | rightParen => exact unchanged (h.collect (by simp [hkind])) rfl rfl
    | _ => exact h.collect (by simp [hkind])

end Tidy

theorem foldl_tidy (ts : List Token) : Tidy ts (ts.foldl push {}) := by
  have foldl_push (us : List Token) (g : Lines) (h : Tidy us g) : Tidy (us ++ ts) (ts.foldl push g) := by
    induction ts generalizing us g with
    | nil => simpa using h
    | cons t ts ih =>
      have hrest := ih (us ++ [t]) (g.push t) (h.push t)
      simpa using hrest
  exact foldl_push [] {} ⟨⟨[], .nil, rfl⟩, nofun⟩

end Lines

/-- The statements of grouped tokens lie in the tokens in order. -/
theorem group_layout (ts : List Token) : Layout (group ts).statements ts := by
  obtain ⟨us, hus, hts⟩ := (Lines.foldl_tidy ts).flush.layout
  rw [Lines.buffer_flush, List.append_nil] at hts
  rw [group_statements]
  exact hts ▸ hus

/-- The tokens that are unread, semicolons included, where the rest of the statement and the statements
after it are given. -/
def Unread (ts : List Token) (ps : List (List Token)) (xs : List Token) : Prop :=
  BraceLast ts ∧ ∃ us, Layout ps us ∧ xs = ts ++ us

namespace Unread

variable {t : Token} {ts xs : List Token} {ps : List (List Token)}

theorem cons (h : Unread (t :: ts) ps xs) : ∃ ys, xs = t :: ys ∧ Unread ts ps ys := by
  obtain ⟨hbrace, us, hus, rfl⟩ := h
  exact ⟨ts ++ us, rfl, hbrace.2, us, hus, rfl⟩

theorem append {ss : List Token} (h : Unread (ss ++ ts) ps xs) :
    ∃ ys, xs = ss ++ ys ∧ Unread ts ps ys := by
  induction ss generalizing xs with
  | nil => exact ⟨xs, rfl, h⟩
  | cons s ss ih =>
    obtain ⟨ys, rfl, hys⟩ := h.cons
    obtain ⟨zs, rfl, hzs⟩ := ih hys
    exact ⟨zs, rfl, hzs⟩

/-- Behind an opening brace the next statement begins. -/
theorem brace (h : Unread (t :: ts) ps xs) (ht : t.kind = .leftScope) :
    ts = [] ∧ ∃ ys, xs = t :: ys ∧ Unread [] ps ys := by
  obtain rfl := h.1.1 ht
  exact ⟨rfl, h.cons⟩

theorem statement {p : List Token} (h : Unread [] (p :: ps) xs) :
    ∃ ss ys, xs = ss ++ ys ∧ Semicolons ss ∧ Unread p ps ys := by
  obtain ⟨-, us, hus, rfl⟩ := h
  obtain ⟨ss, vs, rfl, hss, hbrace, hvs⟩ := hus.first
  exact ⟨ss, p ++ vs, rfl, hss, hbrace, vs, hvs, rfl⟩

end Unread

def FunctionTable.Within (fs T : FunctionTable) : Prop :=
  ∀ (name : String) (entry : FunctionEntry), fs[name]? = some entry → T[name]? = some entry

theorem FunctionTable.Within.trans {fs gs T : FunctionTable} (h : fs.Within gs) (h' : gs.Within T) :
    fs.Within T :=
  fun name entry hentry => h' name entry (h name entry hentry)

theorem Reads.within {T : FunctionTable} {p : Part} {s s' : ParserState} (h : Reads p s s')
    (hT : s'.functions.Within T) : s.functions.Within T :=
  fun name entry hentry => hT name entry (h.getElem?_functions hentry)

/-- What is read off a state is derived from the first of the unread tokens. -/
theorem Reads.derives {T : FunctionTable} {p : Part} {s s' : ParserState} (h : Reads p s s')
    (hT : s'.functions.Within T) {xs : List Token} (hxs : Unread s.tokens s.pending xs) :
    ∃ ys zs, xs = ys ++ zs ∧ Unread s'.tokens s'.pending zs ∧ Derives T p ys := by
  induction h generalizing xs with
  | @leaf t _ _ _ _ hleaf =>
    obtain ⟨zs, rfl, h₁⟩ := hxs.cons
    exact ⟨[t], zs, rfl, h₁, .leaf hleaf⟩
  | @opening t _ _ _ _ _ _ ht _ ih =>
    obtain ⟨ys, rfl, h₁⟩ := hxs.cons
    obtain ⟨ys, zs, rfl, h₂, he⟩ := ih hT h₁
    exact ⟨t :: ys, zs, rfl, h₂, .opening ht he⟩
  | @step t u _ _ _ _ ht hu =>
    obtain ⟨ys, rfl, h₁⟩ := hxs.cons
    obtain ⟨zs, rfl, h₂⟩ := h₁.cons
    exact ⟨[t, u], zs, rfl, h₂, .step ht hu⟩
  | @compound t u _ _ _ _ _ _ ht hu _ ih =>
    obtain ⟨ys, rfl, h₁⟩ := hxs.cons
    obtain ⟨ys, rfl, h₂⟩ := h₁.cons
    obtain ⟨ys, zs, rfl, h₃, he⟩ := ih hT h₂
    exact ⟨t :: u :: ys, zs, rfl, h₃, .compound ht hu he⟩
  | @group t u _ _ _ _ _ _ _ ht _ ih =>
    obtain ⟨ys, rfl, h₁⟩ := hxs.cons
    obtain ⟨ys, zs, rfl, h₂, he⟩ := ih hT h₁
    obtain ⟨zs, rfl, h₃⟩ := h₂.cons
    exact ⟨t :: (ys ++ [u]), zs, by simp, h₃, .group ht he⟩
  | @call t u v _ _ _ _ _ _ _ ht hu hv hlen _ ih =>
    obtain ⟨ys, rfl, h₁⟩ := hxs.cons
    obtain ⟨ys, rfl, h₂⟩ := h₁.cons
    obtain ⟨ys, zs, rfl, h₃, hes⟩ := ih hT h₂
    obtain ⟨zs, rfl, h₄⟩ := h₃.cons
    exact ⟨t :: u :: (ys ++ [v]), zs, by simp, h₄, .call ht hu hv hlen hes⟩
  | @define t u v w params _ ts ts' _ _ _ _ ht hu hparams hv hw _ hlen hes ih =>
    obtain ⟨us, hsplit, hlists⟩ := parameterNames_lists listLimit ts
    rw [hparams] at hsplit hlists
    subst hsplit
    have hentry := hes.within hT t.text _ Std.ExtTreeMap.getElem?_insert_self
    obtain ⟨ys, rfl, h₁⟩ := hxs.cons
    obtain ⟨ys, rfl, h₂⟩ := h₁.cons
    obtain ⟨ys, rfl, h₃⟩ := h₂.append
    obtain ⟨ys, rfl, h₄⟩ := h₃.cons
    obtain ⟨rfl, ys, rfl, h₅⟩ := h₄.brace hw
    obtain ⟨ys, zs, rfl, h₆, hes⟩ := ih hT h₅
    exact ⟨t :: u :: (us ++ v :: w :: ys), zs, by simp, h₆, .define ht hu hlists hv hw hentry hlen hes⟩
  | @forLoop t u v w x y _ _ _ _ _ _ _ _ _ _ _ _ _ _ _ _ _ _ ht hu _ hv hcondition hw hstep hx hy hlen
      hes ihinit ihcondition ihstep ihbody =>
    obtain ⟨xs, rfl, h₁⟩ := hxs.cons
    obtain ⟨xs, rfl, h₂⟩ := h₁.cons
    obtain ⟨is, xs, rfl, h₃, hinit⟩ :=
      ihinit (hcondition.within (hstep.within (hes.within hT))) h₂
    obtain ⟨xs, rfl, h₄⟩ := h₃.cons
    obtain ⟨cs, xs, rfl, h₅, hcondition⟩ := ihcondition (hstep.within (hes.within hT)) h₄
    obtain ⟨xs, rfl, h₆⟩ := h₅.cons
    obtain ⟨ss, xs, rfl, h₇, hstep'⟩ := ihstep (hes.within hT) h₆
    obtain ⟨xs, rfl, h₈⟩ := h₇.cons
    obtain ⟨rfl, xs, rfl, h₉⟩ := h₈.brace hy
    obtain ⟨ys, zs, rfl, h₁₀, hes⟩ := ihbody hT h₉
    exact ⟨t :: u :: (is ++ v :: (cs ++ w :: (ss ++ x :: y :: ys))), zs, by simp, h₁₀,
      .forLoop ht hu hinit hv hcondition hw hstep' hx hy hlen hes⟩
  | @whileLoop t u v w _ _ _ _ _ _ _ _ _ _ ht hu _ hv hw hlen hes ihcondition ihbody =>
    obtain ⟨xs, rfl, h₁⟩ := hxs.cons
    obtain ⟨xs, rfl, h₂⟩ := h₁.cons
    obtain ⟨cs, xs, rfl, h₃, hcondition⟩ := ihcondition (hes.within hT) h₂
    obtain ⟨xs, rfl, h₄⟩ := h₃.cons
    obtain ⟨rfl, xs, rfl, h₅⟩ := h₄.brace hw
    obtain ⟨ys, zs, rfl, h₆, hes⟩ := ihbody hT h₅
    exact ⟨t :: u :: (cs ++ v :: w :: ys), zs, by simp, h₆,
      .whileLoop ht hu hcondition hv hw hlen hes⟩
  | @block t _ _ _ _ _ _ ht hlen _ ih =>
    obtain ⟨rfl, xs, rfl, h₁⟩ := hxs.brace ht
    obtain ⟨ys, zs, rfl, h₂, hes⟩ := ih hT h₁
    exact ⟨t :: ys, zs, rfl, h₂, .block ht hlen hes⟩
  | @access t _ _ _ _ _ _ ht ih =>
    obtain ⟨ys, zs, rfl, h₁, he⟩ := ih hT hxs
    obtain ⟨zs, rfl, h₂⟩ := h₁.cons
    exact ⟨ys ++ [t], zs, by simp, h₂, .access he ht⟩
  | @write t _ _ _ _ _ _ _ _ _ ht hvalue ihtarget ihvalue =>
    obtain ⟨ys, xs, rfl, h₁, htarget⟩ := ihtarget (hvalue.within hT) hxs
    obtain ⟨xs, rfl, h₂⟩ := h₁.cons
    obtain ⟨vs, zs, rfl, h₃, hvalue⟩ := ihvalue hT h₂
    exact ⟨ys ++ t :: vs, zs, by simp, h₃, .write htarget ht hvalue⟩
  | @binary t _ _ _ _ _ _ _ _ _ ht hright ihleft ihright =>
    obtain ⟨ys, xs, rfl, h₁, hleft⟩ := ihleft (hright.within hT) hxs
    obtain ⟨xs, rfl, h₂⟩ := h₁.cons
    obtain ⟨vs, zs, rfl, h₃, hright⟩ := ihright hT h₂
    exact ⟨ys ++ t :: vs, zs, by simp, h₃, .binary hleft ht hright⟩
  | @ternary t u _ _ _ _ _ _ _ _ _ _ _ _ ht hyes hu hno ihcondition ihyes ihno =>
    obtain ⟨cs, xs, rfl, h₁, hcondition⟩ := ihcondition (hyes.within (hno.within hT)) hxs
    obtain ⟨xs, rfl, h₂⟩ := h₁.cons
    obtain ⟨ys, xs, rfl, h₃, hyes⟩ := ihyes (hno.within hT) h₂
    obtain ⟨xs, rfl, h₄⟩ := h₃.cons
    obtain ⟨ns, zs, rfl, h₅, hno⟩ := ihno hT h₄
    exact ⟨cs ++ t :: (ys ++ u :: ns), zs, by simp, h₅, .ternary hcondition ht hyes hu hno⟩
  | noArgument => exact ⟨[], xs, rfl, hxs, .noArgument⟩
  | lastArgument _ ih =>
    obtain ⟨ys, zs, rfl, h₁, he⟩ := ih hT hxs
    exact ⟨ys, zs, rfl, h₁, .lastArgument he⟩
  | @argument t _ _ _ _ _ _ _ _ ht hes ih ihrest =>
    obtain ⟨ys, xs, rfl, h₁, he⟩ := ih (hes.within hT) hxs
    obtain ⟨xs, rfl, h₂⟩ := h₁.cons
    obtain ⟨us, zs, rfl, h₃, hes⟩ := ihrest hT h₂
    exact ⟨ys ++ t :: us, zs, by simp, h₃, .argument he ht hes⟩
  | bodyEnd hclose =>
    obtain ⟨t, rfl, ht⟩ := eq_singleton_of_isClosing hclose
    obtain ⟨ss, xs, rfl, hss, h₁⟩ := hxs.statement
    obtain ⟨zs, rfl, h₂⟩ := h₁.cons
    exact ⟨ss ++ [t], zs, by simp, h₂, Derives.semicolons_body hss (.bodyEnd ht)⟩
  | bodyStatement _ _ hes ih ihrest =>
    obtain ⟨ss, xs, rfl, hss, h₁⟩ := hxs.statement
    obtain ⟨ys, xs, rfl, h₂, he⟩ := ih (hes.within hT) h₁
    obtain ⟨us, zs, rfl, h₃, hes⟩ := ihrest hT h₂
    exact ⟨ss ++ (ys ++ us), zs, by simp, h₃, Derives.semicolons_body hss (.bodyStatement he hes)⟩
  | programEnd => exact ⟨[], xs, rfl, hxs, .programEnd⟩
  | programStatement _ _ hes ih ihrest =>
    obtain ⟨ss, xs, rfl, hss, h₁⟩ := hxs.statement
    obtain ⟨ys, xs, rfl, h₂, he⟩ := ih (hes.within hT) h₁
    obtain ⟨us, zs, rfl, h₃, hes⟩ := ihrest hT h₂
    exact ⟨ss ++ (ys ++ us), zs, by simp, h₃,
      Derives.semicolons_program hss (.programStatement he hes)⟩

/-- Whatever parses is derived from the tokens, all of them. -/
theorem parse_derives {ts : List Token} {parsed : Parsed} (h : parse (group ts) = .ok parsed) :
    Derives parsed.functions (.program parsed.expressions) ts := by
  have hstart : Unread [] (group ts).statements ts := ⟨trivial, ts, group_layout ts, rfl⟩
  obtain ⟨ys, zs, rfl, ⟨-, us, hus, rfl⟩, hderives⟩ :=
    (parse_reads h).derives (fun _ _ hentry => hentry) hstart
  exact hderives.program_semicolons hus.eq_semicolons

end HostScript
