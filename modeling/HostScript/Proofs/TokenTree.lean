import Mathlib.Data.List.Induction
import HostScript.TokenTree

/-!
# Statements of grouped tokens

The statements of a token tree do not depend on its nesting, so they can be found without it: `Lines`
collects them in order. Tokens are neither lost nor moved on the way. The only ones that are dropped are
the semicolons that end statements.
-/
namespace HostScript

theorem mem_of_closing? {statement : List Token} {t : Token} (h : closing? statement = some t) :
    t ∈ statement := by
  unfold closing? at h
  split at h
  · split at h
    · cases h
      exact List.mem_singleton_self t
    · cases h
  · cases h

namespace TokenTree

@[simp] theorem statementsAll_append (ts us : List TokenTree) :
    statementsAll (ts ++ us) = statementsAll ts ++ statementsAll us := by
  induction ts with
  | nil => rfl
  | cons t ts ih => simp [statementsAll, ih]

@[simp] theorem statementsAll_singleton (t : TokenTree) : statementsAll [t] = t.statements := by
  simp [statementsAll]

end TokenTree

/-- The depth of parentheses behind a token of this kind. At depth zero, a closing parenthesis does not
count. -/
def Kind.depthAfter (depth : Nat) : Kind → Nat
  | .leftParen => depth + 1
  | .rightParen => depth - 1
  | _ => depth

def parenDepth (ts : List Token) : Nat := ts.foldl (fun depth t => t.kind.depthAfter depth) 0

/-- The tokens without the semicolons that stand outside parentheses. -/
def withoutTerminators (ts : List Token) : List Token :=
  (ts.zipIdx.filter fun p => ¬(p.1.kind = .semicolon ∧ parenDepth (ts.take p.2) = 0)).map Prod.fst

theorem parenDepth_append_singleton (ts : List Token) (t : Token) :
    parenDepth (ts ++ [t]) = t.kind.depthAfter (parenDepth ts) := List.foldl_append

theorem withoutTerminators_append_singleton (ts : List Token) (t : Token) :
    withoutTerminators (ts ++ [t]) =
      withoutTerminators ts ++ if t.kind = .semicolon ∧ parenDepth ts = 0 then [] else [t] := by
  have hbefore : ts.zipIdx.filter
      (fun p => ¬(p.1.kind = .semicolon ∧ parenDepth ((ts ++ [t]).take p.2) = 0)) =
      ts.zipIdx.filter fun p => ¬(p.1.kind = .semicolon ∧ parenDepth (ts.take p.2) = 0) := by
    refine List.filter_congr fun p hp => ?_
    have hle : p.2 ≤ ts.length := Nat.le_of_lt (by simpa using List.snd_lt_of_mem_zipIdx hp)
    rw [List.take_append_of_le_length hle]
  unfold withoutTerminators
  rw [List.zipIdx_append, List.filter_append, List.map_append, hbefore]
  by_cases hkind : t.kind = .semicolon
  · by_cases hdepth : parenDepth ts = 0
    · simp [hkind, hdepth]
    · simp [hkind, hdepth]
  · simp [hkind]

theorem countP_withoutTerminators {p : Token → Bool} (hp : ∀ t, t.kind = .semicolon → p t = false)
    (ts : List Token) : (withoutTerminators ts).countP p = ts.countP p := by
  induction ts using List.reverseRecOn with
  | nil => rfl
  | append_singleton ts t ih =>
    rw [withoutTerminators_append_singleton, List.countP_append, List.countP_append, ih]
    congr 1
    split
    · rename_i hdropped
      rw [List.countP_singleton, hp t hdropped.1]
      rfl
    · rfl

/-- The state of the grouping without regions: the statements found so far in order, the one being
collected, the depth of parentheses, and whether a header awaits its opening brace. -/
structure Lines where
  found : List (List Token) := []
  buffer : List Token := []
  depth : Nat := 0
  headerOpen : Bool := false
deriving Repr, DecidableEq

namespace Lines

def flush (g : Lines) : Lines :=
  if g.buffer.isEmpty then g else { g with found := g.found ++ [g.buffer], buffer := [] }

def collect (g : Lines) (t : Token) : Lines := { g with buffer := g.buffer ++ [t] }

def add (g : Lines) (t : Token) : Lines := { g with found := g.found ++ [[t]] }

def push (g : Lines) (t : Token) : Lines :=
  if t.kind.opensScope then { g.flush.collect t with headerOpen := true }
  else match t.kind with
    | .leftScope =>
      if g.headerOpen then { (g.collect t).flush with headerOpen := false } else g.flush.add t
    | .rightScope => g.flush.add t
    | .leftParen => { g.collect t with depth := g.depth + 1 }
    | .rightParen => { g.collect t with depth := g.depth - 1 }
    | .semicolon => if g.depth = 0 then g.flush else g.collect t
    | _ => g.collect t

end Lines

namespace Grouping

/-- The statements of the regions that are open. -/
def found (g : Grouping) : List (List Token) :=
  TokenTree.statementsAll (g.enclosing.reverse.flatten ++ g.current)

/-- The state without regions. -/
def lines (g : Grouping) : Lines := ⟨g.found, g.buffer, g.depth, g.headerOpen⟩

theorem lines_flush (g : Grouping) : g.flush.lines = g.lines.flush := by
  obtain ⟨buffer, current, enclosing, depth, headerOpen⟩ := g
  cases buffer with
  | nil => rfl
  | cons t ts => simp [flush, Lines.flush, lines, found, add, TokenTree.statements]

theorem lines_collect (g : Grouping) (t : Token) : (g.collect t).lines = g.lines.collect t := rfl

theorem lines_begin (g : Grouping) : (g.begin []).lines = g.lines := by
  simp [lines, found, begin]

theorem lines_begin_statement (g : Grouping) (t : Token) :
    (g.begin [.statement [t]]).lines = g.lines.add t := by
  simp [lines, found, begin, Lines.add, TokenTree.statements]

theorem lines_close (g : Grouping) : g.close.lines = g.lines := by
  unfold close
  split
  · rfl
  · rename_i outer rest henclosing
    simp [lines, found, henclosing, TokenTree.statements]

theorem lines_add_statement (g : Grouping) (t : Token) :
    (g.add (.statement [t])).lines = g.lines.add t := by
  simp [lines, found, add, Lines.add, TokenTree.statements]

theorem lines_push (g : Grouping) (t : Token) : (g.push t).lines = g.lines.push t := by
  unfold push Lines.push
  by_cases hopens : t.kind.opensScope
  · rw [if_pos hopens, if_pos hopens, ← lines_flush, ← g.flush.lines_begin]
    rfl
  · rw [if_neg hopens, if_neg hopens]
    cases t.kind with
    | leftScope =>
      cases hopen : g.headerOpen with
      | true =>
        have hheader : g.lines.headerOpen = true := hopen
        simp only [hheader, if_true, ← lines_collect, ← lines_flush]
        rfl
      | false =>
        have hheader : g.lines.headerOpen = false := hopen
        simp [hheader, lines_begin_statement, lines_flush]
    | rightScope => simp [lines_close, lines_add_statement, lines_flush]
    | semicolon =>
      simp only
      by_cases hdepth : g.depth = 0
      · rw [if_pos hdepth, if_pos (show g.lines.depth = 0 from hdepth), lines_flush]
      · rw [if_neg hdepth, if_neg (show g.lines.depth ≠ 0 from hdepth), lines_collect]
    | _ => rfl

theorem statements_closeAll (children : List TokenTree) (enclosing : List (List TokenTree)) :
    (closeAll children enclosing).statements =
      TokenTree.statementsAll (enclosing.reverse.flatten ++ children) := by
  induction enclosing generalizing children with
  | nil => simp [closeAll, TokenTree.statements]
  | cons outer rest ih => simp [closeAll, ih, TokenTree.statements]

theorem statements_finish (g : Grouping) : g.finish.statements = g.lines.flush.found := by
  rw [finish, statements_closeAll, ← lines_flush]
  rfl

end Grouping

/-- The statements of grouped tokens. -/
theorem group_statements (tokens : List Token) :
    (group tokens).statements = (tokens.foldl Lines.push {}).flush.found := by
  have foldl_push (g : Grouping) : (tokens.foldl Grouping.push g).lines = tokens.foldl Lines.push g.lines := by
    induction tokens generalizing g with
    | nil => rfl
    | cons t tokens ih => rw [List.foldl_cons, List.foldl_cons, ih, Grouping.lines_push]
  rw [group, Grouping.statements_finish, foldl_push]
  rfl

namespace Lines

/-- The tokens taken in so far, without those that were dropped. -/
def tokens (g : Lines) : List Token := g.found.flatten ++ g.buffer

theorem tokens_flush (g : Lines) : g.flush.tokens = g.tokens := by
  obtain ⟨found, buffer, depth, headerOpen⟩ := g
  cases buffer with
  | nil => rfl
  | cons t ts => simp [flush, tokens]

theorem tokens_collect (g : Lines) (t : Token) : (g.collect t).tokens = g.tokens ++ [t] := by
  simp [tokens, collect]

theorem buffer_flush (g : Lines) : g.flush.buffer = [] := by
  unfold flush
  split
  · exact List.isEmpty_iff.mp ‹_›
  · rfl

theorem tokens_flush_add (g : Lines) (t : Token) : (g.flush.add t).tokens = g.tokens ++ [t] := by
  rw [← tokens_flush g]
  simp [tokens, add, buffer_flush]

/-- Every token is kept in order, except for a semicolon outside parentheses. -/
theorem tokens_push (g : Lines) (t : Token) :
    (g.push t).tokens = g.tokens ++ if t.kind = .semicolon ∧ g.depth = 0 then [] else [t] := by
  have hcollect := g.tokens_collect t
  unfold push
  by_cases hopens : t.kind.opensScope
  · have hkind : t.kind ≠ .semicolon := by
      rintro hkind
      rw [hkind] at hopens
      cases hopens
    rw [if_pos hopens, if_neg (fun h => hkind h.1), ← tokens_flush g]
    exact g.flush.tokens_collect t
  · rw [if_neg hopens]
    cases hkind : t.kind with
    | leftScope =>
      simp only
      split
      · rw [if_neg (by simp), ← hcollect]
        exact (g.collect t).tokens_flush
      · simpa using g.tokens_flush_add t
    | rightScope => simpa using g.tokens_flush_add t
    | semicolon =>
      by_cases hdepth : g.depth = 0
      · simpa [hdepth] using g.tokens_flush
      · simpa [hdepth] using hcollect
    | _ =>
      simp only [reduceCtorEq, false_and, if_false]
      exact hcollect

/-- A token changes the depth of parentheses by its kind alone. -/
theorem depth_push (g : Lines) (t : Token) : (g.push t).depth = t.kind.depthAfter g.depth := by
  have depth_flush (g : Lines) : g.flush.depth = g.depth := by
    unfold flush
    split
    · rfl
    · rfl
  unfold push
  cases t.kind with
  | function | forWord | whileWord | rightScope => exact depth_flush g
  | leftScope =>
    simp only [Kind.opensScope, Bool.false_eq_true, if_false]
    split
    · exact depth_flush (g.collect t)
    · exact depth_flush g
  | semicolon =>
    simp only [Kind.opensScope, Bool.false_eq_true, if_false]
    split
    · exact depth_flush g
    · rfl
  | _ => rfl

theorem depth_foldl (ts : List Token) : (ts.foldl push {}).depth = parenDepth ts := by
  induction ts using List.reverseRecOn with
  | nil => rfl
  | append_singleton ts t ih =>
    rw [List.foldl_append, List.foldl_cons, List.foldl_nil, depth_push, ih, parenDepth_append_singleton]

theorem tokens_foldl (ts : List Token) : (ts.foldl push {}).tokens = withoutTerminators ts := by
  induction ts using List.reverseRecOn with
  | nil => rfl
  | append_singleton ts t ih =>
    rw [List.foldl_append, List.foldl_cons, List.foldl_nil, tokens_push, depth_foldl, ih,
      withoutTerminators_append_singleton]

end Lines

theorem group_tokens (ts : List Token) :
    (group ts).tokens = (ts.foldl Lines.push {}).tokens := by
  rw [← Lines.tokens_flush, Lines.tokens, Lines.buffer_flush, List.append_nil, TokenTree.tokens,
    group_statements]

/-- Grouping keeps every token that is no semicolon. -/
theorem group_count {u : Token} (hu : u.kind ≠ .semicolon) (ts : List Token) :
    (group ts).tokens.count u = ts.count u := by
  rw [group_tokens, Lines.tokens_foldl]
  refine countP_withoutTerminators (fun t ht => ?_) ts
  rw [beq_eq_false_iff_ne]
  rintro rfl
  exact hu ht

/-- Nothing is lost in the grouping. Whether or not the parentheses and braces of the input match, the
tokens of its tree are, in order, those of the input without the semicolons that stand outside
parentheses. -/
theorem group_lossless (ts : List Token) : (group ts).tokens = withoutTerminators ts := by
  rw [group_tokens, Lines.tokens_foldl]

/-- A closing parenthesis too many does not hide the next terminator, and an open one hides them all. -/
example : (group [⟨.rightParen, ")"⟩, ⟨.semicolon, ";"⟩, ⟨.leftParen, "("⟩, ⟨.rightScope, "\x7d"⟩,
    ⟨.semicolon, ";"⟩]).tokens =
    [⟨.rightParen, ")"⟩, ⟨.leftParen, "("⟩, ⟨.rightScope, "\x7d"⟩, ⟨.semicolon, ";"⟩] := by
  decide

end HostScript
