import HostScript.Expr.Parser

/-!
# Running parsers

How the elementary parsers act on a state that is given by its parts. The proofs about the grammar use
these equations and do not look into the monad.
-/
namespace HostScript.ParseM

variable {α β σ : Type}

theorem bind_run (c : ParseFrom σ α) (f : α → ParseFrom σ β) (s : ParserState σ) :
    (c >>= f) s = match c s with
      | .ok (a, s') => f a s'
      | .error stop => .error stop := by
  simp only [bind, StateT.bind, Except.bind]
  cases c s <;> rfl

theorem bind_eq_ok {c : ParseFrom σ α} {f : α → ParseFrom σ β} {s s' : ParserState σ} {b : β} :
    (c >>= f) s = .ok (b, s') ↔ ∃ a t, c s = .ok (a, t) ∧ f a t = .ok (b, s') := by
  rw [bind_run]
  rcases c s with stop | ⟨a, t⟩
  · simp
  · constructor
    · intro h
      exact ⟨a, t, rfl, h⟩
    · rintro ⟨_, _, ⟨⟩, h⟩
      exact h

theorem bind_of_ok {c : ParseFrom σ α} {f : α → ParseFrom σ β} {s t : ParserState σ} {a : α}
    (h : c s = .ok (a, t)) : (c >>= f) s = f a t := by
  rw [bind_run, h]

@[simp] theorem pure_run (a : α) (s : ParserState σ) : (pure a : ParseFrom σ α) s = .ok (a, s) := rfl

@[simp] theorem fail_run (error : ParseError) (s : ParserState σ) :
    (fail error : ParseFrom σ α) s = .error (.failed error) := rfl

@[simp] theorem get_bind (f : ParserState σ → ParseFrom σ β) (s : ParserState σ) :
    ((get : ParseFrom σ (ParserState σ)) >>= f) s = f s s := rfl

@[simp] theorem modify_run (f : ParserState σ → ParserState σ) (s : ParserState σ) :
    (modify f : ParseFrom σ Unit) s = .ok ((), f s) := rfl

@[simp] theorem load_run (tokens : List Token) (s : ParserState σ) :
    load tokens s = .ok ((), { s with tokens }) := rfl

@[simp] theorem peekKind?_run (s : ParserState σ) :
    peekKind? s = .ok (s.tokens.head?.map Token.kind, s) := rfl

@[simp] theorem next?_cons (t : Token) (ts : List Token) (pending : σ)
    (functions : FunctionTable) :
    next? ⟨t :: ts, pending, functions⟩ = .ok (some t, ⟨ts, pending, functions⟩) := rfl

@[simp] theorem nextStatement?_cons (tokens statement : List Token) (pending : List (List Token))
    (functions : FunctionTable) :
    nextStatement? ⟨tokens, statement :: pending, functions⟩ =
      .ok (some statement, ⟨tokens, pending, functions⟩) := rfl

theorem nextStatement?_of_none [Std.Stream σ (List Token)] {s : ParserState σ}
    (h : Std.Stream.next? s.pending = none) : nextStatement? s = .ok (none, s) := by
  unfold nextStatement?
  rw [get_bind, h]
  rfl

theorem nextStatement?_of_some [Std.Stream σ (List Token)] {s : ParserState σ} {statement : List Token}
    {rest : σ} (h : Std.Stream.next? s.pending = some (statement, rest)) :
    nextStatement? s = .ok (some statement, { s with pending := rest }) := by
  unfold nextStatement?
  rw [get_bind, h]
  rfl

theorem eat_cons (kind : Kind) (t : Token) (ts : List Token) (pending : σ)
    (functions : FunctionTable) :
    eat kind ⟨t :: ts, pending, functions⟩ =
      if t.kind = kind then .ok (true, ⟨ts, pending, functions⟩)
      else .ok (false, ⟨t :: ts, pending, functions⟩) := by
  unfold eat
  rw [bind_of_ok (peekKind?_run _)]
  by_cases h : t.kind = kind
  · simp [h, bind_run]
  · simp [h]

theorem eat_of_ne {kind : Kind} {ts : List Token} {ps : σ} {fs : FunctionTable}
    (h : ∀ t ∈ ts.head?, t.kind ≠ kind) : eat kind ⟨ts, ps, fs⟩ = .ok (false, ⟨ts, ps, fs⟩) := by
  cases ts with
  | nil => rfl
  | cons t ts => rw [eat_cons, if_neg (h t rfl)]

theorem expect_cons (kind : Kind) (written : Char) (construct : Construct) (t : Token)
    (ts : List Token) (pending : σ) (functions : FunctionTable) :
    expect kind written construct ⟨t :: ts, pending, functions⟩ =
      if t.kind = kind then .ok ((), ⟨ts, pending, functions⟩)
      else .error (.failed (.missingDelimiter written construct)) := by
  unfold expect
  rw [bind_run, eat_cons]
  by_cases h : t.kind = kind
  · simp [h]
  · simp [h]

/-- The members that stand behind an operand are taken off the tokens. -/
theorem accesses_append {ms rest : List Token} (hms : ∀ m ∈ ms, m.kind = .access)
    (hend : ∀ t ∈ rest.head?, t.kind ≠ .access) :
    (ms ++ rest).takeWhile (·.kind == .access) = ms ∧
      (ms ++ rest).dropWhile (·.kind == .access) = rest := by
  have hall : ∀ m ∈ ms, (m.kind == Kind.access) = true := fun m hm => beq_iff_eq.mpr (hms m hm)
  rw [List.takeWhile_append_of_pos hall, List.dropWhile_append_of_pos hall]
  cases rest with
  | nil => simp
  | cons t rest =>
    have ht := hend t rfl
    simp [ht]

theorem exists_accesses (ts : List Token) :
    ∃ ms rest, ts = ms ++ rest ∧ (∀ m ∈ ms, m.kind = .access) ∧ ∀ t ∈ rest.head?, t.kind ≠ .access := by
  induction ts with
  | nil => exact ⟨[], [], rfl, List.forall_mem_nil _, nofun⟩
  | cons t ts ih =>
    by_cases ht : t.kind = .access
    · obtain ⟨ms, rest, rfl, hms, hend⟩ := ih
      exact ⟨t :: ms, rest, rfl, List.forall_mem_cons.mpr ⟨ht, hms⟩, hend⟩
    · exact ⟨[], t :: ts, rfl, List.forall_mem_nil _, by simpa using ht⟩

section

/-! An operand with its members behind it. -/

variable {recur : Nat → ParseM Expr} {t u : Token} {e : Expr} {ms ts rest : List Token}
  {ps ps' : List (List Token)} {fs fs' : FunctionTable}

/-- What comes behind the members decides whether a value is written to the last one. -/
theorem parsePrimary_of_operand (hms : ∀ m ∈ ms, m.kind = .access)
    (hend : ∀ u ∈ rest.head?, u.kind ≠ .access)
    (h : parseOperand recur t ⟨ts, ps, fs⟩ = .ok (e, ⟨ms ++ rest, ps', fs'⟩)) :
    parsePrimary recur ⟨t :: ts, ps, fs⟩ =
      (match accessChain e ms with
        | .access target member => do
          if ← eat .equals then return .write target member (← recur 0) else return accessChain e ms
        | _ => return accessChain e ms : ParseM Expr) ⟨rest, ps', fs'⟩ := by
  obtain ⟨htake, hdrop⟩ := accesses_append hms hend
  unfold parsePrimary
  rw [bind_of_ok (next?_cons ..)]
  dsimp only
  rw [bind_of_ok h, get_bind]
  dsimp only
  rw [htake, hdrop]
  exact bind_of_ok (load_run ..)

theorem parsePrimary_members (hms : ∀ m ∈ ms, m.kind = .access)
    (hend : ∀ u ∈ rest.head?, u.kind ≠ .access)
    (hwrite : ∀ target member, accessChain e ms = .access target member →
      ∀ u ∈ rest.head?, u.kind ≠ .equals)
    (h : parseOperand recur t ⟨ts, ps, fs⟩ = .ok (e, ⟨ms ++ rest, ps', fs'⟩)) :
    parsePrimary recur ⟨t :: ts, ps, fs⟩ = .ok (accessChain e ms, ⟨rest, ps', fs'⟩) := by
  rw [parsePrimary_of_operand hms hend h]
  revert hwrite
  cases accessChain e ms with
  | access target member =>
    intro hwrite
    exact bind_of_ok (eat_of_ne (hwrite target member rfl))
  | _ => exact fun _ => rfl

theorem parsePrimary_write {target : Expr} {member : String} (hms : ∀ m ∈ ms, m.kind = .access)
    (hchain : accessChain e ms = .access target member) (hu : u.kind = .equals)
    (h : parseOperand recur t ⟨ts, ps, fs⟩ = .ok (e, ⟨ms ++ u :: rest, ps', fs'⟩)) :
    parsePrimary recur ⟨t :: ts, ps, fs⟩ =
      (do return .write target member (← recur 0) : ParseM Expr) ⟨rest, ps', fs'⟩ := by
  have hend : ∀ v ∈ (u :: rest).head?, v.kind ≠ .access := by simp [hu]
  rw [parsePrimary_of_operand hms hend h, hchain]
  exact bind_of_ok ((eat_cons ..).trans (if_pos hu))

end

end HostScript.ParseM
