import HostScript.Proofs.Expr.Runs

/-!
# What parsing a tree comes to

The parser takes its statements from a queue of trees and unrolls a region only when it comes to it. It
does the same on the plain list of the statements of the tree, so the regions make no difference to it:
where a body ends is decided by its closing brace alone. A tree that is accepted is a well-formed script.
One that is rejected holds the token that the error is about.
-/
namespace HostScript

theorem Listed.statements_singleton (tree : TokenTree) :
    Listed.statements (TreeQueue.mk [tree]) = tree.statements := TokenTree.statementsAll_singleton tree

section

variable {L : Limits} {tree : TokenTree} {fuel fuel' : Nat} (hfuel : parseFuel tree.statements ≤ fuel)

include hfuel

theorem parseAll_queue_settled (hL : Limits.parser.Within L) (hfuel' : parseFuel tree.statements ≤ fuel') :
    ParseM.Settled (.listed TreeQueue (· ∈ tree.tokens))
      (fun es s => WellFormed L (.program es) ⟨[], tree.statements, ∅⟩ ⟨[], [], s.functions⟩)
      (parseAll fuel fuel) (parseAll fuel' fuel') { pending := ⟨[tree]⟩ } := by
  have hstart : (Comparison.listed TreeQueue (· ∈ tree.tokens)).Admits (parseFuel tree.statements)
      { pending := ⟨[tree]⟩ } := by
    refine ⟨?_, nofun, fun statement hstatement t ht => ?_⟩
    · simp [ParserState.size, Listed.statements_singleton]
    · rw [Listed.statements_singleton] at hstatement
      exact List.mem_flatten.mpr ⟨statement, hstatement, ht⟩
  rw [← Listed.statements_singleton]
  exact parseAll_settled hL hstart (.inr ⟨⟨hfuel, hfuel'⟩, hfuel, hfuel'⟩)

/-- With fuel enough, parsing a tree is parsing the list of its statements, however much fuel there is. -/
theorem parseStatements_queue (hfuel' : parseFuel tree.statements ≤ fuel') :
    parseStatements fuel (TreeQueue.mk [tree]) = parseStatements fuel' tree.statements := by
  have hsame := (parseAll_queue_settled hfuel .refl hfuel').same
  have hstart : (Comparison.listed TreeQueue (· ∈ tree.tokens)).state { pending := ⟨[tree]⟩ } =
      { pending := tree.statements } :=
    congrArg (ParserState.mk [] · ∅) (Listed.statements_singleton tree)
  rw [hstart] at hsame
  simp only [parseStatements, StateT.run, hsame]
  cases parseAll fuel fuel { pending := TreeQueue.mk [tree] } with
  | error stop => rfl
  | ok r => rfl

theorem parseStatements_outcome (hL : Limits.parser.Within L) :
    (∃ parsed, parseStatements fuel (TreeQueue.mk [tree]) = .ok parsed ∧
        WellFormed L (.program parsed.expressions) ⟨[], tree.statements, ∅⟩ ⟨[], [], parsed.functions⟩) ∨
      ∃ error, parseStatements fuel (TreeQueue.mk [tree]) = .error (.failed error) ∧
        error.Concerns (· ∈ tree.tokens) := by
  have hsettled := parseAll_queue_settled hfuel hL hfuel
  unfold parseStatements
  simp only [StateT.run]
  cases hrun : parseAll fuel fuel { pending := TreeQueue.mk [tree] } with
  | ok r => exact .inl ⟨_, rfl, hsettled.returns r.1 r.2 hrun⟩
  | error stop =>
    cases stop with
    | failed error => exact .inr ⟨error, rfl, hsettled.concerns error hrun⟩
    | outOfFuel => exact (hsettled.fuelled hrun).elim

/-- With fuel enough the parser ends as `parse` does, and not for want of fuel. -/
theorem parseStatements_eq_parse :
    parseStatements fuel (TreeQueue.mk [tree]) = (parse tree).mapError .failed := by
  have hle : parseFuel tree.statements ≤ parseFuel tree.statements := Nat.le_refl _
  rw [parse, parseScript, parseStatements_queue hfuel hle, ← parseStatements_queue hle hle]
  rcases parseStatements_outcome hle .refl with ⟨parsed, h, -⟩ | ⟨error, h, -⟩
  · rw [h]
    rfl
  · rw [h]
    rfl

end

/-- Parsing a tree is parsing its statements. -/
theorem parse_eq (tree : TokenTree) :
    parse tree = parseScript (parseFuel tree.statements) tree.statements := by
  rw [parse, parseScript, parseStatements_queue (Nat.le_refl _) (Nat.le_refl _)]
  rfl

/-- The parser sees only the flat sequence of statements. A tree is parsed like one region that holds the
statements of the tree in depth-first order, with the same result or the same error, and so are any two
trees with the same statements, wherever their regions begin and end. -/
theorem parse_flat (tree : TokenTree) :
    parse tree = parse (.scope (tree.statements.map .statement)) ∧
      ∀ other : TokenTree, other.statements = tree.statements → parse other = parse tree := by
  have hother (other : TokenTree) (h : other.statements = tree.statements) : parse other = parse tree := by
    rw [parse_eq, parse_eq, h]
  refine ⟨(hother _ ?_).symm, hother⟩
  rw [TokenTree.statements, TokenTree.statementsAll_map_statement]

/-- What parsing a tree ends with. -/
theorem parse_outcome {L : Limits} (hL : Limits.parser.Within L) (tree : TokenTree) :
    (∃ parsed, parse tree = .ok parsed ∧
        WellFormed L (.program parsed.expressions) ⟨[], tree.statements, ∅⟩ ⟨[], [], parsed.functions⟩) ∨
      ∃ error, parse tree = .error error ∧ error.Concerns (· ∈ tree.tokens) := by
  have hle : parseFuel tree.statements ≤ parseFuel tree.statements := Nat.le_refl _
  have houtcome := parseStatements_outcome hle hL
  rw [parseStatements_eq_parse hle] at houtcome
  cases hparse : parse tree with
  | ok parsed =>
    rw [hparse] at houtcome
    rcases houtcome with ⟨_, ⟨⟩, hwellFormed⟩ | ⟨_, ⟨⟩, _⟩
    exact .inl ⟨parsed, rfl, hwellFormed⟩
  | error error =>
    rw [hparse] at houtcome
    rcases houtcome with ⟨_, ⟨⟩, _⟩ | ⟨_, ⟨⟩, hconcerns⟩
    exact .inr ⟨error, rfl, hconcerns⟩

theorem parse_wellFormed {L : Limits} (hL : Limits.parser.Within L) {tree : TokenTree} {parsed : Parsed}
    (h : parse tree = .ok parsed) :
    WellFormed L (.program parsed.expressions) ⟨[], tree.statements, ∅⟩ ⟨[], [], parsed.functions⟩ := by
  have houtcome := parse_outcome hL tree
  rw [h] at houtcome
  rcases houtcome with ⟨_, ⟨⟩, hwellFormed⟩ | ⟨_, ⟨⟩, _⟩
  exact hwellFormed

/-- Whatever parses has been read by the rules of the grammar, down to the last statement. -/
theorem parse_reads {tree : TokenTree} {parsed : Parsed} (h : parse tree = .ok parsed) :
    Reads (.program parsed.expressions) ⟨[], tree.statements, ∅⟩ ⟨[], [], parsed.functions⟩ :=
  (parse_wellFormed .refl h).reads

/-- The error for a tree is about one of its tokens. -/
theorem parse_error_concerns {tree : TokenTree} {error : ParseError} (h : parse tree = .error error) :
    error.Concerns (· ∈ tree.tokens) := by
  have houtcome := parse_outcome .refl tree
  rw [h] at houtcome
  rcases houtcome with ⟨_, ⟨⟩, _⟩ | ⟨_, ⟨⟩, hconcerns⟩
  exact hconcerns

end HostScript
