import HostScript.Proofs.Session.Script
import HostScript.Session

/-!
# The order of the built-ins

The names of the built-ins come to a scan as a list, but the scan only asks which names there are. Two
scans that have read the same tokens know the same names for callable, even if they keep them in trees of
different shape. So they read the same token next, and the order in which a registry lists its names does
not show in anything that is compiled.
-/
namespace HostScript

namespace Scanner

/-- The state of a scan in which the callable names are kept in the given tree. -/
def withFunctions (s : Scanner) (names : Trie) : Scanner := { s with functionNames := names }

variable {names names' : Trie} (h : ∀ word, names.contains word = names'.contains word)

theorem commit_withFunctions (s : Scanner) (names : Trie) (t : Token) :
    (s.withFunctions names).commit t =
      (s.commit t).withFunctions (if t.kind = .function then names.insert t.text.toList else names) := by
  obtain ⟨variableNames, functionNames, parameters, scope, enclosing, pending, tokens⟩ := s
  cases hkind : t.kind with
  | parameter =>
    simp only [withFunctions, commit, learn, hkind]
    cases tokens.find? fun u => u.kind == .function with
    | none => rfl
    | some owner => rfl
  | rightScope =>
    simp only [withFunctions, commit, learn, hkind]
    cases enclosing with
    | nil => rfl
    | cons outer rest => rfl
  | _ => simp [withFunctions, commit, learn, hkind]

include h

/-- The categories ask for the callable names only through longest matches. -/
theorem next?_withFunctions (s : Scanner) (input : List Char) :
    (s.withFunctions names).next? input = (s.withFunctions names').next? input := by
  have hcall : Matcher.scanCall (s.withFunctions names) input =
      Matcher.scanCall (s.withFunctions names') input := by
    have hmatch := Trie.longestMatch_congr h input
    simp only [Matcher.scanCall, withFunctions, hmatch]
  have hscan (m : Matcher) :
      m.scan (s.withFunctions names) input = m.scan (s.withFunctions names') input := by
    cases m with
    | call => exact hcall
    | _ => rfl
  simp only [next?, hscan]

/-- Scans that differ in the shape of the tree of callable names go in step. -/
theorem pieces_withFunctions (fuel : Nat) (s : Scanner) (c : Cursor) :
    (s.withFunctions names).pieces fuel c = (s.withFunctions names').pieces fuel c := by
  induction fuel generalizing s c names names' with
  | zero => rfl
  | succ fuel ih =>
    have hnext := next?_withFunctions h s c.rest
    unfold pieces
    rw [hnext]
    cases (s.withFunctions names').next? c.rest with
    | none =>
      dsimp only
      rw [ih h]
    | some read =>
      obtain ⟨m, l⟩ := read
      have hlearned (word : List Char) :
          (if l.token.kind = .function then names.insert l.token.text.toList else names).contains word =
            (if l.token.kind = .function then names'.insert l.token.text.toList else names').contains
              word := by
        split
        · rw [Bool.eq_iff_iff, Trie.contains_insert, Trie.contains_insert, h word]
        · exact h word
      dsimp only
      rw [commit_withFunctions, commit_withFunctions, ih hlearned]

end Scanner

/-- A scan depends on which names can be called, and not on how they are listed. -/
theorem tokenize_congr {names names' : List String} (h : ∀ name, name ∈ names ↔ name ∈ names')
    (source : String) : tokenize names source = tokenize names' source := by
  have hcontains (word : List Char) : (Trie.ofList (names.map String.toList)).contains word =
      (Trie.ofList (names'.map String.toList)).contains word := by
    rw [Bool.eq_iff_iff, Trie.contains_ofList, Trie.contains_ofList]
    simp only [List.mem_map, h]
  exact congrArg Tokenized.mk (Scanner.pieces_withFunctions hcontains _ {} _)

/-- Compiles a script as a session does, where the names of the built-ins come in the given order. -/
def Session.compileInOrder {σ : Type} (order : Registry σ → List String) (source : String) (debug : Bool) :
    SessionM σ Program := do
  compileFor (order (← get).builtins) source debug

/-- The order in which the built-ins are listed does not matter, and neither does listing one of them
twice. Two lists of the same names give the same tokens, imports, usings and events, and the same parsed
script or the same error. So whichever order a registry lists its names in, a session compiles a source
text to the same program, fails with the same error and reports the same events. -/
theorem registry_order_irrelevant {names names' : List String}
    (h : ∀ name, name ∈ names ↔ name ∈ names') (source : String) :
    (tokenize names source).tokens = (tokenize names' source).tokens ∧
      (tokenize names source).imports = (tokenize names' source).imports ∧
      (tokenize names source).usings = (tokenize names' source).usings ∧
      (tokenize names source).events = (tokenize names' source).events ∧
      parseSource names source = parseSource names' source ∧
      ∀ {σ : Type} (order : Registry σ → List String),
        (∀ registry name, name ∈ order registry ↔ name ∈ registry) →
          ∀ debug, Session.compileInOrder order source debug = Session.compile source debug := by
  have htokenize := tokenize_congr h source
  refine ⟨by rw [htokenize], by rw [htokenize], by rw [htokenize], by rw [htokenize],
    by rw [parseSource, parseSource, htokenize], fun order horder debug => ?_⟩
  refine bind_congr fun s => ?_
  have hnames (name : String) : name ∈ order s.builtins ↔ name ∈ s.builtins.names :=
    (horder s.builtins name).trans Registry.mem_names.symm
  rw [Session.compileFor, tokenize_congr hnames]
  rfl

/-- Three names, one of them twice, in trees of different shape: the words that share a first letter are
kept in another order. -/
theorem registry_order_irrelevant_repeated :
    (∀ name, name ∈ ["min", "max", "min", "abs"] ↔ name ∈ ["abs", "max", "min"]) ∧
      Scanner.start ["min", "max", "min", "abs"] ≠ Scanner.start ["abs", "max", "min"] ∧
      (tokenize ["min", "max", "min", "abs"] "max(min(1, 2), abs(3));").tokens =
        (tokenize ["abs", "max", "min"] "max(min(1, 2), abs(3));").tokens := by
  have h (name : String) : name ∈ ["min", "max", "min", "abs"] ↔ name ∈ ["abs", "max", "min"] := by
    simp only [List.mem_cons, List.not_mem_nil, or_false]
    tauto
  refine ⟨h, fun heq => ?_, (registry_order_irrelevant h _).1⟩
  have htrees := congrArg Scanner.functionNames heq
  revert htrees
  decide +kernel

end HostScript
