import HostScript.Proofs.Session.History
import HostScript.Proofs.Text.Quotations

/-!
# Spacing

A script is scanned without its white space, so two source texts that differ in white space only are the
same script. A session that keeps neither of them compiles and runs both in the same way. What is left to
tell them apart is the text under which the program is kept.
-/
namespace HostScript

open Text

namespace Session

variable {σ : Type}

theorem clearCache_afterRun (t : Session σ) (source : String) (p : Program) (m : Machine σ) :
    (t.afterRun source p m).clearCache = { t.clearCache with world := m.world } := by
  unfold afterRun retain
  split
  · split <;> rfl
  · rfl

end Session

section

variable {source other : String} (h : stripBlanks source.toList = stripBlanks other.toList)

include h

theorem tokenize_of_stripBlanks_eq (names : List String) :
    tokenize names source = tokenize names other := by
  rw [tokenize, tokenize, h]

namespace Session

variable {σ : Type} {s : Session σ}

theorem compile_of_stripBlanks_eq (debug : Bool) :
    (compile source debug : SessionM σ Program) = compile other debug := by
  unfold compile compileFor
  simp only [tokenize_of_stripBlanks_eq h]

theorem obtain_of_stripBlanks_eq (hsource : s.cache[source]? = none) (hother : s.cache[other]? = none)
    (options : Options) :
    (obtain source options s).1 = (obtain other options s).1 ∧
      (obtain source options s).2.clearCache = (obtain other options s).2.clearCache := by
  unfold obtain
  cases options.cache with
  | false =>
    rw [if_neg Bool.false_ne_true, if_neg Bool.false_ne_true, compile_of_stripBlanks_eq h]
    exact ⟨rfl, rfl⟩
  | true =>
    rw [if_pos rfl, if_pos rfl, getOrCompile_of_missing _ hsource, getOrCompile_of_missing _ hother,
      compile_of_stripBlanks_eq h]
    rcases hcompile : compile other options.debug { s with world := s.world.logAll [.cacheMiss] }
      with ⟨failure | p, t⟩
    · rw [bind_of_error hcompile, bind_of_error hcompile]
      exact ⟨rfl, rfl⟩
    · have hforgets (text : String) :
          clearCache { t with cache := t.cache.insert text p } = t.clearCache := rfl
      rw [bind_of_ok hcompile, bind_of_ok hcompile, modify_bind, modify_bind, pure_run, pure_run]
      exact ⟨rfl, (hforgets source).trans (hforgets other).symm⟩

theorem evaluate_of_stripBlanks_eq [Host σ] (hsource : s.cache[source]? = none)
    (hother : s.cache[other]? = none) (fuel : Nat) (inputs : Inputs) (options : Options) :
    (evaluate fuel source inputs options s).1 = (evaluate fuel other inputs options s).1 ∧
      (evaluate fuel source inputs options s).2.clearCache =
        (evaluate fuel other inputs options s).2.clearCache := by
  have hobtain := obtain_of_stripBlanks_eq h hsource hother options
  rw [evaluate, evaluate]
  rcases ht : obtain source options s with ⟨r, t⟩
  rcases hu : obtain other options s with ⟨r', u⟩
  rw [ht, hu] at hobtain
  obtain ⟨rfl, hsession⟩ : r = r' ∧ t.clearCache = u.clearCache := hobtain
  cases r with
  | error failure =>
    rw [bind_of_error ht, bind_of_error hu]
    exact ⟨rfl, hsession⟩
  | ok p =>
    obtain ⟨hbuiltins, hworld, -, -⟩ := Session.mk.inj hsession
    rcases hrun : evalAll { builtins := t.builtins, inputs } fuel p.expressions
      { env := p.environment, world := t.world } with ⟨result, m⟩
    rw [bind_of_ok ht, bind_of_ok hu, runFor_eq hrun]
    rw [hbuiltins, hworld] at hrun
    rw [runFor_eq hrun, clearCache_afterRun, clearCache_afterRun, hsession]
    exact ⟨rfl, rfl⟩

end Session

end

/-- White space makes no difference. Put in at a place where the text before it has an even number of
double quotes, so that the place is not quoted, it changes neither the pieces into which the script is cut,
with the tokens and the events they stand for, nor what an evaluation in a fresh session comes to: the
result with all that is bound, attached and declared at the end, or the error. The session it leaves is
also the same, except for what it keeps. And once white space is removed, there is none left to remove. -/
theorem spacing_irrelevant {front gap back : String} (hfront : front.toList.count '"' % 2 = 0)
    (hgap : gap.toList.all isBlank) :
    (∀ names, tokenize names (front ++ gap ++ back) = tokenize names (front ++ back)) ∧
      (∀ {σ : Type} [Host σ] (builtins : Registry σ) (host : σ) (fuel : Nat) (inputs : Inputs)
        (options : Options),
        let spaced :=
          Session.evaluate fuel (front ++ gap ++ back) inputs options (Session.start builtins host)
        let plain := Session.evaluate fuel (front ++ back) inputs options (Session.start builtins host)
        spaced.1 = plain.1 ∧ spaced.2.clearCache = plain.2.clearCache) ∧
      ∀ text, stripBlanks (stripBlanks text) = stripBlanks text := by
  have hstrip : stripBlanks (front ++ gap ++ back).toList = stripBlanks (front ++ back).toList := by
    simp only [String.toList_append]
    exact stripBlanks_insert hfront hgap back.toList
  refine ⟨tokenize_of_stripBlanks_eq hstrip, fun builtins host fuel inputs options => ?_,
    stripFrom_stripFrom false⟩
  have hmissing (source : String) : (Session.start builtins host).cache[source]? = none :=
    Std.ExtTreeMap.getElem?_empty
  exact Session.evaluate_of_stripBlanks_eq hstrip (hmissing _) (hmissing _) fuel inputs options

/-- White space inside of a keyword, behind a literal with white space of its own. -/
theorem spacing_irrelevant_in_keyword :
    let front := "let s = \"a  b\"; retu"
    let gap := " \t\n\u3000"
    let back := "rn s;"
    (front.toList.count '"' % 2 = 0 ∧ gap.toList.all isBlank) ∧
      tokenize ["max"] (front ++ gap ++ back) = tokenize ["max"] (front ++ back) ∧
      (Session.evaluate 1 (front ++ gap ++ back) {} {} (Session.start (∅ : Registry Unit) ())).1 =
        (Session.evaluate 1 (front ++ back) {} {} (Session.start (∅ : Registry Unit) ())).1 := by
  intro front gap back
  have hfront : front.toList.count '"' % 2 = 0 := by decide
  have hgap : gap.toList.all isBlank := by decide
  obtain ⟨htokens, hevaluate, -⟩ := @spacing_irrelevant front gap back hfront hgap
  exact ⟨⟨hfront, hgap⟩, htokens ["max"], (hevaluate ∅ () 1 {} {}).1⟩

end HostScript
