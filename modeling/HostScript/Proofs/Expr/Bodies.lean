import HostScript.Proofs.Expr.Nodes

/-!
# Bodies of functions

A body is code that runs later, when its function is called. `Expr.mapBodies` rewrites the bodies of the
functions that an expression defines and leaves the expression otherwise as it is. Bare blocks in a body
or at the top level can be dissolved in this way: `Expr.flattenStatements` puts their statements in their
place, in the bodies of all functions as well. Blocks elsewhere, such as those in the body of a loop, stay.
The outcome is flat, and flat code stays as it is.
-/
namespace HostScript.Expr

mutual

/-- Rewrites the bodies of the functions that an expression defines outside of other functions. -/
def mapBodies (f : List Expr → List Expr) : Expr → Expr
  | .literal value => .literal value
  | .query name => .query name
  | .var name => .var name
  | .binary op left right => .binary op (left.mapBodies f) (right.mapBodies f)
  | .ternary condition yes no => .ternary (condition.mapBodies f) (yes.mapBodies f) (no.mapBodies f)
  | .call name arguments => .call name (mapBodiesAll f arguments)
  | .define name body => .define name (f body)
  | .forLoop init condition step body =>
    .forLoop (init.mapBodies f) (condition.mapBodies f) (step.mapBodies f) (mapBodiesAll f body)
  | .whileLoop condition body => .whileLoop (condition.mapBodies f) (mapBodiesAll f body)
  | .block body => .block (mapBodiesAll f body)
  | .letBinding name value => .letBinding name (value.mapBodies f)
  | .assign name value => .assign name (value.mapBodies f)
  | .compound name op value => .compound name op (value.mapBodies f)
  | .returns value => .returns (value.mapBodies f)
  | .namespaceName name => .namespaceName name
  | .usingName name => .usingName name
  | .importName name type => .importName name type
  | .access target member => .access (target.mapBodies f) member
  | .write target member value => .write (target.mapBodies f) member (value.mapBodies f)

def mapBodiesAll (f : List Expr → List Expr) : List Expr → List Expr
  | [] => []
  | e :: es => e.mapBodies f :: mapBodiesAll f es

end

theorem mapBodiesAll_eq_map (f : List Expr → List Expr) (es : List Expr) :
    mapBodiesAll f es = es.map (mapBodies f) := by
  induction es with
  | nil => rfl
  | cons e es ih => rw [mapBodiesAll, ih, List.map_cons]

/-- Rewriting bodies to themselves changes nothing. -/
theorem mapBodies_id (e : Expr) : e.mapBodies id = e := by
  induction e using Expr.induction with
  | step e ih =>
    have list (es : List Expr) (h : ∀ e ∈ es, e.mapBodies id = e) : mapBodiesAll id es = es := by
      rw [mapBodiesAll_eq_map, List.map_congr_left h, List.map_id']
    cases e <;> simp_all [mapBodies, parts]

theorem mapBodiesAll_id (es : List Expr) : mapBodiesAll id es = es := by
  rw [mapBodiesAll_eq_map, List.map_congr_left fun e _ => mapBodies_id e, List.map_id']

/-! ## Dissolving blocks -/

mutual

/-- An expression with the blocks dissolved that stand in the bodies of its functions. -/
def flatten : Expr → Expr
  | .literal value => .literal value
  | .query name => .query name
  | .var name => .var name
  | .binary op left right => .binary op left.flatten right.flatten
  | .ternary condition yes no => .ternary condition.flatten yes.flatten no.flatten
  | .call name arguments => .call name (flattenEach arguments)
  | .define name body => .define name (flattenStatements body)
  | .forLoop init condition step body =>
    .forLoop init.flatten condition.flatten step.flatten (flattenEach body)
  | .whileLoop condition body => .whileLoop condition.flatten (flattenEach body)
  | .block body => .block (flattenEach body)
  | .letBinding name value => .letBinding name value.flatten
  | .assign name value => .assign name value.flatten
  | .compound name op value => .compound name op value.flatten
  | .returns value => .returns value.flatten
  | .namespaceName name => .namespaceName name
  | .usingName name => .usingName name
  | .importName name type => .importName name type
  | .access target member => .access target.flatten member
  | .write target member value => .write target.flatten member value.flatten

/-- The statements of a script or of a body, where those of a block take its place. -/
def flattenStatements : List Expr → List Expr
  | [] => []
  | .block body :: es => flattenStatements body ++ flattenStatements es
  | e :: es => e.flatten :: flattenStatements es

/-- The expressions of a list in which a block stays. -/
def flattenEach : List Expr → List Expr
  | [] => []
  | e :: es => e.flatten :: flattenEach es

end

example :
    flattenStatements [.define "f" [.block [.var "a"]], .block [.block [.var "b"], .var "c"],
        .whileLoop (.var "d") [.block [.var "e"]]] =
      [.define "f" [.var "a"], .var "b", .var "c", .whileLoop (.var "d") [.block [.var "e"]]] := rfl

theorem flattenEach_eq_map (es : List Expr) : flattenEach es = es.map flatten := by
  induction es with
  | nil => rfl
  | cons e es ih => rw [flattenEach, ih, List.map_cons]

/-- Dissolving blocks is a rewriting of bodies. -/
theorem flatten_eq_mapBodies (e : Expr) : e.flatten = e.mapBodies flattenStatements := by
  induction e using Expr.induction with
  | step e ih =>
    cases e <;> simp_all [flatten, mapBodies, flattenEach_eq_map, mapBodiesAll_eq_map, parts]

def isBlock : Expr → Bool
  | .block _ => true
  | _ => false

theorem isBlock_flatten (e : Expr) : e.flatten.isBlock = e.isBlock := by
  cases e <;> rfl

theorem flattenStatements_singleton {e : Expr} (h : e.isBlock = false) :
    flattenStatements [e] = [e.flatten] := by
  cases e with
  | block body => cases h
  | _ => rfl

theorem flattenStatements_cons (e : Expr) (es : List Expr) :
    flattenStatements (e :: es) = flattenStatements [e] ++ flattenStatements es := by
  cases e <;> simp [flattenStatements]

/-- Only in the body of a function does dissolving change more than the parts one by one. -/
theorem parts_flatten {e : Expr} (h : ∀ name body, e ≠ .define name body) :
    e.flatten.parts = e.parts.map flatten := by
  cases e with
  | define name body => exact absurd rfl (h name body)
  | _ => simp [flatten, parts, flattenEach_eq_map]

/-! ## Code without blocks to dissolve -/

/-- Whether none of the constructs is a function with a block among the statements of its body. -/
def BlockFree (ns : List Expr) : Prop :=
  ∀ name body, .define name body ∈ ns → ∀ e ∈ body, e.isBlock = false

/-- Whether there is no block among statements, nor among those of the body of a function in them. -/
structure Flat (es : List Expr) : Prop where
  statements : ∀ e ∈ es, e.isBlock = false
  bodies : BlockFree (nodesAll es)

theorem BlockFree.append {ns ms : List Expr} (hns : BlockFree ns) (hms : BlockFree ms) :
    BlockFree (ns ++ ms) :=
  fun name body hmem => (List.mem_append.mp hmem).elim (hns name body) (hms name body)

theorem BlockFree.mono {ns ms : List Expr} (hns : BlockFree ns) (h : ∀ n ∈ ms, n ∈ ns) : BlockFree ms :=
  fun name body hmem => hns name body (h _ hmem)

theorem Flat.append {es fs : List Expr} (hes : Flat es) (hfs : Flat fs) : Flat (es ++ fs) where
  statements e he := (List.mem_append.mp he).elim (hes.statements e) (hfs.statements e)
  bodies := by
    rw [nodesAll_append]
    exact hes.bodies.append hfs.bodies

theorem flat_flattenStatements_of (es : List Expr) (h : ∀ e ∈ es, Flat (flattenStatements [e])) :
    Flat (flattenStatements es) := by
  induction es with
  | nil => exact ⟨nofun, nofun⟩
  | cons e es ih =>
    obtain ⟨he, hes⟩ := List.forall_mem_cons.mp h
    rw [flattenStatements_cons]
    exact he.append (ih hes)

theorem flat_flatten (e : Expr) : BlockFree e.flatten.nodes ∧ Flat (flattenStatements [e]) := by
  induction e using Expr.induction with
  | step e ih =>
    have hnodes : BlockFree e.flatten.nodes := by
      by_cases hdefine : ∃ name body, e = .define name body
      · obtain ⟨name, body, rfl⟩ := hdefine
        have hbody := flat_flattenStatements_of body fun p hp => (ih p hp).2
        rintro name' body' hmem
        rcases List.mem_cons.mp hmem with hself | hinner
        · cases hself
          exact hbody.statements
        · exact hbody.bodies name' body' hinner
      · rw [nodes_eq, parts_flatten fun name body he => hdefine ⟨name, body, he⟩]
        intro name body hmem
        rcases List.mem_cons.mp hmem with hself | hpart
        · refine absurd ?_ hdefine
          cases e with
          | define name body => exact ⟨name, body, rfl⟩
          | _ => cases hself
        · obtain ⟨q, hq, hmem⟩ := mem_nodesAll.mp hpart
          obtain ⟨p, hp, rfl⟩ := List.mem_map.mp hq
          exact (ih p hp).1 name body hmem
    refine ⟨hnodes, ?_⟩
    cases hblock : e.isBlock with
    | true =>
      cases e with
      | block body =>
        rw [flattenStatements, flattenStatements, List.append_nil]
        exact flat_flattenStatements_of body fun p hp => (ih p hp).2
      | _ => cases hblock
    | false =>
      rw [flattenStatements_singleton hblock]
      refine ⟨fun n hn => ?_, by rw [nodesAll_cons, nodesAll_nil, List.append_nil]; exact hnodes⟩
      rw [List.mem_singleton.mp hn, isBlock_flatten, hblock]

/-- What remains when blocks are dissolved has no block to dissolve. -/
theorem flat_flattenStatements (es : List Expr) : Flat (flattenStatements es) :=
  flat_flattenStatements_of es fun e _ => (flat_flatten e).2

theorem flattenStatements_of_flat_of {es : List Expr} (hes : Flat es)
    (h : ∀ e ∈ es, e.flatten = e) : flattenStatements es = es := by
  induction es with
  | nil => rfl
  | cons e es ih =>
    obtain ⟨he, hes'⟩ := List.forall_mem_cons.mp h
    have htail : Flat es :=
      ⟨fun n hn => hes.statements n (List.mem_cons_of_mem e hn),
        hes.bodies.mono fun n hn => List.mem_append_right _ hn⟩
    rw [flattenStatements_cons, flattenStatements_singleton (hes.statements e List.mem_cons_self), he,
      ih htail hes']
    rfl

theorem flatten_of_blockFree {e : Expr} (h : BlockFree e.nodes) : e.flatten = e := by
  induction e using Expr.induction with
  | step e ih =>
    have hpart (p : Expr) (hp : p ∈ e.parts) : p.flatten = p :=
      ih p hp (h.mono fun n hn => mem_nodes_of_part hp hn)
    have each (es : List Expr) (h : ∀ e ∈ es, e.flatten = e) : flattenEach es = es := by
      rw [flattenEach_eq_map, List.map_congr_left h, List.map_id']
    cases e with
    | literal | query | var | namespaceName | usingName | importName => rfl
    | letBinding name value | assign name value | compound name op value | returns value
    | access value member => rw [flatten, hpart value (by simp [parts])]
    | binary op left right | write left member right =>
      rw [flatten, hpart left (by simp [parts]), hpart right (by simp [parts])]
    | ternary condition yes no =>
      rw [flatten, hpart condition (by simp [parts]), hpart yes (by simp [parts]),
        hpart no (by simp [parts])]
    | call name body | block body => rw [flatten, each body hpart]
    | define name body =>
      have hbody : Flat body :=
        ⟨h name body (self_mem_nodes _), h.mono fun _ hn => List.mem_cons_of_mem _ hn⟩
      rw [flatten, flattenStatements_of_flat_of hbody hpart]
    | forLoop init condition step body =>
      rw [flatten, hpart init (by simp [parts]), hpart condition (by simp [parts]),
        hpart step (by simp [parts]), each body fun p hp => hpart p (by simp [parts, hp])]
    | whileLoop condition body =>
      rw [flatten, hpart condition (by simp [parts]),
        each body fun p hp => hpart p (by simp [parts, hp])]

/-- Without blocks to dissolve, code stays as it is. -/
theorem flattenStatements_of_flat {es : List Expr} (h : Flat es) : flattenStatements es = es :=
  flattenStatements_of_flat_of h fun e he =>
    flatten_of_blockFree (h.bodies.mono fun _ hn => mem_nodesAll.mpr ⟨e, he, hn⟩)

theorem flattenStatements_idem (es : List Expr) :
    flattenStatements (flattenStatements es) = flattenStatements es :=
  flattenStatements_of_flat (flat_flattenStatements es)

end HostScript.Expr
