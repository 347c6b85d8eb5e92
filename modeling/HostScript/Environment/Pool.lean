import HostScript.Environment.Basic

/-!
# Environments that share functions

Environments of one program have variables and predicates of their own and may have one table of
functions in common. A pool keeps them by name, and each refers to its table by a number.
-/
namespace HostScript

/-- An environment of a pool, with the number of its table. -/
structure PoolEntry where
  vars : Variables := ∅
  predicates : List String := []
  table : Nat := 0

structure Pool where
  entries : Std.ExtTreeMap String PoolEntry := ∅
  tables : Std.ExtTreeMap Nat FunctionTable := ∅
  nextTable : Nat := 0

namespace Pool

/-- Adds an environment with a table of its own, replacing one of that name. -/
def create (pool : Pool) (name : String) : Pool :=
  { entries := pool.entries.insert name { table := pool.nextTable }
    tables := pool.tables.insert pool.nextTable ∅
    nextTable := pool.nextTable + 1 }

def start (name : String) : Pool := create {} name

def entry (pool : Pool) (name : String) : PoolEntry := pool.entries.getD name {}

/-- An environment of the pool, together with the functions it shares. -/
def environment (pool : Pool) (name : String) : Environment :=
  let e := pool.entry name
  { vars := e.vars
    predicates := e.predicates
    functions := pool.tables.getD e.table ∅ }

/-- Changes an environment. The change of its functions is seen by all that share them. -/
def modify (pool : Pool) (name : String) (f : Environment → Environment) : Pool :=
  let e := pool.entry name
  let env := f (pool.environment name)
  { pool with
    entries := pool.entries.insert name
      { e with vars := env.vars, predicates := env.predicates }
    tables := pool.tables.insert e.table env.functions }

/-- Copies an environment. The copy shares the functions. -/
def clone (pool : Pool) (name target : String) : Pool :=
  { pool with entries := pool.entries.insert target (pool.entry name) }

/-- A fresh environment that shares the functions of another one. -/
def share (pool : Pool) (name target : String) : Pool :=
  { pool with entries := pool.entries.insert target { table := (pool.entry name).table } }

/-- Whether two environments share their functions. -/
def shares (pool : Pool) (name other : String) : Bool :=
  (pool.entry name).table == (pool.entry other).table

end Pool

end HostScript
