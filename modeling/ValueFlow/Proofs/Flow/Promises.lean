import Mathlib.Data.List.Perm.Subperm
import ValueFlow.Proofs.Catalogue
import ValueFlow.Proofs.Flow.Fixed

/-!
# Awaiting closes over promises

What a promise comes to can be a promise again, also the same one. Awaiting follows all
of them: on a table that stands still, it ends in the values that are reached and that are
no promises, or that come to themselves.
-/

namespace ValueFlow

open Relation

/-- The entry of a builtin. -/
def World.entry (w : World) (id : BuiltinId) : Entry :=
  (w.catalogue.get? id).getD { shape := .global "" }

def World.isAsync (w : World) (function : NodeId) : Bool :=
  (w.program.arena.form function).flags?.any (·.isAsync)

namespace Table

open Rule

variable (t : Table) (st : Setting)

/-! ## The graph of the promises -/

/-- A call of the target makes a promise. -/
def MakesPromise (w : World) : Target → Prop
  | .function function => ∃ n, function.node? = some n ∧ w.isAsync n = true
  | .builtin id => (w.entry id).produces = some .promise
  | .external => False

/-- What the promise comes to that a call of the target makes: what an `async` function
returns, the first argument of `Promise.resolve`, and `Promise.all` itself. -/
def Fulfils (site : Site) : Target → Config → Prop
  | .function function, c => ∃ n, function.node? = some n ∧ st.world.isAsync n = true ∧
    ∃ value ∈ st.world.program.arena.returnedValues n, c ∈ t.answer ⟨.evaluate, .ofNode value
      (function.env.cons (.push site.node site.env.head st.world.bound))⟩
  | .builtin id, c =>
    match (st.world.entry id).resolved with
    | some .firstArgument =>
      ∃ depth set, Comes t.Agrees st (firstArgument (meaning depth) site) set ∧ c ∈ set
    | some .itself => c = .ofNode site.node site.env
    | _ => False
  | .external, _ => False

/-- The value is a call at the site, and the call may invoke the target. -/
def Invokes (value : Config) (site : Site) (target : Target) : Prop :=
  value = .ofNode site.node site.env ∧ ∃ callee arguments optional targets,
    st.world.program.arena.form site.node = .call callee arguments optional ∧
      t.Yields st (.targets callee site.env) targets ∧ target ∈ targets

def IsPromise (value : Config) : Prop :=
  ∃ site target, t.Invokes st value site target ∧ MakesPromise st.world target

/-- The value is a promise, and it can come to `c`. -/
def ResolvesTo (value c : Config) : Prop :=
  ∃ site target, t.Invokes st value site target ∧ t.Fulfils st site target c

/-- Awaiting the value goes no further: it is no promise, or it comes to itself. -/
def Terminal (value : Config) : Prop := ¬ t.IsPromise st value ∨ t.ResolvesTo st value value

/-- All that can be reached: the values themselves, the answers of the table, and what is
at module level or comes from outside. -/
def candidates (w : World) (values : ConfigSet) : List Config :=
  values.elems ++ (t.values ++ w.immediates)

end Table

namespace Rule

open Table

variable {t : Table} {st : Setting} {P : Request → Prop} {least : Nat} {site : Site}
  {n callee : NodeId} {arguments : List NodeId} {optional : Bool} {env : Env} {id : BuiltinId}
  {value : Config} {target : Target} {targets : List Target}

/-! ## Opening a promise -/

variable {reached : List Config} {S : Config → Prop} {depth : Nat} {values : ConfigSet}

/-- A promise that comes to itself and to a number. -/
def promises : Sources := [("m.ts", "const a = Promise.resolve(a || 1);\n")]

end Rule

end ValueFlow
