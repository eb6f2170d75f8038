import ValueFlow.Equations.Solver
import ValueFlow.Flow.Await
import ValueFlow.Flow.Bind
import ValueFlow.Flow.Evaluate
import ValueFlow.Flow.Trace

/-!
# The equations of the analysis

`meaning` gives every operation its meaning, and `equation` is the right-hand
side of every query.

Besides its own rule, a query is answered for the *refinements* of its
configuration: a context that stands for any caller of a function is replaced
by each of the contexts that the function was entered with so far. Calls
record those contexts when they are met, which sharpens answers that were
computed before.
-/

namespace ValueFlow

namespace Rule

/-- The meaning of the operations, nested at most `depth` levels deep. -/
def meaning : Nat → {α : Type} → Operation α → Rule α
  | 0, _, _ => diverge
  | depth + 1, _, .targets callee env => calleeTargets (meaning depth) callee env
  | depth + 1, _, .kinds value => guarded (.kinds value) [] (kindsOf (meaning depth) value)
  | depth + 1, _, .property values name site => propertyValues (meaning depth) values name site
  | depth + 1, _, .elements values position => elementValues (meaning depth) values position
  | depth + 1, _, .awaited pending seen settled => awaited (meaning depth) pending seen settled

/-- The rule of a question. -/
def answer (perform : Meaning) : QueryKind → Config → Rule ConfigSet
  | .evaluate, config => evaluate perform config
  | .applied, config => applied config
  | .traced, config => traced perform config
  | .callers, config => callers perform config
  | .bind, config => bind perform config
  | .entered, _ => return .empty

def refinementsAt (config : Config) (index : Nat) (context : Context) (outer : List Context) :
    Rule (List Config) := do
  match context, Env.ofList? outer with
  | ⟨[], .question function⟩, some outer =>
    let outer ← known outer
    let entered ← ask .entered (.ofNode function outer)
    (← inOrder entered).filterMapM fun fact => do
      if fact.env.head = context then return none
      match config.env.replace? index fact.env.head with
      | some env => return some { config with env := ← known env }
      | none => return none
  | _, _ => return []

def refinementsFrom (config : Config) : Nat → List Context → Rule (List Config)
  | _, [] => return []
  | index, context :: outer => do
    let found ← refinementsAt config index context outer
    return found ++ (← refinementsFrom config (index + 1) outer)

/-- The configurations with one context replaced by one that its function was
entered with. -/
def refinements (config : Config) : Rule (List Config) :=
  refinementsFrom config 0 config.env.toList

/-- The whole right-hand side of a query, where operations nest at most `depth` levels
deep. -/
def solve (depth : Nat) (query : Query) : Rule ConfigSet := do
  let own ← answer (meaning depth) query.kind query.config
  if query.kind = .entered then return own
  let refined ← unionOf (← refinements query.config) (ask query.kind)
  return own ∪ refined

end Rule

/-- How deep operations may nest. Values that contain themselves are guarded, so the depth
of an answer follows the number of values, which grows with the program. -/
@[irreducible] def World.depthLimit (w : World) : Nat :=
  Solver.ample * (w.program.arena.size + 1)

theorem World.ample_le_depthLimit (w : World) : Solver.ample ≤ w.depthLimit := by
  unfold depthLimit
  exact Nat.le_mul_of_pos_right _ (Nat.succ_pos _)

/-- Every operation has a meaning. -/
theorem World.exists_depthLimit (w : World) : ∃ depth, w.depthLimit = depth + 1 :=
  Nat.exists_eq_add_one.mpr (Nat.lt_of_lt_of_le (by decide) w.ample_le_depthLimit)

/-- The right-hand side of a query in a world. -/
def World.equation (w : World) (query : Query) :
    Rhs Query ConfigSet AnalysisError Diagnostic Env ConfigSet :=
  Rule.solve w.depthLimit query ⟨w, []⟩

end ValueFlow
