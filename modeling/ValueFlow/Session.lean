import ValueFlow.Flow.System

/-!
# Sessions

One analysis of one program. A session keeps the solver, so everything found
out for one query serves the next ones, and facts told from outside reach all
that read them.

* `Session.start` opens a session on a world.
* `Session.solve` answers a query, `Session.tell` adds facts.
* `Session.takeDiagnostics` gives the reports since the last time.
* `Session.labels` and `Session.describe` write answers.
-/

namespace ValueFlow

abbrev FlowSolver := Solver Query ConfigSet AnalysisError Diagnostic Env

structure Session where
  world : World
  solver : FlowSolver

/-- How much work a session has done. -/
structure Stats where
  evaluations : Nat
  updates : Nat
  queries : Nat
  deriving DecidableEq, Repr

namespace Session

/-- A session that has answered nothing yet. The module level is the first
environment it knows. -/
def start (world : World) : Session :=
  ⟨world, { (Solver.empty : FlowSolver) with things := .ofList [Env.root] }⟩

variable (s : Session)

def known (env : Env) : Session := { s with solver := (s.solver.numberThing env).2 }

/-- A node under an environment where nothing is known about calls. -/
def topLevel (n : NodeId) : Config × Session :=
  let env := s.world.program.arena.openEnv n
  (.ofNode n env, s.known env)

/-- Enters a call from a context, within the bound of the session. -/
def push (site : NodeId) (head : Context) : Context := .push site head s.world.bound

def solve (query : Query) : Option (Except AnalysisError ConfigSet × Session) := do
  let (result, solver) ← s.solver.valueOf s.world.equation query
  return (result, { s with solver })

/-- Adds facts to the answer of a query from outside. Says whether that
changed anything. -/
def tell (query : Query) (facts : ConfigSet) : Bool × Session :=
  let (changed, solver) := s.solver.pushFact query facts
  (changed, { s with solver })

/-- The reports of the latest evaluations, which are then forgotten. -/
def takeDiagnostics : List Diagnostic × Session :=
  (s.solver.reports, { s with solver := s.solver.dropReports })

def stats : Stats := ⟨s.solver.evaluations, s.solver.updates, s.solver.queries.size⟩

/-! ## Writing answers -/

/-- A cursor on one line. -/
def cursorLabel : Cursor → String
  | .node n => s.world.program.arena.label n
  | .arguments call position =>
    "args(" ++ s.world.program.arena.label call ++ ")[" ++ toString position ++ "..]"
  | .pick expression (some position) =>
    "elem(" ++ s.world.program.arena.label expression ++ ")[" ++ toString position ++ "]"
  | .pick expression none => "elem(" ++ s.world.program.arena.label expression ++ ")[*]"
  | .external => "<external>"

def label (c : Config) : String := s.cursorLabel c.cursor

def labels (set : ConfigSet) : List String :=
  dropRepeats (sortTexts (set.elems.map s.label))

/-- A context with the places of its call sites. -/
def renderContext (c : Context) : String :=
  let p := s.world.program
  c.render (fun site => (p.arena.location site).render)
    (fun f => ((p.arena.functionName? f).map p.text).getD "<anonymous>")

def renderEnv (env : Env) : String :=
  "<" ++ " | ".intercalate (env.toList.map s.renderContext) ++ ">"

def describe (c : Config) : String := s.label c ++ " " ++ s.renderEnv c.env

end Session

end ValueFlow
