import ValueFlow.Flow.Rule

/-!
# Places

The environment of a program point has one context for each function around
the point and one for the module. Going from one point to another that is
nested in it, or that it is nested in, the environment is fitted: contexts of
functions left behind are dropped, and the functions entered on the way can
have been called from anywhere.
-/

namespace ValueFlow

namespace Arena

variable (a : Arena)

def functionsFrom : Nat → NodeId → List NodeId
  | 0, _ => []
  | fuel + 1, n =>
    match (a.node n).function with
    | some f => f :: functionsFrom fuel f
    | none => []

/-- The functions strictly around a node, innermost first. -/
def functionsAround (n : NodeId) : List NodeId := a.functionsFrom (a.depth n) n

/-- The functions around what a node encloses: a function counts for its own
body. -/
def functionsWithin (n : NodeId) : List NodeId :=
  if a.isFunction n then n :: a.functionsAround n else a.functionsAround n

end Arena

/-- Fits an environment to a point with the given functions around it. -/
def Env.fit (functions : List NodeId) (env : Env) : Env :=
  let size := functions.length + 1
  if size ≤ env.depth then env.dropInner (env.depth - size)
  else env.extend ((functions.take (size - env.depth)).map .question)

/-- The environment of a node when nothing is known about calls. -/
def Arena.openEnv (a : Arena) (n : NodeId) : Env := Env.root.fit (a.functionsAround n)

namespace Rule

/-- The environment of a node, seen from a point around it or inside of it. -/
def envAt (n : NodeId) (env : Env) : Rule Env := do
  known (env.fit ((← arena).functionsAround n))

/-- The environment of the names that a scope owns. -/
def scopeEnv (scope : NodeId) (env : Env) : Rule Env := do
  known (env.fit ((← arena).functionsWithin scope))

/-- The environment of a node when nothing is known about calls. -/
def topLevel (n : NodeId) : Rule Env := do
  known ((← arena).openEnv n)

def enter (function : Config) (call : NodeId) (env : Env) : Rule Env := do
  known (function.env.cons (.push call env.head (← world).bound))

/-- Whether the parameters of a function can be anything. -/
def isTarget (function : NodeId) : Rule Bool := do
  return (← world).targets.contains function

end Rule

end ValueFlow
