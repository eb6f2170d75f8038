import ValueFlow.Ast.Arena
import ValueFlow.Env
import ValueFlow.PowerSet

/-!
# Configurations and queries

A *configuration* is a point of a program reached under an environment. Values
are configurations too: a value is represented by the construct that creates
it, under the environment it was created in. A *query* asks one of six
questions about a configuration, and its answer is a set of configurations.
-/

namespace ValueFlow

/-- A point that a value can come from or flow to. -/
inductive Cursor
  | node (n : NodeId)
  /-- The arguments of a call from a position on, as the array that a rest
  parameter is bound to. -/
  | arguments (call : NodeId) (position : Nat)
  /-- An element of the arrays that an expression evaluates to; at any
  position if none is given. -/
  | pick (expression : NodeId) (position : Option Nat)
  /-- Anything outside of the program. -/
  | external
  deriving DecidableEq, Repr

namespace Cursor

def node? : Cursor → Option NodeId
  | node n => some n
  | _ => none

/-- The numbers that order cursors, compared from the first one on. An unknown
position comes before the known ones. -/
def key : Cursor → Nat × Nat × Nat
  | node n => (0, n, 0)
  | arguments call position => (1, call, position)
  | pick expression none => (2, expression, 0)
  | pick expression (some position) => (2, expression, position + 1)
  | external => (3, 0, 0)

end Cursor

structure Config where
  cursor : Cursor
  env : Env
  deriving DecidableEq, Repr

namespace Config

/-- A node under an environment. -/
def ofNode (n : NodeId) (env : Env) : Config := ⟨.node n, env⟩

/-- What stands for all values from outside of the program. -/
def external : Config := ⟨.external, .root⟩

def node? (c : Config) : Option NodeId := c.cursor.node?

def isExternal (c : Config) : Bool := c.cursor = .external

end Config

instance : Fingerprint Cursor where
  fingerprint
    | .node n => 4 * n
    | .arguments call position => Fingerprint.mix (4 * call + 1) position
    | .pick expression position => Fingerprint.mix (4 * expression + 2) (position.getD 0)
    | .external => 3

instance : Fingerprint Config where
  fingerprint c := Fingerprint.mix (fingerprint c.cursor) (fingerprint c.env)

abbrev ConfigSet := PowerSet Config

namespace ConfigSet

def ofNode (n : NodeId) (env : Env) : ConfigSet := .singleton (.ofNode n env)

def external : ConfigSet := .singleton .external

end ConfigSet

/-- The questions of the analysis. -/
inductive QueryKind
  | evaluate
  | applied
  /-- The expressions that a value flows to. -/
  | traced
  /-- The calls that enter the body of a function under a context. -/
  | callers
  /-- Where the values of a variable come from. -/
  | bind
  /-- The environments that a function was entered with. The answer only grows
  by facts from other queries. -/
  | entered
  deriving DecidableEq, Repr

structure Query where
  kind : QueryKind
  config : Config
  deriving DecidableEq, Repr

instance : Fingerprint QueryKind where
  fingerprint
    | .evaluate => 0
    | .applied => 1
    | .traced => 2
    | .callers => 3
    | .bind => 4
    | .entered => 5

instance : Fingerprint Query where
  fingerprint q := Fingerprint.mix (fingerprint q.config) (fingerprint q.kind)

end ValueFlow
