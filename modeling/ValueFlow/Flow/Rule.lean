import ValueFlow.Catalogue
import ValueFlow.Equations.Rhs
import ValueFlow.Flow.Config
import ValueFlow.Flow.Fault
import ValueFlow.Program

/-!
# Rules

A rule is a right-hand side that can look at the program: it reads queries,
pushes facts, reports, and fails, all as requests to a solver. Nothing a rule
does depends on how the solver works.

Sets are visited in a fixed order: by cursor, and under one cursor by
environment, the environment met first in the session first. Whoever makes an
environment has it numbered at once (`Rule.known`).

Some rules ask themselves again through values that contain each other. Such
a rule is *guarded*: while it works on a value, the same question about the
same value gives nothing. Nothing is lost, because the outer question has
read everything that the inner one would read.
-/

namespace ValueFlow

/-- What an analysis is about, and its parameters. -/
structure World where
  program : Program
  catalogue : Catalogue
  /-- How many call sites a context keeps. -/
  bound : Nat
  /-- Functions whose parameters can be anything. -/
  targets : List NodeId

abbrev World.arena (w : World) : Arena := w.program.arena

inductive Visit
  | kinds (value : Config)
  | property (value : Config) (name : String)
  | elements (value : Config) (position : Option Nat)
  deriving DecidableEq, Repr

/-- What a rule knows. -/
structure Setting where
  world : World
  /-- The guarded questions being worked on. -/
  visiting : List Visit

abbrev Rule := ReaderT Setting (Rhs Query ConfigSet AnalysisError Diagnostic Env)

namespace Rule

/-! ## Requests -/

def ask (kind : QueryKind) (config : Config) : Rule ConfigSet := fun _ =>
  .read ⟨kind, config⟩ .done

def tell (kind : QueryKind) (config : Config) (facts : ConfigSet) : Rule Unit := fun _ =>
  .push ⟨kind, config⟩ facts (.done ())

def fail {α : Type} (e : AnalysisError) : Rule α := fun _ => .fail e

/-- No answer: the recursion is deeper than allowed. -/
def diverge {α : Type} : Rule α := fun _ => .diverge

/-- The number of an environment in order of first appearance. -/
def numberOf (env : Env) : Rule Nat := fun _ => .number env .done

/-- Has a new environment numbered. -/
def known (env : Env) : Rule Env := do
  let _ ← numberOf env
  return env

def world : Rule World := fun s => .done s.world

def arena : Rule Arena := fun s => .done s.world.program.arena

def scopes : Rule Scopes := fun s => .done s.world.program.scopes

def catalogue : Rule Catalogue := fun s => .done s.world.catalogue

def textOf (s : Symbol) : Rule String := fun setting => .done (setting.world.program.text s)

def formOf (n : NodeId) : Rule (Form NodeId) := fun s => .done (s.world.program.arena.form n)

/-- Reports that there is no rule for a construct. -/
def unsupported (n : NodeId) (message : String) : Rule Unit := do
  let a ← arena
  fun _ => .note ⟨(a.node n).span.line, a.label n, message⟩ (.done ())

/-- Works on a guarded question, unless it is being worked on. -/
def guarded {α : Type} (visit : Visit) (inner : α) (rule : Rule α) : Rule α := fun s =>
  if visit ∈ s.visiting then .done inner
  else rule { s with visiting := visit :: s.visiting }

/-! ## Sets -/

/-- Whether the first key comes no later than the second. -/
def keyLe (a b : (Nat × Nat × Nat) × Nat) : Bool :=
  let ((a1, a2, a3), a4) := a
  let ((b1, b2, b3), b4) := b
  if a1 ≠ b1 then a1 < b1
  else if a2 ≠ b2 then a2 < b2
  else if a3 ≠ b3 then a3 < b3
  else a4 ≤ b4

def inOrder (set : ConfigSet) : Rule (List Config) := do
  let numbered ← set.elems.mapM fun c => do return ((c.cursor.key, ← numberOf c.env), c)
  return (sortBy (fun a b => keyLe a.1 b.1) numbered).map (·.2)

def unionOf {α : Type} (items : List α) (f : α → Rule ConfigSet) : Rule ConfigSet :=
  items.foldlM (fun set item => do return set ∪ (← f item)) .empty

def unionOver (set : ConfigSet) (f : Config → Rule ConfigSet) : Rule ConfigSet := do
  unionOf (← inOrder set) f

/-- The values of a node under an environment. -/
def values (n : NodeId) (env : Env) : Rule ConfigSet := ask .evaluate (.ofNode n env)

def evaluateAll (set : ConfigSet) : Rule ConfigSet := unionOver set (ask .evaluate)

end Rule

end ValueFlow
