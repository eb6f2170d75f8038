import ValueFlow.Context.Arena
import ValueFlow.Env

/-!
# Registries of contexts and environments

An environment is a non-empty list of contexts, the innermost first. Environments are
numbered as contexts are, in the order they are first made, and hold the numbers of
their contexts. `Action` lists what can be made of the contexts and environments that
are there, and `Registry.run?` makes one after the other.
-/

namespace ValueFlow

/-- Environments by number. -/
abbrev EnvArena := Numbering (List Nat)

namespace EnvArena

variable (e : EnvArena)

/-- There is no environment without contexts. -/
def intern? (ids : List Nat) : Option (Nat × EnvArena) :=
  if ids = [] then none else some (e.number ids)

def cons? (head env : Nat) : Option (Nat × EnvArena) := do e.intern? (head :: (← e.get? env))

/-- Adds contexts inside. -/
def extend? (inner : List Nat) (env : Nat) : Option (Nat × EnvArena) := do
  let ids ← e.get? env
  if inner = [] then return (env, e) else e.intern? (inner ++ ids)

/-- Drops the `n` innermost contexts, and keeps at least one. -/
def dropInner? (env n : Nat) : Option (Nat × EnvArena) := do
  let ids ← e.get? env
  if n = 0 then return (env, e) else e.intern? (ids.drop (min n (ids.length - 1)))

def replace? (env index id : Nat) : Option (Nat × EnvArena) := do
  let ids ← e.get? env
  if index < ids.length then e.intern? (ids.set index id) else none

end EnvArena

/-- What can be made of numbered contexts and environments. -/
inductive Action
  | question (function : Nat)
  | frame (site tail : Nat)
  | truncate (context m : Nat)
  | push (site head m : Nat)
  | intern (contexts : List Nat)
  | cons (head env : Nat)
  | extend (inner : List Nat) (env : Nat)
  | dropInner (env n : Nat)
  | replace (env index context : Nat)

/-- The contexts that an action refers to. -/
def Action.contexts : Action → List Nat
  | .question _ | .dropInner _ _ => []
  | .frame _ i | .truncate i _ | .push _ i _ | .cons i _ | .replace _ _ i => [i]
  | .intern ids | .extend ids _ => ids

/-- The contexts and the environments made so far. -/
structure Registry where
  contexts : ContextArena
  envs : EnvArena

namespace Registry

def initial : Registry := ⟨.initial, .empty⟩

instance : Inhabited Registry := ⟨initial⟩

variable (r : Registry)

def withContexts : Nat × ContextArena → Nat × Registry
  | (i, contexts) => (i, { r with contexts })

def withEnvs : Nat × EnvArena → Nat × Registry
  | (i, envs) => (i, { r with envs })

/-- The number of what an action makes, if all that it refers to is there. -/
def act? (action : Action) : Option (Nat × Registry) :=
  if ∀ i ∈ action.contexts, i < r.contexts.size then
    match action with
    | .question function => r.withContexts (r.contexts.question function)
    | .frame site tail => r.withContexts (r.contexts.frame site tail)
    | .truncate i m => r.withContexts (r.contexts.truncate i m)
    | .push site head m => r.withContexts (r.contexts.push site head m)
    | .intern ids => (r.envs.intern? ids).map r.withEnvs
    | .cons head env => (r.envs.cons? head env).map r.withEnvs
    | .extend inner env => (r.envs.extend? inner env).map r.withEnvs
    | .dropInner env n => (r.envs.dropInner? env n).map r.withEnvs
    | .replace env index i => (r.envs.replace? env index i).map r.withEnvs
  else
    none

/-- The registry after one action after the other. -/
def run? (actions : List Action) (r : Registry) : Option Registry :=
  actions.foldlM (fun r action => (r.act? action).map (·.2)) r

/-- The environment that a number stands for. -/
def env? (k : Nat) : Option Env := do
  Env.ofList? ((← r.envs.get? k).map r.contexts.context)

/-- The number of an environment that is given by its call strings. -/
def env (e : Env) : Nat × Registry :=
  let (ids, contexts) := r.contexts.ofContexts e.toList
  let (k, envs) := r.envs.number ids
  (k, ⟨contexts, envs⟩)

end Registry

end ValueFlow
