import ValueFlow.Flow.Place

/-!
# Operations on values

The operations that rules are built from and that need each other: what a
callee invokes, of which kinds a value is, its properties and elements, and
what awaiting it comes to. `Operation` names them, and a rule that needs them
gets their meaning as an argument of type `Meaning`.
-/

namespace ValueFlow

/-- A call or an access under an environment. -/
structure Site where
  node : NodeId
  env : Env
  deriving DecidableEq, Repr

/-- What the expression at a site stands for when it is a value of its own. -/
def Site.value (s : Site) : ConfigSet := .ofNode s.node s.env

inductive Target
  | function (value : Config)
  | builtin (id : BuiltinId)
  | external
  deriving DecidableEq, Repr

/-- The operations, by the type of their results. -/
inductive Operation : Type → Type
  /-- The functions and builtins that a callee may invoke. -/
  | targets (callee : NodeId) (env : Env) : Operation (List Target)
  /-- The kinds of builtin objects that a value may be. -/
  | kinds (value : Config) : Operation (List Kind)
  | property (values : ConfigSet) (name : String) (site : Option Site) : Operation ConfigSet
  | elements (values : ConfigSet) (position : Option Nat) : Operation ConfigSet
  | awaited (pending seen : List Config) (settled : ConfigSet) : Operation ConfigSet

abbrev Meaning := {α : Type} → Operation α → Rule α

namespace Rule

variable (perform : Meaning)

def awaitValues (values : ConfigSet) : Rule ConfigSet := do
  perform (.awaited (← inOrder values) [] .empty)

/-! ## Builtins -/

def entry (id : BuiltinId) : Rule Entry := do
  return ((← catalogue).get? id).getD { shape := .global "" }

/-- The builtin of a shape. More than one is an error at the given node. -/
def lookup (n : NodeId) (shape : Shape) : Rule (Option BuiltinId) := do
  match (← catalogue).lookup shape with
  | [] => return none
  | [id] => return some id
  | ids =>
    let a ← arena
    let candidates ← ids.mapM fun id => do return (← entry id).shape.render
    fail (.ambiguousBuiltin (a.node n).span.line (a.label n) candidates)

def globalName? (n : NodeId) : Rule (Option String) := do
  match ← formOf n with
  | .identifier name =>
    if ((← scopes).symbolAt n).isSome then return none
    let text ← textOf name
    return if (← catalogue).isGlobal text then some text else none
  | _ => return none

/-- The builtin that constructs the value of a `new` expression. -/
def constructor? (n : NodeId) : Rule (Option BuiltinId) := do
  match (← formOf n).callParts? with
  | none => return none
  | some (callee, _) =>
    match ← globalName? callee with
    | some name => lookup n (.constructor name)
    | none => return none

/-! ## Calls -/

def receiver? (call : NodeId) : Rule (Option NodeId) := do
  match (← formOf call).callParts? with
  | none => return none
  | some (callee, _) =>
    match ← formOf callee with
    | .member object _ _ => return some object
    | _ => return none

def argumentsOf (call : NodeId) : Rule (List NodeId) := do
  return match (← formOf call).callParts? with
    | some (_, arguments) => arguments
    | none => []

def argument? (call : NodeId) (position : Nat) : Rule (Option NodeId) := do
  return (← argumentsOf call)[position]?

def isAsync (function : NodeId) : Rule Bool := do
  return (← formOf function).flags?.any (·.isAsync)

/-- Records that a function is entered from a call, and gives the environment
of its body. The caller is the call itself or an argument of it. -/
def enterFrom (function : Config) (caller : Cursor) (call : NodeId) (env : Env) : Rule Env := do
  let bodyEnv ← enter function call env
  if let some n := function.node? then
    tell .callers (.ofNode n bodyEnv) (.singleton ⟨caller, env⟩)
    tell .entered (.ofNode n function.env) (.ofNode n bodyEnv)
  return bodyEnv

def returns (function : NodeId) (bodyEnv : Env) : Rule ConfigSet := do
  unionOf ((← arena).returnedValues function) fun value => values value bodyEnv

/-- What calling a function value results in. A call of an `async` function
is a promise of its own, which awaiting opens. -/
def apply (function : Config) (call : NodeId) (env : Env) : Rule ConfigSet := do
  match function.node? with
  | none => return .external
  | some n =>
    let _ ← enterFrom function (.node call) call env
    if ← isAsync n then return .ofNode call env
    let bodyEnv ← enter function call env
    returns n bodyEnv

def enterCallback (function : Config) (call : NodeId) (position : Nat) (env : Env) : Rule Env :=
  enterFrom function (.arguments call position) call env

def applyCallback (function : Config) (call : NodeId) (position : Nat) (env : Env) :
    Rule ConfigSet := do
  match function.node? with
  | none => return .external
  | some n =>
    let bodyEnv ← enterCallback function call position env
    returns n bodyEnv

end Rule

end ValueFlow
