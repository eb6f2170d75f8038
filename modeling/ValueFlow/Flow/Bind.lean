import ValueFlow.Flow.Element

/-!
# Bindings

Where the values of a variable come from: its initializer or the arguments
of its function, and whatever is assigned to it later. The answers are
configurations to evaluate, not values.

A variable inside a pattern is reached from the whole pattern by *steps*, and
the origins of the whole are taken apart by the same steps. The first step
into an array stays a `pick` and is evaluated only on demand.
-/

namespace ValueFlow

/-- One step from a pattern down towards a variable inside of it. -/
inductive PatternStep
  | property (key : PropKey NodeId)
  | index (position : Nat)
  | rest
  /-- The part has a default. -/
  | default (value : NodeId)
  deriving DecidableEq, Repr

namespace Arena

variable (a : Arena)

/-- Whether the node's parent satisfies a test on its form. -/
def parentIs (n : NodeId) (test : Form NodeId → Bool) : Bool :=
  (a.parent? n).any fun parent => test (a.form parent)

/-- Walks up from a node to the outermost pattern around it and collects the
steps on the way. Parents have greater numbers, so as many steps as there are
nodes are enough. -/
def patternRootFrom : Nat → NodeId → List PatternStep → NodeId × List PatternStep
  | 0, n, steps => (n, steps)
  | fuel + 1, n, steps =>
    match a.parent? n with
    | none => (n, steps)
    | some parent =>
      match a.form parent with
      | .property key value _ =>
        if value = n && a.parentIs parent (· matches .objectPattern _) then
          patternRootFrom fuel parent (.property key :: steps)
        else (n, steps)
      | .objectPattern _ => patternRootFrom fuel parent steps
      | .arrayPattern elements =>
        match a.form n with
        | .rest _ => patternRootFrom fuel parent steps
        | _ =>
          match elements.findIdx? (· = some n) with
          | some position => patternRootFrom fuel parent (.index position :: steps)
          | none => (n, steps)
      | .assignPattern target value =>
        if target = n then patternRootFrom fuel parent (.default value :: steps)
        else (n, steps)
      | .rest _ =>
        if a.parentIs parent Form.isFunction then (parent, steps)
        else patternRootFrom fuel parent (.rest :: steps)
      | _ => (n, steps)

/-- The outermost pattern around a variable, and the steps from it back to the
variable. -/
def patternRoot (n : NodeId) : NodeId × List PatternStep := a.patternRootFrom a.size n []

end Arena

namespace Rule

variable (perform : Meaning)

def missingDeclaration {α : Type} (n : NodeId) : Rule α := do
  let a ← arena
  fail (.missingDeclaration (a.node n).span.line (a.label n))

/-! ## Steps -/

/-- Takes values apart by one step. -/
def applyStep (env : Env) (found : ConfigSet) : PatternStep → Rule ConfigSet
  | .property (.named key) => do perform (.property found (← textOf key) none)
  | .property (.computed key) => do
    match ← formOf key with
    | .string text | .number text => do perform (.property found (← textOf text) none)
    | _ =>
      unsupported key "Computed destructuring keys are not modeled."
      return .empty
  | .index position => perform (.elements found (some position))
  | .rest => return found
  | .default value => do return found ∪ (← values value (← envAt value env))

def pickOrigins (origins : ConfigSet) (position : Nat) : Rule ConfigSet :=
  unionOver origins fun origin => do
    match origin.cursor with
    | .node expression => return .singleton ⟨.pick expression (some position), origin.env⟩
    | _ => perform (.elements (← ask .evaluate origin) (some position))

/-- Takes the origins of a pattern apart by the steps to a variable. -/
def followSteps (origins : ConfigSet) (env : Env) : List PatternStep → Rule ConfigSet
  | [] => return origins
  | first :: rest => do
    let start ← match first with
      | .index position => pickOrigins perform origins position
      | step => do applyStep perform env (← evaluateAll origins) step
    rest.foldlM (fun found step => do applyStep perform env (← evaluateAll found) step) start

/-! ## Origins of bindings -/

/-- Any element of the arrays that an expression evaluates to. -/
def anyElement (iterated : NodeId) (env : Env) : Rule ConfigSet := do
  return .singleton ⟨.pick iterated none, ← envAt iterated env⟩

/-- The values that a declarator without initializer takes in the head of a
loop. -/
def loopOrigins (declarator : NodeId) (env : Env) : Rule ConfigSet := do
  let a ← arena
  match (a.parent? declarator).bind fun head => (a.parent? head).map fun loop => (head, loop) with
  | some (head, loop) =>
    match a.form loop with
    | .forEach overKeys loopHead iterated _ =>
      if loopHead ≠ head then return .empty
      if overKeys then return .external
      anyElement iterated env
    | _ => return .empty
  | none => return .empty

def argumentOriginsFrom (env : Env) (position : Nat) :
    Nat → Bool → List NodeId → Rule ConfigSet
  | _, _, [] => return .empty
  | offset, afterSpread, argument :: rest => do
    match ← formOf argument with
    | .spread inner =>
      let others ← argumentOriginsFrom env position (offset + 1) true rest
      return others.insert ⟨.pick inner none, env⟩
    | _ =>
      if afterSpread then
        return (← argumentOriginsFrom env position (offset + 1) true rest).insert
          (.ofNode argument env)
      else if offset = position then return .ofNode argument env
      else argumentOriginsFrom env position (offset + 1) false rest

def argumentOrigins (call : NodeId) (position : Nat) (env : Env) : Rule ConfigSet := do
  argumentOriginsFrom env position 0 false (← argumentsOf call)

def builtinBinding (site : Site) (callback param : Nat) : Rule ConfigSet := do
  match (← formOf site.node).callParts? with
  | none => return .external
  | some (callee, _) =>
    unionOf (← perform (.targets callee site.env)) fun
      | .builtin id => do
        match (← entry id).binder with
        | some binder => binderSummary perform site callback param binder
        | none => return .external
      | .external => return .external
      | .function _ => return .empty

def paramOrigins (function : NodeId) (position : Nat) (isRest : Bool) (env : Env) :
    Rule ConfigSet := do
  if ← isTarget function then return .external
  let bodyEnv ← scopeEnv function env
  let callers ← ask .callers (.ofNode function bodyEnv)
  unionOver callers fun caller => do
    match caller.cursor with
    | .node call =>
      if isRest then return .singleton ⟨.arguments call position, caller.env⟩
      argumentOrigins call position caller.env
    | .arguments call callback => builtinBinding perform ⟨call, caller.env⟩ callback position
    | _ => return .external

/-- What is thrown inside a node, under an environment. -/
def thrownIn (a : Arena) (n : NodeId) (env : Env) : List Config :=
  (a.localDescendants n).filterMap fun d =>
    match a.form d with
    | .throwStmt value => some (.ofNode value env)
    | _ => none

def thrownByCall (call callee : NodeId) (env : Env) : Rule ConfigSet := do
  let a ← arena
  unionOf (← perform (.targets callee env)) fun
    | .function function => do
      match function.node?.map a.form with
      | some (.function _ _ body _) =>
        let bodyEnv ← enter function call env
        return .ofList (thrownIn a body bodyEnv)
      | _ => return .empty
    | _ => return .empty

/-- The values that a `catch` parameter can have: what is thrown in the `try`
block or by the functions it calls directly, and anything thrown by code
outside of the program. -/
def catchOrigins (clause : NodeId) (env : Env) : Rule ConfigSet := do
  let a ← arena
  match (a.parent? clause).map a.form with
  | some (.tryStmt block _ _) =>
    let thrown ← unionOf (a.localDescendants block) fun n => do
      match a.form n with
      | .throwStmt value => return .ofNode value env
      | .call callee _ _ => thrownByCall perform n callee env
      | _ => return .empty
    return thrown ∪ .external
  | _ => return .external

/-- Where an imported variable comes from. -/
def importOrigins (binding : NodeId) : Rule ConfigSet := do
  let scopes ← scopes
  match scopes.symbolAt binding with
  | none => missingDeclaration binding
  | some id =>
    match scopes.importTarget id with
    | .decl target =>
      let exported := (scopes.decl target).binding
      ask .bind (.ofNode exported (← topLevel exported))
    | .expression value => return .ofNode value (← topLevel value)
    | .module m => return .ofNode ((← arena).modules.getD m default).root .root
    | .external => return .external

/-- The origins of the whole pattern that a binding is in. -/
def rootOrigins (binding root parent : NodeId) (env : Env) : Rule ConfigSet := do
  match ← formOf parent with
  | .declarator target init =>
    if target ≠ root then missingDeclaration binding
    else
      match init with
      | some init => return .ofNode init (← envAt init env)
      | none => loopOrigins parent env
  | .function name params _ _ =>
    if name = some root then return .ofNode parent (← envAt parent env)
    match params.findIdx? (· = root) with
    | some position =>
      let isRest := (← formOf root) matches .rest _
      paramOrigins perform parent position isRest env
    | none => missingDeclaration binding
  | .catchClause param _ =>
    if param = some root then catchOrigins perform parent env else missingDeclaration binding
  | .importSpecifier _ name =>
    if name = root then importOrigins binding else missingDeclaration binding
  | _ => missingDeclaration binding

def bindingOrigins (binding : NodeId) (env : Env) : Rule ConfigSet := do
  let a ← arena
  let (root, steps) := a.patternRoot binding
  match a.parent? root with
  | none => missingDeclaration binding
  | some parent => do followSteps perform (← rootOrigins perform binding root parent env) env steps

/-! ## Origins by assignment -/

/-- What is stored in a variable through one of its references, if that is the
target of an assignment. -/
def mutationOrigins (reference : NodeId) (env : Env) : Rule ConfigSet := do
  let a ← arena
  let (root, steps) := a.patternRoot reference
  let follow (origins : ConfigSet) : Rule ConfigSet := followSteps perform origins env steps
  match (a.parent? root).map fun parent => (parent, a.form parent) with
  | some (parent, .assign op target value) =>
    if target ≠ root then return .empty
    match op with
    | .plain | .logical _ => follow (.ofNode value env)
    | .arithmetic _ => follow (if steps.isEmpty then .ofNode parent env else .empty)
  | some (parent, .update _ _ operand) =>
    if operand = root && steps.isEmpty then return .ofNode parent env else return .empty
  | some (_, .forEach overKeys head iterated _) =>
    if head ≠ root then return .empty
    if overKeys then follow .external
    else do follow (← anyElement iterated env)
  | _ => return .empty

/-- Where the values of a variable come from. -/
def bind (config : Config) : Rule ConfigSet := do
  match config.node? with
  | none => return .empty
  | some n =>
    let scopes ← scopes
    match scopes.symbolAt n with
    | none => missingDeclaration n
    | some id =>
      let decl := scopes.decl id
      let declEnv ← scopeEnv decl.scope config.env
      let start ← bindingOrigins perform decl.binding declEnv
      let stored ← unionOf (scopes.referencesOf id) fun reference => do
        mutationOrigins perform reference (← envAt reference declEnv)
      return start ∪ stored

end Rule

end ValueFlow
