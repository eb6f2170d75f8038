import ValueFlow.Flow.Element

/-!
# Tracing

Where a value flows to: through variables, arguments and results, and through
properties and elements of the objects and arrays it is stored in. Two more
questions build on it: which calls invoke a function value, and which calls
enter the body of a function under a given context.
-/

namespace ValueFlow

namespace Arena

variable (a : Arena)

/-- The position of a node among the elements of an array literal, if no
spread comes before it. -/
def literalPosition? (n : NodeId) : List (Option NodeId) → Option Nat
  | [] => none
  | element :: rest =>
    if element = some n then some 0
    else if element.any fun e => (a.form e).isSpread then none
    else (literalPosition? n rest).map (· + 1)

/-- The variable of the innermost `catch` clause that handles what is thrown
at a node, within the same function. -/
def catchBinding? (n : NodeId) : Option NodeId :=
  go n (a.ancestors n)
where
  go (current : NodeId) : List NodeId → Option NodeId
    | [] => none
    | parent :: rest =>
      match a.form parent with
      | .function .. => none
      | .tryStmt block (some handler) _ =>
        if block = current then
          match a.form handler with
          | .catchClause (some param) _ => if (a.form param).isBinding then some param else none
          | _ => none
        else go parent rest
      | _ => go parent rest

end Arena

namespace Rule

variable (perform : Meaning)

/-! ## References -/

def importRefs (importer : DeclId) : Rule (List Config) := do
  ((← scopes).referencesOf importer).mapM fun reference => do
    return .ofNode reference (← topLevel reference)

def allImportRefs (importers : List DeclId) : Rule (List Config) := do
  return (← importers.mapM importRefs).flatten

/-- The references of a declaration seen from `env`, with those of the imports
that lead to it. -/
def declarationRefs (id : DeclId) (env : Env) : Rule (List Config) := do
  let scopes ← scopes
  let own ← (scopes.referencesOf id).mapM fun reference => do
    return Config.ofNode reference (← envAt reference env)
  return own ++ (← allImportRefs (scopes.importersOf (.decl id)))

def bindingRefs (binding : NodeId) (env : Env) : Rule (List Config) := do
  match (← scopes).symbolAt binding with
  | some id => declarationRefs id env
  | none => return []

/-- The references of the variable that a pattern is, if it is only a name. -/
def plainRefs (pattern : NodeId) (env : Env) : Rule (List Config) := do
  if (← formOf pattern).isBinding then bindingRefs pattern env else return []

/-! ## One step of flow -/

/-- All that `f` makes of the items, in order. -/
def collect {α : Type} (items : List α) (f : α → Rule (List Config)) : Rule (List Config) := do
  return (← items.mapM f).flatten

def argumentFlows (call position : Nat) (env : Env) : Rule (List Config) := do
  let a ← arena
  let itself ←
    if position = 0 then
      if ← isObjectAssign perform call env then pure [Config.ofNode call env] else pure []
    else pure []
  match a.form call with
  | .call callee _ _ =>
    let params ← collect (← perform (.targets callee env)) fun
      | .function function => do
        match function.node?.map a.form with
        | some (.function _ params _ _) =>
          match params[position]? with
          | some param =>
            if (a.form param).isBinding then bindingRefs param (← enter function call env)
            else return []
          | none => return []
        | _ => return []
      | _ => return []
    return itself ++ params
  | _ => return itself

def returnFlows (function : NodeId) (env : Env) : Rule (List Config) := do
  let bodyEnv ← scopeEnv function env
  let callers ← ask .callers (.ofNode function bodyEnv)
  return (← inOrder callers).filter fun caller => caller.node?.isSome

/-- The variables that an object pattern binds to the property `name`. -/
def patternReads (name : String) (properties : List NodeId) (env : Env) : Rule (List Config) :=
  collect properties fun property => do
    match ← formOf property with
    | .property (.named key) value _ =>
      if (← textOf key) = name then plainRefs value env else return []
    | _ => return []

def propertyReads (name : String) (aliases : ConfigSet) : Rule (List Config) := do
  let a ← arena
  collect (← inOrder aliases) fun ref => do
    match ref.node?.bind fun n => (a.parent? n).map fun parent => (n, parent) with
    | none => return []
    | some (n, parent) =>
      let read : List Config :=
        if (a.assignedValue? parent).isNone then [.ofNode parent ref.env] else []
      match a.form parent with
      | .member object property _ =>
        if object = n && (← textOf property) = name then return read else return []
      | .index object index _ =>
        if object = n && (← isText index name) then return read else return []
      | .declarator target init =>
        if init ≠ some n then return []
        match a.form target with
        | .objectPattern properties => patternReads name properties ref.env
        | _ => return []
      | _ => return []

def storedFlows (object : NodeId) (name : String) (env : Env) : Rule (List Config) := do
  let a ← arena
  collect (← inOrder (← values object env)) fun receiver => do
    match receiver.node?.map a.form with
    | some (.object _) => do propertyReads name (← ask .traced receiver)
    | _ => return []

def elementReads (position : Nat) (aliases : ConfigSet) : Rule (List Config) := do
  let a ← arena
  collect (← inOrder aliases) fun ref => do
    match ref.node?.bind fun n => (a.parent? n).map fun parent => (n, parent) with
    | none => return []
    | some (n, parent) =>
      match a.form parent with
      | .index object index _ =>
        if object = n && (← indexPosition index) = some position
            && (a.assignedValue? parent).isNone then
          return [.ofNode parent ref.env]
        else return []
      | .forEach false head iterated _ =>
        if iterated ≠ n then return []
        match a.form head with
        | .varDecl _ declarators =>
          collect (a.declaredPatterns declarators) fun pattern => plainRefs pattern ref.env
        | _ => return []
      | .declarator target init =>
        if init ≠ some n then return []
        match a.form target with
        | .arrayPattern elements =>
          match elements[position]? with
          | some (some pattern) => plainRefs pattern ref.env
          | _ => return []
        | _ => return []
      | _ => return []

def assignmentFlows (target : NodeId) (env : Env) : Rule (List Config) := do
  match ← formOf target with
  | .identifier _ =>
    let scopes ← scopes
    match scopes.symbolAt target with
    | some id => do declarationRefs id (← scopeEnv (scopes.decl id).scope env)
    | none => return []
  | .member object property _ => do storedFlows object (← textOf property) env
  | .index object index _ =>
    match ← formOf index with
    | .string value => do storedFlows object (← textOf value) env
    | _ => return []
  | _ => return []

def keyName? : PropKey NodeId → Rule (Option String)
  | .named key => some <$> textOf key
  | .computed key => do
    match ← formOf key with
    | .string value => some <$> textOf value
    | _ => return none

def parentFlows (n parent : NodeId) (env : Env) : Rule (List Config) := do
  let a ← arena
  let parentItself : List Config := [.ofNode parent env]
  match a.form parent with
  | .call .. | .new .. =>
    match a.calleeOf? n, a.argumentOf? n with
    | none, some (_, position) => argumentFlows perform parent position env
    | _, _ => return []
  | .returnStmt value =>
    match (a.node n).function with
    | some function => if value = some n then returnFlows function env else return []
    | none => return []
  | .function _ _ body flags =>
    if body = n && flags.expressionBody then
      returnFlows parent (← scopeEnv parent env)
    else return []
  | .declarator target init => if init = some n then plainRefs target env else return []
  | .assign _ target value =>
    if value = n then return parentItself ++ (← assignmentFlows target env) else return []
  | .property key value _ =>
    if value ≠ n then return []
    match (a.parent? parent).map fun object => (object, a.form object) with
    | some (object, .object _) =>
      match ← keyName? key with
      | some name => do propertyReads name (← ask .traced (.ofNode object env))
      | none => return []
    | _ => return []
  | .array elements =>
    match a.literalPosition? n elements with
    | some position => do elementReads position (← ask .traced (.ofNode parent env))
    | none => return []
  | .conditional test _ _ => return if test = n then [] else parentItself
  | .logical .. | .await _ => return parentItself
  | .throwStmt value =>
    match a.catchBinding? parent with
    | some binding => if value = n then bindingRefs binding env else return []
    | none => return []
  | .exportDefault value =>
    if value = n then allImportRefs ((← scopes).importersOf (.expression n)) else return []
  | _ => return []

/-- Where the value of a node flows to in one step. -/
def flowsTo (n : NodeId) (env : Env) : Rule (List Config) := do
  let a ← arena
  let named ← match a.form n with
    | .function (some name) _ _ _ => do bindingRefs name (← scopeEnv n env)
    | _ => pure []
  match a.parent? n with
  | some parent => return named ++ (← parentFlows perform n parent env)
  | none => return named

/-! ## The questions -/

def traced (config : Config) : Rule ConfigSet := do
  match config.node? with
  | none => return .singleton config
  | some n =>
    let next ← unionOf (← flowsTo perform n config.env) (ask .traced)
    return next.insert config

/-- The calls that invoke a function value. -/
def applied (config : Config) : Rule ConfigSet := do
  let a ← arena
  let aliases ← ask .traced config
  return .ofList <| aliases.elems.filterMap fun ref => do
    let call ← a.calleeOf? (← ref.node?)
    return .ofNode call ref.env

/-- The environment under which a call from `env` can have the context `head`
inside, if there is one. -/
def matchingCaller (call : NodeId) (env : Env) (head : Context) : Rule (Option Env) := do
  let pushed := Context.push call env.head (← world).bound
  if pushed.refines head then return some env
  match head.sites with
  | site :: sites =>
    let tail : Context := ⟨sites, head.terminal⟩
    if site = call && tail.refines env.head then some <$> known (env.withHead tail)
    else return none
  | [] => return none

/-- Whether a call may invoke a builtin or code outside of the program, which
can call its arguments. -/
def callsOutside (call : NodeId) (env : Env) : Rule Bool := do
  match (← formOf call).callParts? with
  | none => return false
  | some (callee, _) =>
    return (← perform (.targets callee env)).any fun
      | .builtin _ | .external => true
      | .function _ => false

/-- The calls that enter the body of a function under the head of its
environment. A call that a builtin makes of an argument is reported as the
arguments of the call of the builtin from that argument on. -/
def callers (config : Config) : Rule ConfigSet := do
  let a ← arena
  match config.node? with
  | none => return .empty
  | some function =>
    if !a.isFunction function then return .empty
    let head := config.env.head
    let outer ← known (config.env.dropInner 1)
    let sinks ← ask .traced (.ofNode function outer)
    unionOver sinks fun sink => do
      match sink.node? with
      | none => return .empty
      | some n =>
        match a.calleeOf? n, a.argumentOf? n with
        | some call, _ =>
          match ← matchingCaller call sink.env head with
          | some env => return .ofNode call env
          | none => return .empty
        | none, some (call, position) =>
          if !(← callsOutside perform call sink.env) then return .empty
          match ← matchingCaller call sink.env head with
          | some env => return .singleton ⟨.arguments call position, env⟩
          | none => return .empty
        | none, none => return .empty

end Rule

end ValueFlow
