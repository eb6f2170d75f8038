import ValueFlow.Flow.Operation

/-!
# Callees and kinds

What a callee may invoke, and of which kinds a value is. The two need each
other: a method is looked up on the kinds of its receiver, and the kinds of a
call are what the invoked builtins produce.
-/

namespace ValueFlow.Rule

variable (perform : Meaning)

/-- What a value invokes when it is called. -/
def valueTargets (callee : NodeId) (value : Config) : Rule (List Target) := do
  match value.cursor with
  | .external => return [.external]
  | .node n =>
    if (← arena).isFunction n then return [.function value]
    match ← globalName? n with
    | some name =>
      match ← lookup callee (.global name) with
      | some id => return [.builtin id]
      | none =>
        unsupported callee ("'" ++ name ++ "' cannot be called.")
        return []
    | none =>
      unsupported callee "Callee is not a function."
      return []
  | _ =>
    unsupported callee "Callee is not a function."
    return []

def targetsOver (set : ConfigSet) (f : Config → Rule (List Target)) : Rule (List Target) := do
  (← inOrder set).foldlM (fun found value => do return found ++ (← f value)) []

def methodTargets (callee : NodeId) (receiver : Config) (name : String) :
    Rule (List Target) := do
  let ids ← (← perform (.kinds receiver)).filterMapM fun kind => lookup callee (.method kind name)
  if ids.isEmpty then unsupported callee ("Unknown method '" ++ name ++ "'.")
  return ids.map .builtin

/-- What the member `name` of a value invokes when it is called. -/
def memberTargets (callee : NodeId) (name : String) (receiver : Config) :
    Rule (List Target) := do
  match receiver.cursor with
  | .external => return [.external]
  | .node n =>
    match ← formOf n with
    | .object _ | .module _ =>
      let methods ← perform (.property (.singleton receiver) name none)
      targetsOver methods (valueTargets callee)
    | _ =>
      match ← globalName? n with
      | some owner =>
        match ← lookup callee (.static owner name) with
        | some id => return [.builtin id]
        | none =>
          unsupported callee ("Unknown function '" ++ owner ++ "." ++ name ++ "'.")
          return []
      | none => methodTargets perform callee receiver name
  | _ => methodTargets perform callee receiver name

/-- The functions and builtins that a callee may invoke. -/
def calleeTargets (callee : NodeId) (env : Env) : Rule (List Target) := do
  let targets ← match ← formOf callee with
    | .member object property _ =>
      let name ← textOf property
      targetsOver (← values object env) (memberTargets perform callee name)
    | _ => targetsOver (← values callee env) (valueTargets callee)
  return firstOccurrences targets

def memberShapes (name : String) (receiver : Config) : Rule (List Shape) := do
  let owner ← match receiver.node? with
    | some n => globalName? n
    | none => pure none
  match owner with
  | some owner => return [.static owner name]
  | none => return (← perform (.kinds receiver)).map fun kind => .method kind name

def gettersAt (n : NodeId) (name : String) (receivers : ConfigSet) : Rule (List BuiltinId) := do
  let ids ← (← inOrder receivers).foldlM (fun found receiver => do
    let ids ← (← memberShapes perform name receiver).filterMapM fun shape => do
      match ← lookup n shape with
      | some id => return if (← entry id).getter then some id else none
      | none => return none
    return found ++ ids) []
  return firstOccurrences ids

/-- The builtins whose result a call, a `new` expression or an access is. -/
def builtinsAt (n : NodeId) (env : Env) : Rule (List BuiltinId) := do
  match ← formOf n with
  | .call callee _ _ =>
    return (← perform (.targets callee env)).filterMap fun
      | .builtin id => some id
      | _ => none
  | .new .. => return (← constructor? n).toList
  | .member object property _ =>
    gettersAt perform n (← textOf property) (← values object env)
  | _ => return []

/-- The kinds of what a call of the targets results in. -/
def targetKinds (targets : List Target) : Rule (List Kind) := do
  let kinds ← targets.filterMapM fun
    | .function value => do
      match value.node? with
      | some f => return if ← isAsync f then some .promise else none
      | none => return none
    | .builtin id => do return (← entry id).produces
    | .external => return none
  return firstOccurrences kinds

/-- The kinds of builtin objects that a value may be. -/
def kindsOf (value : Config) : Rule (List Kind) := do
  match value.cursor with
  | .arguments .. => return [.array]
  | .pick .. | .external => return []
  | .node n =>
    match ← formOf n with
    | .array _ => return [.array]
    | .string _ | .template .. => return [.string]
    | .number _ | .update .. => return [.number]
    | .bool _ => return [.boolean]
    | .object _ => return [.object]
    | .function .. => return [.function]
    | .binary op _ _ =>
      return if op.isComparison then [.boolean] else if op = .add then [] else [.number]
    | .unary op _ =>
      return match op with
        | .not => [.boolean]
        | .typeof => [.string]
        | .neg | .plus => [.number]
        | _ => []
    | .identifier _ =>
      match ← globalName? n with
      | some name => return if (← catalogue).isOwner name then [.globalObject] else [.function]
      | none => return []
    | .call callee _ _ => targetKinds (← perform (.targets callee value.env))
    | .new .. | .member .. =>
      let ids ← builtinsAt perform n value.env
      return firstOccurrences (← ids.filterMapM fun id => do return (← entry id).produces)
    | _ => return []

end ValueFlow.Rule
