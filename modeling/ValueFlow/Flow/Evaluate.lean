import ValueFlow.Flow.Element

/-!
# Evaluation

What an expression may evaluate to. Literals, functions and operators stand
for themselves; names lead to where their values come from, calls to what the
callee returns, and accesses to what is stored.
-/

namespace ValueFlow.Rule

variable (perform : Meaning)

def nameValues (n : NodeId) (env : Env) : Rule ConfigSet := do
  if ((← scopes).symbolAt n).isSome then
    return ← evaluateAll (← ask .bind (.ofNode n env))
  if (← globalName? n).isSome then return .ofNode n .root
  return .external

def thisFunction? (a : Arena) (n : NodeId) : Option NodeId :=
  (a.functionsAround n).find? fun f => !((a.form f).flags?.any (·.isArrow))

def thisValues (n : NodeId) (env : Env) : Rule ConfigSet := do
  match thisFunction? (← arena) n with
  | none => return .external
  | some function =>
    if ← isTarget function then return .external
    let bodyEnv ← scopeEnv function env
    let callers ← ask .callers (.ofNode function bodyEnv)
    unionOver callers fun caller => do
      match caller.node? with
      | none => return .empty
      | some call =>
        match ← receiver? call with
        | some object => values object caller.env
        | none => return .empty

/-- The result of a call of a builtin. Without a summary a call that produces
a known kind stands for itself. -/
def callBuiltin (id : BuiltinId) (site : Site) : Rule ConfigSet := do
  let entry ← entry id
  match entry.call with
  | some summary => callSummary perform site summary
  | none => return if entry.produces.isSome then site.value else .external

def callValues (call callee : NodeId) (env : Env) : Rule ConfigSet := do
  unionOf (← perform (.targets callee env)) fun
    | .function function => apply function call env
    | .builtin id => callBuiltin perform id ⟨call, env⟩
    | .external => return .external

def newValues (n callee : NodeId) (env : Env) : Rule ConfigSet := do
  match ← constructor? n with
  | some id => callBuiltin perform id ⟨n, env⟩
  | none =>
    let callees ← values callee env
    let a ← arena
    if callees.elems.any fun value => value.node?.any a.isFunction then
      unsupported n "Constructing user-defined functions is not modeled."
      return .empty
    return .external

def indexValues (n object index : NodeId) (env : Env) : Rule ConfigSet := do
  let receivers ← values object env
  match ← formOf index with
  | .string value => do perform (.property receivers (← textOf value) (some ⟨n, env⟩))
  | .number text => do perform (.elements receivers (position? (← textOf text)))
  | _ => perform (.elements receivers none)

def bitwise (n : NodeId) : Rule ConfigSet := do
  unsupported n "Bitwise operators are not modeled."
  return .empty

def either (first second : NodeId) (env : Env) : Rule ConfigSet := do
  let found ← values first env
  return found ∪ (← values second env)

def evaluateNode (n : NodeId) (env : Env) : Rule ConfigSet := do
  let itself : ConfigSet := .ofNode n env
  match ← formOf n with
  | .number _ | .string _ | .bool _ | .null | .undefined | .template .. | .function ..
  | .object _ | .array _ | .module _ | .update .. => return itself
  | .binary op _ _ => if op.isBitwise then bitwise n else return itself
  | .unary op _ => if op = .bitNot then bitwise n else return itself
  | .identifier _ | .binding _ => nameValues n env
  | .this => thisValues n env
  | .call callee _ _ => callValues perform n callee env
  | .new callee _ => newValues perform n callee env
  | .member object property _ =>
    let receivers ← values object env
    perform (.property receivers (← textOf property) (some ⟨n, env⟩))
  | .index object index _ => indexValues perform n object index env
  | .logical _ lhs rhs => either lhs rhs env
  | .conditional _ consequent alternative => either consequent alternative env
  | .assign .plain _ value => values value env
  | .assign (.logical _) target value => either target value env
  | .assign (.arithmetic op) _ _ => if op.isBitwise then bitwise n else return itself
  | .await argument => do awaitValues perform (← values argument env)
  | _ =>
    unsupported n "No rule to evaluate this expression."
    return .empty

def evaluate (config : Config) : Rule ConfigSet := do
  match config.cursor with
  | .external | .arguments .. => return .singleton config
  | .pick expression position =>
    perform (.elements (← values expression config.env) position)
  | .node n => evaluateNode perform n config.env

end ValueFlow.Rule
