import ValueFlow.Flow.Callee
import ValueFlow.Flow.Summary

/-!
# Properties

The values of a named property. The property of an object literal holds what
the literal says, what is assigned to it through any alias of the object, and
what `Object.assign` copies into it. Modules have their exports as
properties, and builtin values their getters.
-/

namespace ValueFlow

namespace Arena

variable (a : Arena)

def assignedValue? (target : NodeId) : Option NodeId := do
  match a.form (← a.parent? target) with
  | .assign .plain assigned value => if assigned = target then some value else none
  | .assign (.logical _) assigned value => if assigned = target then some value else none
  | _ => none

end Arena

namespace Rule

variable (perform : Meaning)

/-- Whether a node is a string literal with the given content. -/
def isText (n : NodeId) (text : String) : Rule Bool := do
  match ← formOf n with
  | .string value => return (← textOf value) = text
  | _ => return false

def isObjectAssign (call : NodeId) (env : Env) : Rule Bool := do
  match ← formOf call with
  | .call callee _ _ =>
    (← perform (.targets callee env)).anyM fun
      | .builtin id => do return (← entry id).shape = .static "Object" "assign"
      | _ => return false
  | _ => return false

def assignSources (n : NodeId) (env : Env) : Rule (List NodeId) := do
  match (← arena).argumentOf? n with
  | some (call, 0) =>
    if ← isObjectAssign perform call env then return (← argumentsOf call).drop 1 else return []
  | _ => return []

def literalProperty (env : Env) (name : String) (property : NodeId) : Rule ConfigSet := do
  match ← formOf property with
  | .property (.named key) value _ =>
    if (← textOf key) = name then values value env else return .empty
  | .property (.computed key) value _ =>
    if ← isText key name then values value env else return .empty
  | .spread argument => do perform (.property (← values argument env) name none)
  | _ => return .empty

def storedInProperty? (name : String) (n parent : NodeId) : Rule (Option NodeId) := do
  let a ← arena
  let named ← match a.form parent with
    | .member object property _ => do pure (object = n && (← textOf property) = name)
    | .index object index _ => do pure (object = n && (← isText index name))
    | _ => pure false
  return if named then a.assignedValue? parent else none

/-- What the uses of an alias of an object add to the property `name`. -/
def aliasProperty (name : String) (ref : Config) : Rule ConfigSet := do
  match ref.node? with
  | none => return .empty
  | some n =>
    match (← arena).parent? n with
    | none => return .empty
    | some parent =>
      let stored ← match ← storedInProperty? name n parent with
        | some value => values value ref.env
        | none => pure .empty
      let copied ← unionOf (← assignSources perform n ref.env) fun source => do
        perform (.property (← values source ref.env) name none)
      return stored ∪ copied

def objectProperty (object : Config) (name : String) : Rule ConfigSet := do
  match object.node? with
  | none => return .empty
  | some n =>
    match ← formOf n with
    | .object properties =>
      let own ← unionOf properties (literalProperty perform object.env name)
      let aliases ← ask .traced object
      return own ∪ (← unionOver aliases (aliasProperty perform name))
    | _ => return .empty

/-- A property of an object literal, unless it is being worked on. -/
def guardedProperty (object : Config) (name : String) : Rule ConfigSet :=
  guarded (.property object name) .empty (objectProperty perform object name)

def exportValues (root : NodeId) (name : String) : Rule ConfigSet := do
  let program := (← world).program
  let a := program.arena
  match program.scopes.exportTarget program.names (a.node root).home name with
  | .decl id =>
    let binding := (program.scopes.decl id).binding
    values binding (← topLevel binding)
  | .expression value => values value (← topLevel value)
  | .module other => return .ofNode (a.modules.getD other default).root .root
  | .external => return .external

/-- What reading a builtin getter gives: the access stands for the value. -/
def getterValue : Option Site → ConfigSet
  | some site => site.value
  | none => .external

/-- The member `name` of a global object. -/
def staticProperty (owner name : String) (site : Option Site) (reportAt : NodeId) :
    Rule ConfigSet := do
  match ← lookup reportAt (.static owner name) with
  | some id => return if (← entry id).getter then getterValue site else .external
  | none =>
    unsupported reportAt ("Unknown member '" ++ owner ++ "." ++ name ++ "'.")
    return .empty

def producedProperty (value : Config) (name : String) : Rule (Option ConfigSet) := do
  match value.node? with
  | none => return none
  | some n =>
    (← builtinsAt perform n value.env).foldlM (fun found id => do
      match (← entry id).property with
      | none => return found
      | some summary =>
        match ← propertySummary perform ⟨n, value.env⟩ name summary with
        | some values => return some (found.getD .empty ∪ values)
        | none => return found) none

def kindProperty (value : Config) (name : String) (site : Option Site)
    (reportAt : Option NodeId) : Rule ConfigSet := do
  let kinds ← perform (.kinds value)
  match reportAt with
  | none => return .empty
  | some n =>
    unionOf kinds fun kind => do
      match ← lookup n (.method kind name) with
      | some id => return if (← entry id).getter then getterValue site else .external
      | none =>
        unsupported n ("Unknown property '" ++ name ++ "' of " ++ kind.text ++ ".")
        return .empty

/-- A property of a value that is no object literal and no module. -/
def builtinProperty (value : Config) (name : String) (site : Option Site) : Rule ConfigSet := do
  let owner ← match value.node? with
    | some n => do pure ((← globalName? n).map fun owner => (owner, n))
    | none => pure none
  match owner with
  | some (owner, n) => staticProperty owner name site ((site.map (·.node)).getD n)
  | none =>
    match ← producedProperty perform value name with
    | some values => return values
    | none => kindProperty perform value name site ((site.map (·.node)) <|> value.node?)

def propertyValues (values : ConfigSet) (name : String) (site : Option Site) : Rule ConfigSet :=
  unionOver values fun value => do
    match value.cursor with
    | .external => return .external
    | .node n =>
      match ← formOf n with
      | .object _ => guardedProperty perform value name
      | .module _ => exportValues n name
      | .null | .undefined => return .empty
      | _ => builtinProperty perform value name site
    | _ => builtinProperty perform value name site

end Rule

end ValueFlow
