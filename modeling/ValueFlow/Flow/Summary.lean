import ValueFlow.Flow.Operation

/-!
# The behaviour of builtins

What the summaries of the catalogue come to. Every summary is read at the
site of the call, `new` expression or access that the builtin is reached by.
-/

namespace ValueFlow.Rule

variable (perform : Meaning)

/-! ## Receivers, arguments and callbacks -/

/-- The values of the object that a method is called on. -/
def receiverValues (site : Site) : Rule ConfigSet := do
  match ← receiver? site.node with
  | some object => values object site.env
  | none => return .empty

def elementsOf (values : ConfigSet) (position : Option Nat) : Rule ConfigSet :=
  perform (.elements values position)

def receiverElements (site : Site) : Rule ConfigSet := do
  elementsOf perform (← receiverValues site) none

def argumentValues (site : Site) (position : Nat) : Rule ConfigSet := do
  match ← argument? site.node position with
  | none => return .empty
  | some argument =>
    match ← formOf argument with
    | .spread inner => elementsOf perform (← values inner site.env) none
    | _ => values argument site.env

def firstArgument (site : Site) : Rule ConfigSet := argumentValues perform site 0

def callbackReturns (site : Site) (position : Nat) : Rule ConfigSet := do
  let callbacks ← argumentValues perform site position
  unionOver callbacks fun callback => do
    match callback.cursor with
    | .node n =>
      if (← arena).isFunction n then applyCallback callback site.node position site.env
      else return .empty
    | .external => return .external
    | _ => return .empty

def isArray (value : Config) : Rule Bool := do
  match value.cursor with
  | .arguments .. => return true
  | .node n =>
    match ← formOf n with
    | .array _ => return true
    | _ => return (← perform (.kinds value)).contains .array
  | _ => return false

def flatten (values : ConfigSet) : Rule ConfigSet :=
  unionOver values fun value => do
    if ← isArray perform value then elementsOf perform (.singleton value) none
    else return .singleton value

def sourceElements (site : Site) : Rule ConfigSet := do
  elementsOf perform (← firstArgument perform site) none

def awaitedReceiver (site : Site) : Rule ConfigSet := do
  awaitValues perform (← receiverValues site)

/-! ## Collections -/

def methodCall? (method : String) (n : NodeId) : Rule (Option NodeId) := do
  let a ← arena
  match a.parent? n with
  | none => return none
  | some parent =>
    match a.form parent with
    | .member object property _ =>
      if object = n && (← textOf property) = method then return a.calleeOf? parent
      else return none
    | _ => return none

def storedArguments (collections : ConfigSet) (method : String) (position : Nat) :
    Rule ConfigSet :=
  unionOver collections fun collection => do
    if collection.isExternal then return .external
    let aliases ← ask .traced collection
    unionOver aliases fun ref => do
      match ref.node? with
      | none => return .empty
      | some n =>
        match ← methodCall? method n with
        | none => return .empty
        | some call =>
          match ← argument? call position with
          | some argument => values argument ref.env
          | none => return .empty

def initialEntries (collections : ConfigSet) : Rule ConfigSet :=
  unionOver collections fun collection => do
    match collection.node? with
    | none => return .empty
    | some n =>
      match ← formOf n with
      | .new .. => sourceElements perform ⟨n, collection.env⟩
      | _ => return .empty

def mapValues (maps : ConfigSet) : Rule ConfigSet := do
  let stored ← storedArguments maps "set" 1
  let entries ← initialEntries perform maps
  return stored ∪ (← elementsOf perform entries (some 1))

def setValues (sets : ConfigSet) : Rule ConfigSet := do
  let stored ← storedArguments sets "add" 0
  return stored ∪ (← initialEntries perform sets)

/-! ## Summaries -/

/-- What a call of a builtin results in. -/
def callSummary (site : Site) : CallSummary → Rule ConfigSet
  | .nothing => return .empty
  | .external => return .external
  | .receiver => receiverValues site
  | .receiverElement => receiverElements perform site
  | .reduction => do
    let returned ← callbackReturns perform site 0
    return returned ∪ (← argumentValues perform site 1)
  | .firstArgument => firstArgument perform site
  | .storedValue => do mapValues perform (← receiverValues site)

/-- A named property of what a builtin produces, or nothing if the methods of
its kind decide. -/
def propertySummary (site : Site) (name : String) : PropertySummary → Rule (Option ConfigSet)
  | .errorMessage => do
    if name = "message" then some <$> firstArgument perform site else return none

/-- The elements of what a builtin produces. -/
def elementSummary (site : Site) (position : Option Nat) : ElementSummary → Rule ConfigSet
  | .external => return .external
  | .callbackResults => callbackReturns perform site 0
  | .receiverElements => receiverElements perform site
  | .concatenation => do
    let elements ← receiverElements perform site
    let arguments ← argumentsOf site.node
    let others ← unionOf (List.range arguments.length) fun i => do
      flatten perform (← argumentValues perform site i)
    return elements ∪ others
  | .flattened => do flatten perform (← receiverElements perform site)
  | .converted => do
    if (← argument? site.node 1).isSome then callbackReturns perform site 1
    else sourceElements perform site
  | .arguments => elementsOf perform (.singleton ⟨.arguments site.node 0, site.env⟩) position
  | .argumentElements => sourceElements perform site
  | .settledElements => do
    let promises ← firstArgument perform site
    awaitValues perform (← elementsOf perform promises position)
  | .storedValues => do mapValues perform (← receiverValues site)

/-- The arguments that an executor passes to its first parameter. What else
becomes of the parameter is unknown. -/
def executorArguments (site : Site) (executor : Config) : Rule ConfigSet := do
  let form ← match executor.node? with
    | some n => formOf n
    | none => pure .empty
  match form with
  | .function _ (resolve :: _) _ _ =>
    match (← scopes).symbolAt resolve with
    | none => return .empty
    | some id =>
      let bodyEnv ← enterCallback executor site.node 0 site.env
      unionOf ((← scopes).referencesOf id) fun reference => do
        let env ← envAt reference bodyEnv
        match (← arena).calleeOf? reference with
        | some call =>
          match ← argument? call 0 with
          | some value => values value env
          | none => return .empty
        | none => return .external
  | .function _ [] _ _ => return .empty
  | _ => return .external

/-- What awaiting the promise that a builtin produces comes to. -/
def resolvedSummary (site : Site) : ResolvedSummary → Rule ConfigSet
  | .nothing => return .empty
  | .firstArgument => firstArgument perform site
  | .itself => return site.value
  | .anyElement => sourceElements perform site
  | .executorArguments => do
    unionOver (← firstArgument perform site) (executorArguments site)
  | .continuation => do
    if (← argument? site.node 0).isNone then awaitedReceiver perform site
    else callbackReturns perform site 0
  | .recovery => do
    let settled ← awaitedReceiver perform site
    return settled ∪ (← callbackReturns perform site 0)
  | .receiver => awaitedReceiver perform site

/-- What a builtin passes to the parameter `param` of its argument at
`callback`. -/
def binderSummary (site : Site) (callback param : Nat) : BinderSummary → Rule ConfigSet
  | .external => return .external
  | .iteration =>
    match callback, param with
    | 0, 0 => receiverElements perform site
    | 0, 2 => receiverValues site
    | _, _ => return .external
  | .reduction =>
    match callback, param with
    | 0, 0 => do
      let start ← argumentValues perform site 1
      let returned ← callbackReturns perform site 0
      let first ←
        if (← argument? site.node 1).isNone then receiverElements perform site
        else pure .empty
      return start ∪ returned ∪ first
    | 0, 1 => receiverElements perform site
    | 0, 3 => receiverValues site
    | _, _ => return .external
  | .receiverElements => receiverElements perform site
  | .conversion =>
    match callback, param with
    | 1, 0 => sourceElements perform site
    | _, _ => return .external
  | .settled =>
    match callback, param with
    | 0, 0 => awaitedReceiver perform site
    | _, _ => return .external
  | .mapIteration =>
    match callback, param with
    | 0, 0 => do mapValues perform (← receiverValues site)
    | 0, 2 => receiverValues site
    | _, _ => return .external
  | .setIteration =>
    match callback, param with
    | 0, 0 | 0, 1 => do setValues perform (← receiverValues site)
    | 0, 2 => receiverValues site
    | _, _ => return .external

end ValueFlow.Rule
