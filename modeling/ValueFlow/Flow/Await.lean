import ValueFlow.Flow.Callee
import ValueFlow.Flow.Summary

/-!
# Awaiting

Awaiting opens promises: a call of an `async` function comes to what the
function returns, a builtin promise to what its summary says, and any other
value to itself. What a promise comes to is awaited in turn.
-/

namespace ValueFlow.Rule

variable (perform : Meaning)

def builtinResolved (id : BuiltinId) (site : Site) : Rule (Option ConfigSet) := do
  let entry ← entry id
  match entry.resolved with
  | some summary => some <$> resolvedSummary perform site summary
  | none => return if entry.produces = some .promise then some .external else none

/-- What a promise made by a call of one target comes to. -/
def targetResolved (site : Site) : Target → Rule (Option ConfigSet)
  | .function function => do
    match function.node? with
    | none => return none
    | some f =>
      if ← isAsync f then
        let bodyEnv ← enter function site.node site.env
        some <$> returns f bodyEnv
      else return none
  | .builtin id => builtinResolved perform id site
  | .external => return none

/-- What a value comes to if it is a promise. -/
def resolved? (n : NodeId) (env : Env) : Rule (Option ConfigSet) := do
  match ← formOf n with
  | .call callee _ _ =>
    (← perform (.targets callee env)).foldlM (fun found target => do
      match ← targetResolved perform ⟨n, env⟩ target with
      | some set => return some (found.getD .empty ∪ set)
      | none => return found) none
  | .new .. =>
    match ← constructor? n with
    | some id => builtinResolved perform id ⟨n, env⟩
    | none => return none
  | _ => return none

/-- Awaits the first pending value, and then the others. A promise that comes
to itself stands for its settled value. -/
def awaited (pending seen : List Config) (settled : ConfigSet) : Rule ConfigSet := do
  match pending with
  | [] => return settled
  | value :: pending =>
    if value ∈ seen then return ← perform (.awaited pending seen settled)
    let seen := value :: seen
    let resolved ← match value.node? with
      | some n => resolved? perform n value.env
      | none => pure none
    match resolved with
    | none => perform (.awaited pending seen (settled.insert value))
    | some set =>
      let next ← inOrder (set.erase value)
      let settled := if value ∈ set then settled.insert value else settled
      perform (.awaited (next ++ pending) seen settled)

end ValueFlow.Rule
