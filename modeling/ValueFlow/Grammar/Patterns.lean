import ValueFlow.Grammar.Parser

/-!
# Patterns

The grammar of what stands on the left of a declaration: names, and object
and array patterns with defaults and rests. All the leaves are bindings.
-/

namespace ValueFlow.Grammar

open ValueFlow.Parser

variable (recur : Goal → Parser Tree)

/-- A name that introduces a variable. -/
def binding : Parser Tree := do
  let t ← peek
  make (.binding (← identifier)) t

/-- A target with an optional default. -/
def bindingElement : Parser Tree := do
  let start ← peek
  let target ← recur .target
  if (← takeMark? .assign).isSome then
    make (.assignPattern target (← recur .assignment)) start
  else return target

/-- The key of a property. A key that is a plain identifier comes with its
token, which the short form of a property needs. -/
def propertyKey : Parser (PropKey Tree × Option (Symbol × Token)) := do
  let t ← peek
  match t.value with
  | .punct .leftBracket =>
    let _ ← advance
    let key ← recur .assignment
    let _ ← mark .rightBracket
    return (.computed key, none)
  | .identifier name =>
    let _ ← advance
    return (.named name, some (name, t))
  | _ => return (.named (← propertyName), none)

/-- A property of an object pattern: `key: element`, or a name alone with an
optional default. -/
def patternProperty : Parser (Tree × Follow) := do
  let start ← peek
  if (← takeMark? .ellipsis).isSome then
    return (← make (.rest (← binding)) start, .close)
  let (key, short) ← propertyKey recur
  if (← takeMark? .colon).isSome then
    let value ← bindingElement recur
    return (← make (.property key value false) start, .comma)
  match short with
  | none => failHere (.expected ":")
  | some (name, t) =>
    let value ← make (.binding name) t
    let value ←
      if (← takeMark? .assign).isSome then
        make (.assignPattern value (← recur .assignment)) t
      else pure value
    return (← make (.property key value true) start, .comma)

/-- An element of an array pattern, or a hole. -/
def patternElement : Parser (Option Tree × Follow) := do
  if (← takeMark? .comma).isSome then return (none, .item)
  match ← takeMark? .ellipsis with
  | some dots => return (some (← make (.rest (← recur .target)) dots), .close)
  | none => return (some (← bindingElement recur), .comma)

def target : Parser Tree := do
  let start ← peek
  match start.value with
  | .punct .leftBracket =>
    let _ ← advance
    let elements ← itemsUpTo .rightBracket (patternElement recur)
    let _ ← mark .rightBracket
    make (.arrayPattern elements) start
  | .punct .leftBrace =>
    let _ ← advance
    let properties ← itemsUpTo .rightBrace (patternProperty recur)
    let _ ← mark .rightBrace
    make (.objectPattern properties) start
  | _ => binding

end ValueFlow.Grammar
