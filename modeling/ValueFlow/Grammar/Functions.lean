import ValueFlow.Grammar.Patterns

/-!
# Functions

The grammar of function declarations, function expressions and arrow
functions, and of the blocks that are their bodies. Generators parse as plain
functions.
-/

namespace ValueFlow.Grammar

open ValueFlow.Parser

variable (recur : Goal → Parser Tree)

def block : Parser Tree := do
  let start ← mark .leftBrace
  let body ← repeatWhile (do return !(← nextIsMark .rightBrace) && !(← atEnd)) (recur .statement)
  let _ ← mark .rightBrace
  make (.block body) start

def param : Parser (Tree × Follow) := do
  match ← takeMark? .ellipsis with
  | some dots => return (← make (.rest (← recur .target)) dots, .close)
  | none => return (← bindingElement recur, .comma)

def params : Parser (List Tree) := do
  let _ ← mark .leftParen
  let params ← itemsUpTo .rightParen (param recur)
  let _ ← mark .rightParen
  return params

/-- Whether the last token taken, apart from `function` and `async`, is
`default`: there a function statement needs no name. -/
def afterDefault : Parser Bool := fun s =>
  let passed (t : Token) : Bool := t.value = .keyword .function || t.value = .keyword .async
  .ok ((s.before.dropWhile passed).head?.any (·.value = .keyword .default)) s

def function (isAsync isDeclaration : Bool) : Parser Tree := do
  let start ← if isAsync then previous else peek
  let _ ← keyword .function
  let _ ← takeMark? .star
  let name ← match (← peek).value with
    | .identifier _ => some <$> binding
    | _ => pure none
  if isDeclaration && name.isNone && !(← afterDefault) then failHere .functionNameExpected
  let params ← params recur
  let body ← block recur
  make (.function name params body ⟨false, isAsync, isDeclaration && name.isSome, false⟩) start

/-- What remains after the bracket that closes the one at the front. -/
def afterBrackets : Nat → List Token → Option (List Token)
  | _, [] => none
  | depth, t :: rest =>
    match t.value with
    | .punct .leftParen | .punct .leftBracket | .punct .leftBrace =>
      afterBrackets (depth + 1) rest
    | .punct .rightParen | .punct .rightBracket | .punct .rightBrace =>
      if depth ≤ 1 then some rest else afterBrackets (depth - 1) rest
    | _ => afterBrackets depth rest

/-- Whether the tokens start with the parameters of an arrow function and its
arrow. -/
def startsArrow : List Token → Bool
  | [] => false
  | t :: rest =>
    match t.value with
    | .identifier _ => rest.head?.any (·.value = .punct .arrow)
    | .punct .leftParen =>
      match afterBrackets 0 (t :: rest) with
      | some rest => rest.head?.any (·.value = .punct .arrow)
      | none => false
    | _ => false

/-- Whether an arrow function stands here, and if so whether it is `async`. -/
def arrowAhead : Parser (Option Bool) := fun s =>
  if startsArrow s.rest then .ok (some false) s
  else if s.rest.head?.any (·.value = .keyword .async) && startsArrow (s.rest.drop 1) then
    .ok (some true) s
  else .ok none s

def arrow (isAsync : Bool) : Parser Tree := do
  let start ← peek
  if isAsync then let _ ← advance
  let params ← match (← peek).value with
    | .identifier _ => do pure [← binding]
    | _ => params recur
  let _ ← mark .arrow
  if ← nextIsMark .leftBrace then
    make (.function none params (← block recur) ⟨true, isAsync, false, false⟩) start
  else
    make (.function none params (← recur .assignment) ⟨true, isAsync, false, true⟩) start

end ValueFlow.Grammar
