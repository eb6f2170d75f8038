import ValueFlow.Grammar.Functions
import ValueFlow.Grammar.Operators

/-!
# Expressions

The grammar of expressions, from the literals up: primary expressions, chains
of calls and member accesses, unary operators, binary operators by level,
conditionals, and assignments. There is no comma operator.

Inside most brackets `in` is an operator, also in the head of a `for` statement.
-/

namespace ValueFlow.Grammar

open ValueFlow.Parser

variable (recur : Goal → Parser Tree)

/-! ## Lists in brackets -/

def element : Parser Tree := do
  match ← takeMark? .ellipsis with
  | some dots => make (.spread (← recur .assignment)) dots
  | none => recur .assignment

/-- The arguments of a call. -/
def arguments : Parser (List Tree) := do
  let _ ← mark .leftParen
  let arguments ← withNoIn false (commaItems .rightParen (element recur))
  let _ ← mark .rightParen
  return arguments

/-- An element of an array literal, or a hole. -/
def arrayElement : Parser (Option Tree × Follow) := do
  if (← takeMark? .comma).isSome then return (none, .item)
  return (some (← element recur), .comma)

def array : Parser Tree := do
  let start ← mark .leftBracket
  let elements ← withNoIn false (itemsUpTo .rightBracket (arrayElement recur))
  let _ ← mark .rightBracket
  make (.array elements) start

/-- Whether an `async` at the front of a property marks a method. -/
def asyncMethodAhead : Parser Bool := do
  let next := (← peekNext).value
  return (← nextIs (.keyword .async)) && next ≠ .punct .leftParen && next ≠ .punct .colon
    && next ≠ .punct .comma && next ≠ .punct .rightBrace

/-- A property of an object literal: a spread, a method, `key: value`, or a
name alone. A name alone may have a default, which makes sense only if the
literal turns out to be a pattern. -/
def property : Parser Tree := do
  let start ← peek
  if let some dots ← takeMark? .ellipsis then
    return ← make (.spread (← recur .assignment)) dots
  let isAsync ← asyncMethodAhead
  if isAsync then let _ ← advance
  let (key, short) ← propertyKey recur
  if ← nextIsMark .leftParen then
    let params ← params recur
    let body ← block recur
    let value ← make (.function none params body ⟨false, isAsync, false, false⟩) start
    return ← make (.property key value false) start
  if (← takeMark? .colon).isSome then
    return ← make (.property key (← recur .assignment) false) start
  match short with
  | none => failHere (.expected ":")
  | some (name, t) =>
    let value ← make (.identifier name) t
    let value ←
      if (← takeMark? .assign).isSome then
        make (.assign .plain value (← recur .assignment)) t
      else pure value
    make (.property key value true) start

def object : Parser Tree := do
  let start ← mark .leftBrace
  let properties ← withNoIn false (commaItems .rightBrace (property recur))
  let _ ← mark .rightBrace
  make (.object properties) start

/-! ## Primary expressions -/

/-- The substitutions of a template with the text after each of them. -/
def substitutions : Nat → Parser (List (Tree × Symbol))
  | 0 => failHere .nesting
  | fuel + 1 => do
    let expr ← recur .assignment
    match (← advance).value with
    | .template .middle quasi => return (expr, quasi) :: (← substitutions fuel)
    | .template .tail quasi => return [(expr, quasi)]
    | _ => failAt (← previous) .openSubstitution

def template (head : Symbol) : Parser Tree := do
  let start ← advance
  let parts ← substitutions recur (← rounds)
  make (.template (head :: parts.map (·.2)) (parts.map (·.1))) start

/-- A construct of one token. -/
def leaf (form : Form Tree) : Parser Tree := do
  let t ← advance
  make form t

def primary : Parser Tree := do
  let t ← peek
  match t.value with
  | .number text => leaf (.number text)
  | .string value => leaf (.string value)
  | .template .whole quasi => leaf (.template [quasi] [])
  | .template .head quasi => template recur quasi
  | .keyword .trueKw => leaf (.bool true)
  | .keyword .falseKw => leaf (.bool false)
  | .keyword .null => leaf .null
  | .keyword .undefined => leaf .undefined
  | .keyword .this => leaf .this
  | .identifier name => leaf (.identifier name)
  | .punct .leftParen =>
    let _ ← advance
    let inner ← withNoIn false (recur .assignment)
    let _ ← mark .rightParen
    return inner
  | .punct .leftBracket => array recur
  | .punct .leftBrace => object recur
  | .keyword .function => function recur false false
  | .keyword .async =>
    if (← peekNext).value = .keyword .function then
      let _ ← advance
      function recur true false
    else failAt t .expressionExpected
  | _ => failAt t .expressionExpected

/-! ## Chains -/

/-- An index up to its closing bracket. -/
def indexIn (object : Tree) (optional : Bool) (index : Parser Tree) (start : Token) :
    Parser Tree := do
  let _ ← advance
  let index ← index
  let _ ← mark .rightBracket
  make (.index object index optional) start

/-- One more link of a chain, if there is one: a member, an index or a call,
each also behind `?.`. -/
def link? (start : Token) (object : Tree) : Parser (Option Tree) := do
  match (← peek).value with
  | .punct .dot =>
    let _ ← advance
    some <$> make (.member object (← propertyName) false) start
  | .punct .questionDot =>
    let _ ← advance
    match (← peek).value with
    | .punct .leftParen => some <$> make (.call object (← arguments recur) true) start
    | .punct .leftBracket => some <$> indexIn object true (recur .assignment) start
    | _ => some <$> make (.member object (← propertyName) true) start
  | .punct .leftBracket =>
    some <$> indexIn object false (withNoIn false (recur .assignment)) start
  | .punct .leftParen => some <$> make (.call object (← arguments recur) false) start
  | _ => return none

def chainFrom (start : Token) : Nat → Tree → Parser Tree
  | 0, _ => failHere .nesting
  | fuel + 1, object => do
    match ← link? recur start object with
    | some object => chainFrom start fuel object
    | none => return object

/-- A primary expression or a `new` with what is called on it or taken of it. -/
def chain : Parser Tree := do
  let start ← peek
  let object ← if start.value = .keyword .new then recur .construct else primary recur
  chainFrom recur start (← rounds) object

def membersFrom (start : Token) : Nat → Tree → Parser Tree
  | 0, _ => failHere .nesting
  | fuel + 1, object => do
    if (← takeMark? .dot).isSome then
      membersFrom start fuel (← make (.member object (← propertyName) false) start)
    else return object

/-- A `new` expression. Its callee is a chain of members only, and the
arguments may be missing. -/
def construct : Parser Tree := do
  let start ← keyword .new
  let calleeStart ← peek
  let callee ←
    if calleeStart.value = .keyword .new then recur .construct else primary recur
  let callee ← membersFrom calleeStart (← rounds) callee
  let arguments ← if ← nextIsMark .leftParen then arguments recur else pure []
  make (.new callee arguments) start

/-! ## Operators -/

/-- Whether a token is `++` (then `true`) or `--`. -/
def updateOf? : TokenValue → Option Bool
  | .punct .plusPlus => some true
  | .punct .minusMinus => some false
  | _ => none

/-- A chain with an optional `++` or `--` behind it on the same line. -/
def trailing : Parser Tree := do
  let start ← peek
  let operand ← chain recur
  let next ← peek
  match updateOf? next.value with
  | some increment =>
    if next.newlineBefore then return operand
    let _ ← advance
    make (.update increment false operand) start
  | none => return operand

def unary : Parser Tree := do
  let start ← peek
  if let some op := UnaryOp.ofToken? start.value then
    let _ ← advance
    return ← make (.unary op (← recur .unary)) start
  if let some increment := updateOf? start.value then
    let _ ← advance
    return ← make (.update increment true (← recur .unary)) start
  if start.value = .keyword .await then
    let _ ← advance
    return ← make (.await (← recur .unary)) start
  trailing recur

/-- Goes on with operators of the given level and above. -/
def operatorsFrom (start : Token) (level : Nat) : Nat → Tree → Parser Tree
  | 0, _ => failHere .nesting
  | fuel + 1, lhs => do
    let value := (← peek).value
    if value = .keyword .inKw && (← get).noIn then return lhs
    match Operator.ofToken? value with
    | none => return lhs
    | some o =>
      if o.level < level then return lhs
      let _ ← advance
      let rhs ← recur (.binary o.rightLevel)
      operatorsFrom start level fuel (← make (o.form lhs rhs) start)

/-- Operands with operators of the given level and above between them. -/
def binary (level : Nat) : Parser Tree := do
  let start ← peek
  let lhs ← recur .unary
  operatorsFrom recur start level (← rounds) lhs

def conditional : Parser Tree := do
  let start ← peek
  let test ← recur (.binary 1)
  if (← takeMark? .question).isNone then return test
  let consequent ← withNoIn false (recur .assignment)
  let _ ← mark .colon
  let alternative ← recur .assignment
  make (.conditional test consequent alternative) start

def assignmentTarget (op : AssignOp) (t : Token) (target : Tree) : Parser Tree :=
  match target.form with
  | .identifier .. | .member .. | .index .. => return target
  | .array .. | .object .. =>
    if op = .plain then asPattern target else failAt t .invalidTarget
  | _ => failAt t .invalidTarget

def assignment : Parser Tree := do
  let start ← peek
  if let some isAsync ← arrowAhead then return ← arrow recur isAsync
  let target ← conditional recur
  match AssignOp.ofToken? (← peek).value with
  | none => return target
  | some op =>
    let t ← advance
    let target ← assignmentTarget op t target
    make (.assign op target (← recur .assignment)) start

end ValueFlow.Grammar
