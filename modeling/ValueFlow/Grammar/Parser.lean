import ValueFlow.Ast.Tree
import ValueFlow.Emitter

/-!
# Parsers

A parser takes tokens from the front of a list and gives a result or stops at
the first error. The tokens taken stay at hand: a construct ends where the
last taken token ends.

The table of names belongs to the state, because a keyword used as a property
name becomes a name only here, and it survives an error, because the modules
that follow share it.

The rules of the grammar call each other through *goals*: `Goal` names the
constructs that contain themselves, and a rule gets the parser of goals as an
argument. `parse` ties the knot.
-/

namespace ValueFlow

/-- What is wrong with a module that does not parse. -/
inductive ParseIssue
  /-- A given mark or word should stand here. -/
  | expected (text : String)
  | identifierExpected
  | stringExpected
  | propertyNameExpected
  | expressionExpected
  | functionNameExpected
  | handlerExpected
  | exportExpected
  | openSubstitution
  | invalidTarget
  /-- The constructs are nested deeper than there are tokens. -/
  | nesting
  /-- The last token taken is asked for before there is one. -/
  | nothingTaken
  /-- A symbol stands for no name of the table. -/
  | unnamed
  deriving DecidableEq, Repr

def ParseIssue.message : ParseIssue → String
  | .expected text => "'" ++ text ++ "' expected."
  | .identifierExpected => "Identifier expected."
  | .stringExpected => "String literal expected."
  | .propertyNameExpected => "Property name expected."
  | .expressionExpected => "Expect expression."
  | .functionNameExpected => "Function name expected."
  | .handlerExpected => "Expect 'catch' or 'finally' after try block."
  | .exportExpected => "Declaration or '\x7b' expected after export."
  | .openSubstitution => "'\x7d' expected in template literal."
  | .invalidTarget => "Invalid assignment target."
  | .nesting => "Nesting too deep."
  | .nothingTaken => "No token was taken yet."
  | .unnamed => "Symbol without a name."

/-- Whether the fault would be the parser's own and not that of the module. -/
def ParseIssue.isInternal : ParseIssue → Bool
  | .nesting | .nothingTaken | .unnamed => true
  | _ => false

structure ParseError where
  line : Nat
  /-- The offending token as text; empty where none is at fault. -/
  item : String
  issue : ParseIssue
  deriving DecidableEq, Repr

def ParseError.report (e : ParseError) : Report := ⟨.error, e.line, e.item, e.issue.message⟩

structure ParserState where
  /-- The tokens taken, last one first. -/
  before : List Token
  rest : List Token
  /-- The token that stands for the end of the source. -/
  finish : Token
  /-- Set in the head of a `for` statement, where `in` starts the iterated
  expression and is no operator. -/
  noIn : Bool
  names : Names

abbrev Parser := EStateM ParseError ParserState

/-- The constructs that contain themselves. -/
inductive Goal
  | statement
  | assignment
  /-- Operators of the given level and above. -/
  | binary (level : Nat)
  | unary
  /-- A `new` expression. -/
  | construct
  /-- A pattern that introduces variables. -/
  | target

namespace Parser

/-! ## Tokens -/

def peek : Parser Token := fun s => .ok (s.rest.headD s.finish) s

def peekNext : Parser Token := fun s => .ok ((s.rest.drop 1).headD s.finish) s

def previous : Parser Token := fun s =>
  match s.before with
  | t :: _ => .ok t s
  | [] => .error ⟨s.finish.line, "", .nothingTaken⟩ s

def atEnd : Parser Bool := fun s => .ok s.rest.isEmpty s

/-- Takes a token. At the end it stays, and gives the last token taken. -/
def advance : Parser Token := fun s =>
  match s.rest with
  | t :: rest => .ok t { s with before := t :: s.before, rest }
  | [] => previous s

def nameOf (symbol : Symbol) : Parser String := fun s =>
  match s.names.get? symbol with
  | some text => .ok text s
  | none => .error ⟨s.finish.line, "", .unnamed⟩ s

/-- How the reports name a token. -/
def itemOf (t : Token) : Parser String := do
  match t.value with
  | .identifier s | .number s | .string s => return "at '" ++ (← nameOf s) ++ "'"
  | .endOfFile => return "at end of file"
  | v => return "at '" ++ v.render ++ "'"

def failAt {α : Type} (t : Token) (issue : ParseIssue) : Parser α := do
  let item ← itemOf t
  throw ⟨t.line, item, issue⟩

/-- Stops because of the next token. -/
def failHere {α : Type} (issue : ParseIssue) : Parser α := do failAt (← peek) issue

def nextIs (value : TokenValue) : Parser Bool := do return (← peek).value = value

def nextIsMark (mark : Punctuator) : Parser Bool := nextIs (.punct mark)

def nextIsWord (word : String) : Parser Bool := do
  match (← peek).value with
  | .identifier name => return (← nameOf name) = word
  | _ => return false

def take? (value : TokenValue) : Parser (Option Token) := do
  if ← nextIs value then return some (← advance) else return none

def takeMark? (mark : Punctuator) : Parser (Option Token) := take? (.punct mark)

def takeKeyword? (word : Keyword) : Parser (Option Token) := take? (.keyword word)

def mark (mark : Punctuator) : Parser Token := do
  match ← takeMark? mark with
  | some t => return t
  | none => failHere (.expected mark.text)

def keyword (word : Keyword) : Parser Token := do
  match ← takeKeyword? word with
  | some t => return t
  | none => failHere (.expected word.text)

def word (word : String) : Parser Unit := do
  if ← nextIsWord word then let _ ← advance else failHere (.expected word)

def identifier : Parser Symbol := do
  match (← peek).value with
  | .identifier name => let _ ← advance; return name
  | _ => failHere .identifierExpected

def stringLiteral : Parser Symbol := do
  match (← peek).value with
  | .string content => let _ ← advance; return content
  | _ => failHere .stringExpected

/-- The symbol of a name, a new one if needed. -/
def symbolOf (text : String) : Parser Symbol := fun s =>
  let (symbol, names) := s.names.number text
  .ok symbol { s with names }

def propertyName : Parser Symbol := do
  match (← peek).value with
  | .identifier name | .string name | .number name => let _ ← advance; return name
  | .keyword word =>
    let name ← symbolOf word.text
    let _ ← advance
    return name
  | _ => failHere .propertyNameExpected

/-- Whether a statement can end before the next token without a semicolon. -/
def atStatementEnd : Parser Bool := do
  let t ← peek
  return t.value = .punct .semicolon || t.value = .punct .rightBrace || t.value = .endOfFile
    || t.newlineBefore

/-- The end of a statement. The semicolon may be missing before a line break,
before a closing brace and at the end of the source. -/
def semicolon : Parser Unit := do
  if (← takeMark? .semicolon).isSome then return
  if ← atStatementEnd then return
  failHere (.expected ";")

/-! ## Constructs -/

/-- A construct from the token `start` to the last token taken. -/
def make (form : Form Tree) (start : Token) : Parser Tree := fun s =>
  let stop := match s.before with
    | t :: _ => max t.stop start.stop
    | [] => start.stop
  .ok (.node ⟨start.line, start.start, stop⟩ form) s

def withNoIn {α : Type} (noIn : Bool) (p : Parser α) : Parser α := do
  let saved := (← get).noIn
  modify fun s => { s with noIn }
  let a ← p
  modify fun s => { s with noIn := saved }
  return a

/-- Runs `p` in the first part of the head of a `for` statement. After it `in`
is an operator again. -/
def inForHead {α : Type} (p : Parser α) : Parser α := do
  modify fun s => { s with noIn := true }
  let a ← p
  modify fun s => { s with noIn := false }
  return a

/-- Reads an expression again as an assignment target. -/
def asPattern (t : Tree) : Parser Tree := fun s =>
  match t.toPattern with
  | .ok t => .ok t s
  | .error line => .error ⟨line, "", .invalidTarget⟩ s

/-- Steps enough for any loop that takes a token in every round. -/
def rounds : Parser Nat := fun s => .ok (s.rest.length + 1) s

/-- Runs `item` as long as `go` says so. -/
def whileSteps {α : Type} (go : Parser Bool) (item : Parser α) : Nat → Parser (List α)
  | 0 => failHere .nesting
  | fuel + 1 => do
    if ← go then return (← item) :: (← whileSteps go item fuel) else return []

def repeatWhile {α : Type} (go : Parser Bool) (item : Parser α) : Parser (List α) := do
  whileSteps go item (← rounds)

/-- What may come after an item of a list. -/
inductive Follow
  | comma
  | item
  /-- Nothing more. -/
  | close

def itemSteps {α : Type} (close : Punctuator) (item : Parser (α × Follow)) :
    Nat → Parser (List α)
  | 0 => failHere .nesting
  | fuel + 1 => do
    if ← nextIsMark close then return []
    let (a, follow) ← item
    match follow with
    | .close => return [a]
    | .item => return a :: (← itemSteps close item fuel)
    | .comma =>
      if (← takeMark? .comma).isSome then return a :: (← itemSteps close item fuel)
      else return [a]

def itemsUpTo {α : Type} (close : Punctuator) (item : Parser (α × Follow)) :
    Parser (List α) := do
  itemSteps close item (← rounds)

/-- Items with commas between them; the last one may have a comma too. -/
def commaItems {α : Type} (close : Punctuator) (item : Parser α) : Parser (List α) :=
  itemsUpTo close do return (← item, .comma)

end Parser

end ValueFlow
