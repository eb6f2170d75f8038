import ValueFlow.Grammar.Expressions

/-!
# Statements

The grammar of statements, imports and exports. Labels of `break` and
`continue` are accepted and dropped.
-/

namespace ValueFlow.Grammar

open ValueFlow.Parser

variable (recur : Goal → Parser Tree)

/-! ## Declarations and loops -/

def declKind? : TokenValue → Option DeclKind
  | .keyword .const => some .const
  | .keyword .letKw => some .letDecl
  | .keyword .var => some .var
  | _ => none

def declarator : Parser Tree := do
  let start ← peek
  let target ← recur .target
  let init ← if (← takeMark? .assign).isSome then some <$> recur .assignment else pure none
  make (.declarator target init) start

def moreDeclarators : Parser (List Tree) :=
  repeatWhile (do return (← takeMark? .comma).isSome) (declarator recur)

/-- A variable declaration without its semicolon. -/
def varDecl (kind : DeclKind) : Parser Tree := do
  let start ← advance
  let first ← declarator recur
  make (.varDecl kind (first :: (← moreDeclarators recur))) start

/-- Whether the head of a `for` statement goes on with what is iterated. -/
def iterationAhead : Parser Bool := do
  return (← nextIsWord "of") || (← nextIs (.keyword .inKw))

def forEachFrom (start : Token) (head : Tree) : Parser Tree := do
  let overKeys := (← advance).value = .keyword .inKw
  let iterated ← recur .assignment
  let _ ← mark .rightParen
  let body ← recur .statement
  make (.forEach overKeys head iterated body) start

/-- A loop with the three parts of its head, from the first semicolon. -/
def forFrom (start : Token) (init : Option Tree) : Parser Tree := do
  let _ ← mark .semicolon
  let test ← if ← nextIsMark .semicolon then pure none else some <$> recur .assignment
  let _ ← mark .semicolon
  let update ← if ← nextIsMark .rightParen then pure none else some <$> recur .assignment
  let _ ← mark .rightParen
  let body ← recur .statement
  make (.forStmt init test update body) start

def forDeclared (start : Token) (kind : DeclKind) : Parser Tree := do
  let declStart ← advance
  let targetStart ← peek
  let target ← recur .target
  if ← iterationAhead then
    let one ← make (.declarator target none) targetStart
    let head ← make (.varDecl kind [one]) declStart
    return ← forEachFrom recur start head
  let init ←
    if (← takeMark? .assign).isSome then some <$> inForHead (recur .assignment) else pure none
  let first ← make (.declarator target init) targetStart
  let decl ← make (.varDecl kind (first :: (← moreDeclarators recur))) declStart
  forFrom recur start (some decl)

def forStatement : Parser Tree := do
  let start ← keyword .forKw
  let _ ← mark .leftParen
  let next := (← peek).value
  if let some kind := declKind? next then return ← forDeclared recur start kind
  if next = .punct .semicolon then return ← forFrom recur start none
  let expr ← inForHead (recur .assignment)
  if ← iterationAhead then return ← forEachFrom recur start (← asPattern expr)
  forFrom recur start (some expr)

/-! ## Other statements -/

def handler? : Parser (Option Tree) := do
  match ← takeKeyword? .catchKw with
  | none => return none
  | some start =>
    let param ←
      if (← takeMark? .leftParen).isSome then
        let param ← recur .target
        let _ ← mark .rightParen
        pure (some param)
      else pure none
    some <$> make (.catchClause param (← block recur)) start

def tryStatement : Parser Tree := do
  let start ← keyword .tryKw
  let body ← block recur
  let handler ← handler? recur
  let finalizer ←
    if (← takeKeyword? .finallyKw).isSome then some <$> block recur else pure none
  if handler.isNone && finalizer.isNone then failHere .handlerExpected
  make (.tryStmt body handler finalizer) start

/-- An expression in parentheses. -/
def condition : Parser Tree := do
  let _ ← mark .leftParen
  let test ← recur .assignment
  let _ ← mark .rightParen
  return test

def ifStatement : Parser Tree := do
  let start ← advance
  let test ← condition recur
  let consequent ← recur .statement
  let alternative ←
    if (← takeKeyword? .elseKw).isSome then some <$> recur .statement else pure none
  make (.ifStmt test consequent alternative) start

def whileStatement : Parser Tree := do
  let start ← advance
  let test ← condition recur
  make (.whileStmt test (← recur .statement)) start

def returnStatement : Parser Tree := do
  let start ← advance
  let value ← if ← atStatementEnd then pure none else some <$> recur .assignment
  semicolon
  make (.returnStmt value) start

def throwStatement : Parser Tree := do
  let start ← advance
  let value ← recur .assignment
  semicolon
  make (.throwStmt value) start

/-- `break` or `continue`. -/
def jump (form : Form Tree) : Parser Tree := do
  let start ← advance
  if !(← atStatementEnd) then let _ ← identifier
  semicolon
  make form start

/-! ## Imports and exports -/

def moduleSource : Parser Symbol := do
  word "from"
  stringLiteral

/-- One of the imports in braces. -/
def namedImport : Parser Tree := do
  let start ← peek
  let imported ← propertyName
  let kind := if (← nameOf imported) = "default" then .default else .named imported
  let name ←
    if ← nextIsWord "as" then
      let _ ← advance
      binding
    else make (.binding imported) start
  make (.importSpecifier kind name) start

def importList : Parser (List Tree) := do
  match ← takeMark? .star with
  | some star =>
    word "as"
    return [← make (.importSpecifier .whole (← binding)) star]
  | none =>
    let _ ← mark .leftBrace
    let specifiers ← commaItems .rightBrace namedImport
    let _ ← mark .rightBrace
    return specifiers

def importSpecifiers : Parser (List Tree) := do
  let start ← peek
  match start.value with
  | .identifier _ =>
    let default ← make (.importSpecifier .default (← binding)) start
    if (← takeMark? .comma).isSome then return default :: (← importList) else return [default]
  | _ => importList

def importStatement : Parser Tree := do
  let start ← keyword .importKw
  match (← peek).value with
  | .string source =>
    let _ ← advance
    semicolon
    make (.importDecl [] source) start
  | _ =>
    let specifiers ← importSpecifiers
    let source ← moduleSource
    semicolon
    make (.importDecl specifiers source) start

/-- One of the exports in braces. -/
def namedExport : Parser Tree := do
  let start ← peek
  let name ← propertyName
  let used ← make (.identifier name) start
  let exported ←
    if ← nextIsWord "as" then
      let _ ← advance
      propertyName
    else pure name
  make (.exportSpecifier used exported) start

/-- The value of a default export. A function needs no name here. -/
def defaultValue : Parser Tree := do
  match (← peek).value with
  | .keyword .function => function recur false true
  | value =>
    if value = .keyword .async && (← peekNext).value = .keyword .function then
      let _ ← advance
      function recur true true
    else
      let value ← recur .assignment
      semicolon
      return value

def exportStatement : Parser Tree := do
  let start ← keyword .exportKw
  match (← peek).value with
  | .keyword .default =>
    let _ ← advance
    make (.exportDefault (← defaultValue recur)) start
  | .keyword .const | .keyword .letKw | .keyword .var | .keyword .function | .keyword .async =>
    make (.exportDecl (← recur .statement)) start
  | .punct .leftBrace =>
    let _ ← advance
    let specifiers ← commaItems .rightBrace namedExport
    let _ ← mark .rightBrace
    let source ← if ← nextIsWord "from" then some <$> moduleSource else pure none
    semicolon
    make (.exportNamed specifiers source) start
  | _ => failHere .exportExpected

/-! ## All statements -/

def exprStatement : Parser Tree := do
  let start ← peek
  let expr ← recur .assignment
  semicolon
  make (.exprStmt expr) start

/-- A variable declaration with its semicolon, which is not part of its text. -/
def varStatement (kind : DeclKind) : Parser Tree := do
  let decl ← varDecl recur kind
  semicolon
  return decl

def statement : Parser Tree := do
  let start ← peek
  match start.value with
  | .keyword .const => varStatement recur .const
  | .keyword .letKw => varStatement recur .letDecl
  | .keyword .var => varStatement recur .var
  | .keyword .function => function recur false true
  | .keyword .async =>
    if (← peekNext).value = .keyword .function then
      let _ ← advance
      function recur true true
    else exprStatement recur
  | .keyword .returnKw => returnStatement recur
  | .keyword .ifKw => ifStatement recur
  | .keyword .whileKw => whileStatement recur
  | .keyword .forKw => forStatement recur
  | .keyword .tryKw => tryStatement recur
  | .keyword .throwKw => throwStatement recur
  | .keyword .breakKw => jump .breakStmt
  | .keyword .continueKw => jump .continueStmt
  | .punct .leftBrace => block recur
  | .punct .semicolon => leaf .empty
  | .keyword .importKw =>
    if (← peekNext).value = .punct .leftParen then exprStatement recur else importStatement
  | .keyword .exportKw => exportStatement recur
  | _ => exprStatement recur

end ValueFlow.Grammar
