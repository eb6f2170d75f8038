import ValueFlow.Token

/-!
# Forms of JavaScript syntax

A form is one construct of the language with its parts: `Form α` has its
sub-constructs in `α`. Over trees it describes the syntax a parser builds,
over node numbers the rows of an arena. Whatever reads only the shape of a
construct and not its parts works for both.

`Form.children` lists the parts in source order.
-/

namespace ValueFlow

inductive DeclKind
  | const | letDecl | var
  deriving DecidableEq, Repr

structure FunctionFlags where
  isArrow : Bool
  isAsync : Bool
  isDeclaration : Bool
  /-- An arrow function whose body is a single expression. -/
  expressionBody : Bool
  deriving DecidableEq, Repr

/-- The key of a property in an object literal or pattern. -/
inductive PropKey (α : Type)
  | named (name : Symbol)
  | computed (key : α)
  deriving DecidableEq, Repr

/-- What an import specifier takes from its module. -/
inductive ImportKind
  | default
  | named (name : Symbol)
  | whole
  deriving DecidableEq, Repr

inductive BinaryOp
  | add | sub | mul | div | mod | exp
  | eq | notEq | strictEq | strictNotEq
  | less | greater | lessEq | greaterEq | isIn | isInstance
  | bitAnd | bitOr | bitXor | shiftLeft | shiftRight | shiftRightUnsigned
  deriving DecidableEq, Repr

namespace BinaryOp

def isBitwise : BinaryOp → Bool
  | bitAnd | bitOr | bitXor | shiftLeft | shiftRight | shiftRightUnsigned => true
  | _ => false

def isComparison : BinaryOp → Bool
  | eq | notEq | strictEq | strictNotEq | less | greater | lessEq | greaterEq => true
  | isIn | isInstance => true
  | _ => false

end BinaryOp

inductive LogicalOp
  | and | or | nullish
  deriving DecidableEq, Repr

inductive UnaryOp
  | not | neg | plus | bitNot | typeof | void | delete
  deriving DecidableEq, Repr

/-- The operators of assignments: plain, or combined with another operator. -/
inductive AssignOp
  | plain
  | arithmetic (op : BinaryOp)
  | logical (op : LogicalOp)
  deriving DecidableEq, Repr

/-- One construct with its parts in `α`. -/
inductive Form (α : Type)
  -- Statements
  | module (body : List α)
  | block (body : List α)
  | empty
  | varDecl (kind : DeclKind) (declarators : List α)
  | declarator (target : α) (init : Option α)
  | function (name : Option α) (params : List α) (body : α) (flags : FunctionFlags)
  | returnStmt (value : Option α)
  | ifStmt (test consequent : α) (alternative : Option α)
  | whileStmt (test body : α)
  | forStmt (init test update : Option α) (body : α)
  | forEach (overKeys : Bool) (head iterated body : α)
  | tryStmt (block : α) (handler finalizer : Option α)
  | catchClause (param : Option α) (body : α)
  | throwStmt (value : α)
  | breakStmt
  | continueStmt
  | exprStmt (expr : α)
  | importDecl (specifiers : List α) (source : Symbol)
  | importSpecifier (kind : ImportKind) (binding : α)
  | exportDecl (decl : α)
  | exportDefault (value : α)
  | exportNamed (specifiers : List α) (source : Option Symbol)
  | exportSpecifier (name : α) (exported : Symbol)
  -- Expressions
  /-- A reference to a variable. -/
  | identifier (name : Symbol)
  /-- The defining occurrence of a variable. -/
  | binding (name : Symbol)
  | number (text : Symbol)
  | string (value : Symbol)
  | template (quasis : List Symbol) (exprs : List α)
  | bool (value : Bool)
  | null
  | undefined
  | this
  | object (properties : List α)
  | property (key : PropKey α) (value : α) (shorthand : Bool)
  | array (elements : List (Option α))
  | spread (argument : α)
  | call (callee : α) (arguments : List α) (optional : Bool)
  | new (callee : α) (arguments : List α)
  | member (object : α) (property : Symbol) (optional : Bool)
  | index (object index : α) (optional : Bool)
  | binary (op : BinaryOp) (lhs rhs : α)
  | logical (op : LogicalOp) (lhs rhs : α)
  | conditional (test consequent alternative : α)
  | unary (op : UnaryOp) (operand : α)
  | update (increment leading : Bool) (operand : α)
  | assign (op : AssignOp) (target value : α)
  | await (argument : α)
  -- Patterns
  | objectPattern (properties : List α)
  | arrayPattern (elements : List (Option α))
  | assignPattern (target default : α)
  | rest (argument : α)
  deriving DecidableEq, Repr

namespace Form

variable {α : Type}

instance : Inhabited (Form α) := ⟨.empty⟩

/-- The parts of a construct, in source order. -/
def children : Form α → List α
  | module body | block body => body
  | varDecl _ declarators => declarators
  | declarator target init => target :: init.toList
  | function name params body _ => name.toList ++ params ++ [body]
  | returnStmt value => value.toList
  | ifStmt test consequent alternative => test :: consequent :: alternative.toList
  | whileStmt test body => [test, body]
  | forStmt init test step body => init.toList ++ test.toList ++ step.toList ++ [body]
  | forEach _ head iterated body => [head, iterated, body]
  | tryStmt body handler finalizer => body :: (handler.toList ++ finalizer.toList)
  | catchClause param body => param.toList ++ [body]
  | throwStmt value => [value]
  | exprStmt expr => [expr]
  | importDecl specifiers _ => specifiers
  | importSpecifier _ name => [name]
  | exportDecl decl => [decl]
  | exportDefault value => [value]
  | exportNamed specifiers _ => specifiers
  | exportSpecifier name _ => [name]
  | template _ exprs => exprs
  | object properties | objectPattern properties => properties
  | property (.computed key) value _ => [key, value]
  | property (.named _) value _ => [value]
  | array elements | arrayPattern elements => elements.filterMap id
  | spread argument | rest argument | await argument => [argument]
  | call callee arguments _ | new callee arguments => callee :: arguments
  | member receiver _ _ => [receiver]
  | index receiver key _ => [receiver, key]
  | binary _ lhs rhs | logical _ lhs rhs => [lhs, rhs]
  | conditional test consequent alternative => [test, consequent, alternative]
  | unary _ operand => [operand]
  | update _ _ operand => [operand]
  | assign _ target value => [target, value]
  | assignPattern target default => [target, default]
  | empty | breakStmt | continueStmt | identifier _ | binding _ | number _ | string _
  | bool _ | null | undefined | this => []

def isFunction : Form α → Bool
  | function .. => true
  | _ => false

def isBinding : Form α → Bool
  | binding _ => true
  | _ => false

def isSpread : Form α → Bool
  | spread _ => true
  | _ => false

/-- Whether the construct owns a scope of names. -/
def isScope : Form α → Bool
  | module _ | function .. | block _ | forStmt .. | forEach .. | catchClause .. => true
  | _ => false

def callParts? : Form α → Option (α × List α)
  | call callee arguments _ | new callee arguments => some (callee, arguments)
  | _ => none

def flags? : Form α → Option FunctionFlags
  | function _ _ _ flags => some flags
  | _ => none

def name? : Form α → Option Symbol
  | identifier name | binding name => some name
  | _ => none

end Form

end ValueFlow
