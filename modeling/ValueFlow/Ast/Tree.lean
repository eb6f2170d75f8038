import ValueFlow.Ast.Form

/-!
# Syntax trees

A tree is a form whose parts are trees, with the place of its text. Trees are
what the parser builds.

* `Tree.foldM` goes over a tree from the leaves to the root, the parts of a
  construct from left to right and before the construct itself.
* `Tree.toPattern` reads an expression again as a pattern. An expression on
  the left of `=` turns out to be one only once the `=` is seen.
-/

namespace ValueFlow

/-- The line of a construct and the byte offsets of its text. -/
structure Span where
  line : Nat
  start : Nat
  stop : Nat
  deriving DecidableEq, Repr

/-- A construct whose parts are trees. -/
inductive Tree
  | node (span : Span) (form : Form Tree)

namespace Tree

def span : Tree → Span
  | node span _ => span

def form : Tree → Form Tree
  | node _ form => form

instance : Inhabited Tree := ⟨node ⟨0, 0, 0⟩ .empty⟩

section Fold

variable {m : Type → Type} [Monad m] {β : Type} (step : Span → Form β → m β)

mutual

/-- Runs `step` on every construct, its parts first and from left to right. -/
def foldM : Tree → m β
  | node span form => do step span (← foldForm form)

def foldList : List Tree → m (List β)
  | [] => pure []
  | t :: ts => do return (← foldM t) :: (← foldList ts)

def foldOption : Option Tree → m (Option β)
  | none => pure none
  | some t => do return some (← foldM t)

def foldHoles : List (Option Tree) → m (List (Option β))
  | [] => pure []
  | t :: ts => do return (← foldOption t) :: (← foldHoles ts)

def foldKey : PropKey Tree → m (PropKey β)
  | .named name => pure (.named name)
  | .computed key => do return .computed (← foldM key)

def foldForm : Form Tree → m (Form β)
  | .module body => do return .module (← foldList body)
  | .block body => do return .block (← foldList body)
  | .empty => pure .empty
  | .varDecl kind declarators => do return .varDecl kind (← foldList declarators)
  | .declarator target init => do return .declarator (← foldM target) (← foldOption init)
  | .function name params body flags => do
    return .function (← foldOption name) (← foldList params) (← foldM body) flags
  | .returnStmt value => do return .returnStmt (← foldOption value)
  | .ifStmt test consequent alternative => do
    return .ifStmt (← foldM test) (← foldM consequent) (← foldOption alternative)
  | .whileStmt test body => do return .whileStmt (← foldM test) (← foldM body)
  | .forStmt init test update body => do
    return .forStmt (← foldOption init) (← foldOption test) (← foldOption update) (← foldM body)
  | .forEach overKeys head iterated body => do
    return .forEach overKeys (← foldM head) (← foldM iterated) (← foldM body)
  | .tryStmt block handler finalizer => do
    return .tryStmt (← foldM block) (← foldOption handler) (← foldOption finalizer)
  | .catchClause param body => do return .catchClause (← foldOption param) (← foldM body)
  | .throwStmt value => do return .throwStmt (← foldM value)
  | .breakStmt => pure .breakStmt
  | .continueStmt => pure .continueStmt
  | .exprStmt expr => do return .exprStmt (← foldM expr)
  | .importDecl specifiers source => do return .importDecl (← foldList specifiers) source
  | .importSpecifier kind binding => do return .importSpecifier kind (← foldM binding)
  | .exportDecl decl => do return .exportDecl (← foldM decl)
  | .exportDefault value => do return .exportDefault (← foldM value)
  | .exportNamed specifiers source => do return .exportNamed (← foldList specifiers) source
  | .exportSpecifier name exported => do return .exportSpecifier (← foldM name) exported
  | .identifier name => pure (.identifier name)
  | .binding name => pure (.binding name)
  | .number text => pure (.number text)
  | .string value => pure (.string value)
  | .template quasis exprs => do return .template quasis (← foldList exprs)
  | .bool value => pure (.bool value)
  | .null => pure .null
  | .undefined => pure .undefined
  | .this => pure .this
  | .object properties => do return .object (← foldList properties)
  | .property key value shorthand => do
    return .property (← foldKey key) (← foldM value) shorthand
  | .array elements => do return .array (← foldHoles elements)
  | .spread argument => do return .spread (← foldM argument)
  | .call callee arguments optional => do
    return .call (← foldM callee) (← foldList arguments) optional
  | .new callee arguments => do return .new (← foldM callee) (← foldList arguments)
  | .member object property optional => do return .member (← foldM object) property optional
  | .index object index optional => do
    return .index (← foldM object) (← foldM index) optional
  | .binary op lhs rhs => do return .binary op (← foldM lhs) (← foldM rhs)
  | .logical op lhs rhs => do return .logical op (← foldM lhs) (← foldM rhs)
  | .conditional test consequent alternative => do
    return .conditional (← foldM test) (← foldM consequent) (← foldM alternative)
  | .unary op operand => do return .unary op (← foldM operand)
  | .update increment leading operand => do return .update increment leading (← foldM operand)
  | .assign op target value => do return .assign op (← foldM target) (← foldM value)
  | .await argument => do return .await (← foldM argument)
  | .objectPattern properties => do return .objectPattern (← foldList properties)
  | .arrayPattern elements => do return .arrayPattern (← foldHoles elements)
  | .assignPattern target default => do
    return .assignPattern (← foldM target) (← foldM default)
  | .rest argument => do return .rest (← foldM argument)

end

end Fold

mutual

/-- Reads an expression again as the target of an assignment. Names stay
references, since they refer to variables that exist. A part that cannot be a
target is reported by its line. -/
def toPattern : Tree → Except Nat Tree
  | node span form =>
    match form with
    | .identifier name => .ok (node span (.identifier name))
    | .member object property optional => .ok (node span (.member object property optional))
    | .index object index optional => .ok (node span (.index object index optional))
    | .array elements => do return node span (.arrayPattern (← holesToPatterns elements))
    | .object properties => do return node span (.objectPattern (← listToPatterns properties))
    | .property key value shorthand => do
      return node span (.property key (← toPattern value) shorthand)
    | .spread argument => do return node span (.rest (← toPattern argument))
    | .assign .plain target default => .ok (node span (.assignPattern target default))
    | _ => .error span.line

def listToPatterns : List Tree → Except Nat (List Tree)
  | [] => .ok []
  | t :: ts => do return (← toPattern t) :: (← listToPatterns ts)

def holesToPatterns : List (Option Tree) → Except Nat (List (Option Tree))
  | [] => .ok []
  | none :: ts => do return none :: (← holesToPatterns ts)
  | some t :: ts => do return some (← toPattern t) :: (← holesToPatterns ts)

end

end Tree

end ValueFlow
