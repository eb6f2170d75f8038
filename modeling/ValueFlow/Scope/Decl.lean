import ValueFlow.Ast.Arena

/-!
# Declarations

Which constructs introduce names, and which node owns them. A declaration is
a name with its owner: bindings of one name with one owner share it.

* `Arena.introductions` lists what one construct introduces.
* `Arena.declarations` collects the declarations of all modules, in the order
  in which the constructs start.
-/

namespace ValueFlow

/-- The number of a declaration. -/
abbrev DeclId := Nat

inductive BindingKind
  | variable (kind : DeclKind)
  | function
  | parameter
  | catchParameter
  | imported
  deriving DecidableEq, Repr

structure Decl where
  name : Symbol
  kind : BindingKind
  binding : NodeId
  scope : NodeId
  deriving DecidableEq, Repr

instance : Inhabited Decl := ⟨⟨0, .function, 0, 0⟩⟩

namespace Arena

variable (a : Arena)

def scopeAround (n : NodeId) : NodeId :=
  ((a.ancestors n).find? fun p => (a.form p).isScope).getD n

def hoistAround (n : NodeId) : NodeId :=
  ((a.ancestors n).find? fun p =>
    match a.form p with
    | .function .. | .module _ => true
    | _ => false).getD n

def declaredPatterns (declarators : List NodeId) : List NodeId :=
  declarators.filterMap fun d =>
    match a.form d with
    | .declarator target _ => some target
    | _ => none

def introductions (n : NodeId) : List (NodeId × BindingKind × NodeId) :=
  match a.form n with
  | .function name params _ flags =>
    let owner := if flags.isDeclaration then a.scopeAround n else n
    (name.toList.map fun b => (b, .function, owner)) ++
      (params.flatMap a.patternBindings).map fun b => (b, .parameter, n)
  | .varDecl kind declarators =>
    let owner := if kind = .var then a.hoistAround n else a.scopeAround n
    ((a.declaredPatterns declarators).flatMap a.patternBindings).map fun b =>
      (b, .variable kind, owner)
  | .catchClause param _ =>
    (param.toList.flatMap a.patternBindings).map fun b => (b, .catchParameter, n)
  | .importSpecifier _ name => [(name, .imported, a.hoistAround n)]
  | _ => []

def allIntroductions : List (NodeId × BindingKind × NodeId) :=
  a.modules.toList.flatMap fun m => (a.descendants m.root).flatMap a.introductions

end Arena

def declared? (decls : Array Decl) (owner : NodeId) (name : Symbol) : Option DeclId :=
  decls.findIdx? fun d => d.scope = owner && d.name = name

namespace Arena

variable (a : Arena)

/-- Adds a declaration unless its owner has one of the name already. -/
def declare (decls : Array Decl) (intro : NodeId × BindingKind × NodeId) : Array Decl :=
  let (binding, kind, scope) := intro
  match a.form binding with
  | .binding name =>
    if (declared? decls scope name).isSome then decls else decls.push ⟨name, kind, binding, scope⟩
  | _ => decls

def declarations : Array Decl := a.allIntroductions.foldl a.declare #[]

end Arena

end ValueFlow
