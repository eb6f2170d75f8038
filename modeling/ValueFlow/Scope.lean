import ValueFlow.Scope.Exports
import ValueFlow.Text.Path

/-!
# Names and what they refer to

A name refers to the declaration of that name owned by the nearest node around
it. An imported name refers to what its module exports under the name, and if
that is imported again, to what that refers to, as far as it goes.

* `Codebase` holds the parsed modules with their paths.
* `Scopes.ofCodebase` resolves every name of a codebase once and for all.
-/

namespace ValueFlow

/-- Parsed modules that share one arena and one table of names. -/
structure Codebase where
  arena : Arena
  names : Names
  /-- The modules by the normal forms of their paths, latest first. -/
  paths : List (String × ModuleId)

namespace Codebase

def empty : Codebase := ⟨.empty, .empty, []⟩

def moduleAt? (c : Codebase) (path : String) : Option ModuleId :=
  c.paths.lookup (Path.normalize path)

/-- The module that an import specifier leads to, seen from the module
`importer`. The names of packages lead nowhere. -/
def resolve? (c : Codebase) (importer : ModuleId) (specifier : String) : Option ModuleId := do
  let path ← Path.target? (c.arena.modules.getD importer default).path specifier
  c.paths.lookup path <|> c.paths.lookup (path ++ "/index")

/-- The declaration that a name or a binding belongs to. -/
def resolveName (c : Codebase) (decls : Array Decl) (n : NodeId) : Option DeclId :=
  match c.arena.form n with
  | .identifier name => (c.arena.ancestors n).findSome? fun p => declared? decls p name
  | _ => none

end Codebase

inductive ImportTarget
  | decl (id : DeclId)
  | expression (value : NodeId)
  /-- A module as a whole. -/
  | module (module : ModuleId)
  /-- A package, or a name that the module does not export. -/
  | external
  deriving DecidableEq, Repr

structure Scopes where
  decls : Array Decl
  symbols : Array (Option DeclId)
  /-- The references of each declaration, in the order of their numbers. -/
  references : Array (List NodeId)
  exports : Exports
  imports : Array (Option ImportTarget)

namespace Scopes

def bindingSymbols (c : Codebase) (decls : Array Decl) : Array (Option DeclId) :=
  c.arena.allIntroductions.foldl (fun symbols (binding, _, owner) =>
    match c.arena.form binding with
    | .binding name => symbols.set! binding (declared? decls owner name)
    | _ => symbols) (Array.replicate c.arena.size none)

def allSymbols (c : Codebase) (decls : Array Decl) : Array (Option DeclId) :=
  c.arena.nodeIds.foldl (fun symbols n =>
    match c.resolveName decls n with
    | some id => symbols.set! n (some id)
    | none => symbols) (bindingSymbols c decls)

def allReferences (c : Codebase) (decls : Array Decl) : Array (List NodeId) :=
  c.arena.nodeIds.reverse.foldl (fun references n =>
    match c.resolveName decls n with
    | some id => references.modify id (n :: ·)
    | none => references) (Array.replicate decls.size [])

/-- The exports of all the modules, latest first. -/
def allExports (c : Codebase) (symbols : Array (Option DeclId)) : Exports :=
  let ofModule (module : ModuleId) : List ((ModuleId × ExportName) × Export) :=
    match c.arena.form (c.arena.modules.getD module default).root with
    | .module body =>
      (body.flatMap (c.arena.exportsOf c.names (fun n => symbols.getD n none)
        (c.resolve? module))).map fun (name, target) => ((module, name), target)
    | _ => []
  ((List.range c.arena.modules.size).flatMap ofModule).reverse

def importSource? (c : Codebase) (binding : NodeId) : Option (ModuleId × Option ExportName) := do
  let specifier ← c.arena.parent? binding
  let .importSpecifier kind _ := c.arena.form specifier | none
  let .importDecl _ source := c.arena.form (← c.arena.parent? specifier) | none
  let module ← c.resolve? (c.arena.node specifier).home (c.names.text source)
  match kind with
  | .whole => return (module, none)
  | .named name => return (module, some (.named name))
  | .default => return (module, some .default)

def followImport (c : Codebase) (decls : Array Decl) (exports : Exports) :
    Nat → NodeId → ImportTarget
  | 0, _ => .external
  | fuel + 1, binding =>
    match importSource? c binding with
    | none => .external
    | some (module, none) => .module module
    | some (module, some name) =>
      match exports.follow? module name with
      | some (.decl id) =>
        let decl := decls.getD id default
        if decl.kind = .imported then followImport c decls exports fuel decl.binding
        else .decl id
      | some (.expression value) => .expression value
      | _ => .external

/-- Resolves every name. -/
def ofCodebase (c : Codebase) : Scopes :=
  let decls := c.arena.declarations
  let symbols := allSymbols c decls
  let exports := allExports c symbols
  let imports := decls.map fun d =>
    if d.kind = .imported then some (followImport c decls exports (decls.size + 1) d.binding)
    else none
  ⟨decls, symbols, allReferences c decls, exports, imports⟩

variable (s : Scopes)

def decl (id : DeclId) : Decl := s.decls.getD id default

/-- The declaration of a name or a binding. -/
def symbolAt (n : NodeId) : Option DeclId := s.symbols.getD n none

/-- The occurrences of a declaration that do not define it, assigned ones
included. -/
def referencesOf (id : DeclId) : List NodeId := s.references.getD id []

def importTarget (id : DeclId) : ImportTarget := (s.imports.getD id none).getD .external

def importersOf (target : ImportTarget) : List DeclId :=
  (List.range s.decls.size).filter fun id => s.imports.getD id none = some target

def exportTarget (names : Names) (module : ModuleId) (name : String) : ImportTarget :=
  let name? : Option ExportName :=
    if name = "default" then some .default else (names.find? name).map .named
  match name?.bind (s.exports.follow? module) with
  | some (.decl id) => if (s.decl id).kind = .imported then s.importTarget id else .decl id
  | some (.expression value) => .expression value
  | _ => .external

end Scopes

end ValueFlow
