import ValueFlow.Scope.Decl

/-!
# Exports

What the modules of a program export, and how an exported name is followed
through modules that pass it on. A later export of the same name takes the
place of an earlier one.

A chain of exports that pass a name on and never come to an end has no
target. Such a chain comes back to where it was within as many steps as there
are exports.
-/

namespace ValueFlow

inductive ExportName
  | default
  | named (name : Symbol)
  deriving DecidableEq, Repr

def ExportName.ofSymbol (names : Names) (name : Symbol) : ExportName :=
  if names.text name = "default" then .default else .named name

inductive Export
  | decl (id : DeclId)
  | expression (value : NodeId)
  | passedOn (module : ModuleId) (name : ExportName)
  | unresolved
  deriving DecidableEq, Repr

/-- The exports of all the modules, latest first. -/
abbrev Exports := List ((ModuleId × ExportName) × Export)

namespace Exports

def find? (exports : Exports) (module : ModuleId) (name : ExportName) : Option Export :=
  exports.lookup (module, name)

def followFrom (exports : Exports) : Nat → ModuleId → ExportName → Option Export
  | 0, _, _ => none
  | fuel + 1, module, name =>
    match exports.find? module name with
    | some (.passedOn other otherName) => exports.followFrom fuel other otherName
    | found => found

def follow? (exports : Exports) (module : ModuleId) (name : ExportName) : Option Export :=
  exports.followFrom (exports.length + 1) module name

end Exports

def Arena.exportsOf (a : Arena) (names : Names) (symbolAt : NodeId → Option DeclId)
    (resolve : String → Option ModuleId) (statement : NodeId) : List (ExportName × Export) :=
  let declared (binding : NodeId) : Option (ExportName × Export) :=
    match symbolAt binding, a.form binding with
    | some id, .binding name => some (.named name, .decl id)
    | _, _ => none
  match a.form statement with
  | .exportDecl decl =>
    match a.form decl with
    | .varDecl _ declarators =>
      ((a.declaredPatterns declarators).flatMap a.patternBindings).filterMap declared
    | .function name _ _ _ => name.toList.filterMap declared
    | _ => []
  | .exportDefault value => [(.default, .expression value)]
  | .exportNamed specifiers source =>
    specifiers.filterMap fun specifier =>
      match a.form specifier with
      | .exportSpecifier used exported =>
        let target : Export :=
          match source with
          | none =>
            match symbolAt used with
            | some id => .decl id
            | none => .unresolved
          | some source =>
            match resolve (names.text source), a.form used with
            | some other, .identifier name => .passedOn other (.ofSymbol names name)
            | _, _ => .unresolved
        some (.ofSymbol names exported, target)
      | _ => none
  | _ => []

end ValueFlow
