import ValueFlow.Grammar
import ValueFlow.Scope
import ValueFlow.Token.Scan

/-!
# Programs

A program is a set of parsed modules with all their names resolved. It never
changes once it is built.

`Program.build` parses every module, also after one has failed, so that every
error is reported; a program results only if there is none.
-/

namespace ValueFlow

/-- The texts of modules, each with its path. -/
abbrev Sources := List (String × String)

/-- Parses one more module. The names met are kept in any case. -/
def Codebase.addModule (c : Codebase) (path source : String) : Except Report Unit × Codebase :=
  match scan source c.names with
  | (.error e, names) => (.error e.report, { c with names })
  | (.ok tokens, names) =>
    match parseModule source.utf8ByteSize tokens names with
    | (.error e, names) => (.error e.report, { c with names })
    | (.ok tree, names) =>
      (.ok (), ⟨c.arena.addModule path source tree, names,
        (Path.normalize path, c.arena.modules.size) :: c.paths⟩)

/-- Parses modules one after the other and collects the errors. -/
def Codebase.load (sources : Sources) : List Report × Codebase :=
  sources.foldl (fun (reports, c) (path, source) =>
    match c.addModule path source with
    | (.error report, c) => (reports ++ [report], c)
    | (.ok (), c) => (reports, c)) ([], .empty)

structure Program where
  code : Codebase
  scopes : Scopes

namespace Program

/-- The program of the given sources, or all the errors. -/
def build (sources : Sources) : Except (List Report) Program :=
  match Codebase.load sources with
  | ([], c) => .ok ⟨c, .ofCodebase c⟩
  | (reports, _) => .error reports

def arena (p : Program) : Arena := p.code.arena

def names (p : Program) : Names := p.code.names

def text (p : Program) (s : Symbol) : String := p.names.text s

end Program

end ValueFlow
