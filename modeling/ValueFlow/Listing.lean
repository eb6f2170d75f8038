import ValueFlow.CommandLine
import ValueFlow.Session

/-!
# Listings

What the command line prints: one line for each selected expression with the
labels of its values, in source order.

* `Arena.points` selects the expressions.
* `Listing.run` analyses sources and writes the lines, the diagnostics and the
  errors to an emitter.
-/

namespace ValueFlow

namespace Arena

variable (a : Arena)

/-- What a node contributes to the selection: the arguments of a call that is
asked for; without such a wish, the expression of a statement or the
initializer of a declarator. -/
def candidates (o : Options) (n : NodeId) : List NodeId :=
  match o.call with
  | some name =>
    match (a.form n).callParts? with
    | some (callee, arguments) =>
      if name.toList.isSuffixOf (a.text callee) then
        match o.argument with
        | some position => arguments[position]?.toList
        | none => arguments
      else []
    | none => []
  | none =>
    match a.form n with
    | .exprStmt expr => [expr]
    | .declarator _ (some init) => [init]
    | _ => []

def onLine (o : Options) (n : NodeId) : Bool := o.line.all (· = (a.node n).span.line)

/-- Whether a node starts no later than another, in the order of modules. -/
def startsBefore (m n : NodeId) : Bool :=
  let m := a.node m
  let n := a.node n
  m.home < n.home || (m.home = n.home && m.span.start ≤ n.span.start)

/-- The selected expressions in source order. -/
def points (o : Options) : List NodeId :=
  dropRepeats (sortBy a.startsBefore ((a.nodeIds.flatMap (a.candidates o)).filter (a.onLine o)))

end Arena

def Program.functionsNamed (p : Program) (name : String) : List NodeId :=
  p.arena.nodeIds.filter fun n =>
    p.arena.isFunction n && (p.arena.functionName? n).map p.text = some name

def Program.entryFunctions (p : Program) : List String → Except String (List NodeId)
  | [] => .ok []
  | name :: names =>
    match p.functionsNamed name with
    | [] => .error name
    | found => do return found ++ (← p.entryFunctions names)

namespace Listing

/-- The line of an expression with the labels of its values. -/
def line (p : Program) (n : NodeId) (labels : List String) : String :=
  let path := if p.arena.modules.size > 1 then (p.arena.moduleOf n).path ++ ":" else ""
  path ++ (p.arena.location n).render ++ " " ++ p.arena.label n ++
    " = \x7b" ++ ", ".intercalate labels ++ "\x7d"

/-- How a listing goes on from expression to expression. -/
structure Progress where
  session : Session
  emitter : Emitter
  failed : Bool

/-- Evaluates one expression and writes its line or its error. -/
def evaluate (s : Progress) (n : NodeId) : Option Progress := do
  let (config, session) := s.session.topLevel n
  match ← session.solve ⟨.evaluate, config⟩ with
  | (.ok values, session) =>
    let text := line session.world.program n (session.labels values)
    return { s with session, emitter := s.emitter.printLine text }
  | (.error e, session) =>
    return ⟨session, s.emitter.complainLine e.message, true⟩

/-- The line on the work done. -/
def statsLine (stats : Stats) : String :=
  "evaluations: " ++ toString stats.evaluations ++ ", updates: " ++ toString stats.updates ++
    ", queries: " ++ toString stats.queries

/-- Lists the selected expressions of a program. The flag says whether all of
them could be evaluated. -/
def ofProgram (p : Program) (o : Options) (targets : List NodeId) (emitter : Emitter) :
    Option (Bool × Emitter) := do
  let session := Session.start ⟨p, .standard, o.bound, targets⟩
  let s ← (p.arena.points o).foldlM evaluate ⟨session, emitter, false⟩
  let (diagnostics, session) := s.session.takeDiagnostics
  let emitter := diagnostics.foldl (fun e d => e.complainLine d.render) s.emitter
  let emitter := if o.stats then emitter.printLine (statsLine session.stats) else emitter
  return (!s.failed, emitter)

/-- Analyses sources, each with its path, and lists the selected expressions.
The flag says whether all went well; there is no result if the analysis does
not settle. -/
def run (sources : Sources) (o : Options) (emitter : Emitter) :
    Option (Bool × Emitter) :=
  match Program.build sources with
  | .error reports => some (false, reports.foldl Emitter.report emitter)
  | .ok p =>
    match p.entryFunctions o.entries with
    | .error name => some (false, emitter.complainLine ("No function named '" ++ name ++ "'."))
    | .ok targets => ofProgram p o targets emitter

end Listing

end ValueFlow
