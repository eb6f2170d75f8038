import ValueFlow.Equations.Rhs
import ValueFlow.Fifo
import ValueFlow.PowerSet

/-!
# The solver

A memoizing work-list solver for equations whose right-hand sides are
programs. Queries are numbered when they are first touched; each has a cell
with its current value, the queries that read it, and how it failed if it
did. The first touch sets the value to bottom and queues the query.

Reading never evaluates in place: the reader sees the current value and is
queued again when the value grows. The work list is first in, first out, and
this matters, because right-hand sides need not be monotone.

A failed evaluation marks its query and everything that transitively read
it; their values would be incomplete. A failed query stays failed.

Reports belong to the latest evaluation of their query: an evaluation starts
by dropping the reports of the one before.

* `Solver.touch`, `Solver.pushFact` change the table from outside.
* `Solver.execute` runs a right-hand side, `Solver.step` one queued query.
* `Solver.drain` steps until the work list is empty, `Solver.valueOf` asks
  for one value.
-/

namespace ValueFlow

/-- What a solver knows about one query. -/
structure Cell (V E N : Type) where
  /-- The value so far. -/
  value : V
  /-- Why the query has no value, if it failed. -/
  failure : Option E
  readers : PowerSet Nat
  /-- Whether the query is on the work list. -/
  queued : Bool
  /-- The reports of the latest evaluation, oldest first. -/
  reports : List N
  reportedAt : Option Nat

/-- The state of a solver. -/
structure Solver (Q V E N T : Type) where
  queries : Numbering Q
  cells : Array (Cell V E N)
  worklist : Fifo Nat
  /-- The numbers of the queries evaluated so far, the latest first. -/
  history : List Nat
  /-- How often a value in the table grew. -/
  updates : Nat
  /-- The clock of first reports. -/
  clock : Nat
  things : Numbering T

/-- How the run of a right-hand side ended. -/
inductive Verdict (E α : Type)
  | value (result : α)
  | failed (error : E)
  | diverged

/-- What one step of a solver came to. -/
inductive Progress (S : Type)
  | settled
  | moved (next : S)
  | diverged

namespace Solver

variable {Q V E N T α : Type}

/-- The solver that has seen no query. -/
def empty : Solver Q V E N T := ⟨.empty, #[], .empty, [], 0, 0, .empty⟩

instance : Inhabited (Solver Q V E N T) := ⟨empty⟩

/-- Whether the work list is empty. -/
def isStable (s : Solver Q V E N T) : Bool := s.worklist.isEmpty

/-- How many right-hand sides were evaluated. -/
def evaluations (s : Solver Q V E N T) : Nat := s.history.length

def modifyCell (s : Solver Q V E N T) (i : Nat) (f : Cell V E N → Cell V E N) : Solver Q V E N T :=
  { s with cells := s.cells.modify i f }

/-- Puts a query at the end of the work list, unless it is there already. -/
def enqueue (s : Solver Q V E N T) (i : Nat) : Solver Q V E N T :=
  match s.cells[i]? with
  | some cell =>
    if cell.queued then s
    else
      let s := s.modifyCell i ({ · with queued := true })
      { s with worklist := s.worklist.push i }
  | none => s

def enqueueReaders (s : Solver Q V E N T) (i : Nat) : Solver Q V E N T :=
  match s.cells[i]? with
  | some cell => cell.readers.elems.foldl enqueue s
  | none => s

/-! ## Failure -/

/-- Marks the pending queries and everything that transitively read them.
Each step takes one query off the pending list; a query is expanded once, so
one step for each recorded read and one for the start are enough. -/
def spread (error : E) : Nat → List Nat → Solver Q V E N T → Solver Q V E N T
  | _, [], s => s
  | 0, _ :: _, s => s
  | fuel + 1, i :: pending, s =>
    match s.cells[i]? with
    | some { failure := none, readers, .. } =>
      spread error fuel (readers.elems ++ pending) (s.modifyCell i ({ · with failure := some error }))
    | _ => spread error fuel pending s

/-- How many reads are recorded in the table. -/
def readCount (s : Solver Q V E N T) : Nat :=
  s.cells.foldl (fun n cell => n + cell.readers.size) 0

def fail (s : Solver Q V E N T) (i : Nat) (error : E) : Solver Q V E N T :=
  spread error (s.readCount + 1) [i] s

/-! ## Reports -/

/-- Attaches a report to a query. The same report is kept once. -/
def report [DecidableEq N] (s : Solver Q V E N T) (i : Nat) (n : N) : Solver Q V E N T :=
  match s.cells[i]? with
  | some cell =>
    let now := s.clock
    let s := s.modifyCell i fun c =>
      { c with
        reports := if n ∈ c.reports then c.reports else c.reports ++ [n]
        reportedAt := c.reportedAt <|> some now }
    if cell.reportedAt.isNone then { s with clock := now + 1 } else s
  | none => s

/-- Drops the reports of the previous evaluation of a query. -/
def clearReports (s : Solver Q V E N T) (i : Nat) : Solver Q V E N T :=
  s.modifyCell i ({ · with reports := [] })

/-- The reports in the table, without duplicates. Queries come in the order
of their first reports. -/
def reports [DecidableEq N] (s : Solver Q V E N T) : List N :=
  let reporting := s.cells.toList.filter (·.reportedAt.isSome)
  firstOccurrences <|
    (sortBy (fun c d => c.reportedAt.getD 0 ≤ d.reportedAt.getD 0) reporting).flatMap Cell.reports

/-- Forgets all the reports and the order they came in. -/
def dropReports (s : Solver Q V E N T) : Solver Q V E N T :=
  { s with
    cells := s.cells.map ({ · with reports := [], reportedAt := none })
    clock := 0 }

/-! ## The table -/

variable [DecidableEq Q] [Fingerprint Q] [Lattice V]

def enroll (s : Solver Q V E N T) (q : Q) (v : V) : Solver Q V E N T :=
  let i := s.queries.size
  { s with
    queries := s.queries.append q
    cells := s.cells.push ⟨v, none, .empty, true, [], none⟩
    worklist := s.worklist.push i }

def touch (s : Solver Q V E N T) (q : Q) : Nat × Solver Q V E N T :=
  match s.queries.find? q with
  | some i => (i, s)
  | none => (s.queries.size, s.enroll q Lattice.bottom)

/-- The current value of a query, if it was touched. -/
def cached (s : Solver Q V E N T) (q : Q) : Option V := do
  let i ← s.queries.find? q
  return (← s.cells[i]?).value

/-- Why a query failed, if it did. -/
def failure (s : Solver Q V E N T) (q : Q) : Option E := do
  let i ← s.queries.find? q
  (← s.cells[i]?).failure

def current (s : Solver Q V E N T) (i : Nat) : Except E V :=
  match s.cells[i]? with
  | some { failure := some error, .. } => .error error
  | some { value, .. } => .ok value
  | none => .ok Lattice.bottom

/-- Joins a value into the cell of a touched query. Its readers are queued if
it grew. The flag says whether it did. -/
def absorb (s : Solver Q V E N T) (i : Nat) (v : V) : Bool × Solver Q V E N T :=
  match s.cells[i]? with
  | some cell =>
    match Lattice.absorb cell.value v with
    | (joined, true) =>
      let s := s.modifyCell i ({ · with value := joined })
      (true, { s with updates := s.updates + 1 }.enqueueReaders i)
    | (_, false) => (false, s)
  | none => (false, s)

/-- Joins a fact into the value of a query. A query that was never touched
starts with the fact and is queued. A failed query takes no facts. The flag
says whether the table changed. -/
def pushFact (s : Solver Q V E N T) (q : Q) (v : V) : Bool × Solver Q V E N T :=
  match s.queries.find? q with
  | none => (true, s.enroll q v)
  | some i =>
    match s.current i with
    | .error _ => (false, s)
    | .ok _ => s.absorb i v

/-- Records that the query `reader` read the query `i`. -/
def addReader (s : Solver Q V E N T) (i reader : Nat) : Solver Q V E N T :=
  s.modifyCell i fun c => { c with readers := c.readers.insert reader }

/-! ## Running -/

variable [DecidableEq N] [DecidableEq T] [Fingerprint T]

def numberThing (s : Solver Q V E N T) (t : T) : Nat × Solver Q V E N T :=
  let (i, things) := s.things.number t
  (i, { s with things })

/-- Runs a program on behalf of the query `reader`. -/
def execute (reader : Nat) : Rhs Q V E N T α → Solver Q V E N T → Verdict E α × Solver Q V E N T
  | .done a, s => (.value a, s)
  | .fail e, s => (.failed e, s)
  | .diverge, s => (.diverged, s)
  | .read q next, s =>
    let (i, s) := s.touch q
    let s := s.addReader i reader
    match s.current i with
    | .error e => (.failed e, s)
    | .ok v => execute reader (next v) s
  | .push q v next, s => execute reader next (s.pushFact q v).2
  | .note n next, s => execute reader next (s.report reader n)
  | .number t next, s =>
    let (i, s) := s.numberThing t
    execute reader (next i) s

/-- Evaluates the query with number `i` once. -/
def evaluate (rhs : Q → Rhs Q V E N T V) (s : Solver Q V E N T) (i : Nat) (q : Q) :
    Progress (Solver Q V E N T) :=
  let s := { s with history := i :: s.history }
  match execute i (rhs q) (s.clearReports i) with
  | (.value v, s) => .moved (s.absorb i v).2
  | (.failed e, s) => .moved (s.fail i e)
  | (.diverged, _) => .diverged

/-- Takes the first query off the work list and evaluates it, unless it has
failed already. -/
def step (rhs : Q → Rhs Q V E N T V) (s : Solver Q V E N T) : Progress (Solver Q V E N T) :=
  match s.worklist.pop? with
  | none => .settled
  | some (i, worklist) =>
    let s := { s with worklist }.modifyCell i ({ · with queued := false })
    match s.current i, s.queries.get? i with
    | .ok _, some q => s.evaluate rhs i q
    | _, _ => .moved s

/-- Steps until the work list is empty, for at most `fuel` steps. -/
def drain (rhs : Q → Rhs Q V E N T V) : Nat → Solver Q V E N T → Option (Solver Q V E N T)
  | 0, s => if s.isStable then some s else none
  | fuel + 1, s =>
    match s.step rhs with
    | .settled => some s
    | .moved s => drain rhs fuel s
    | .diverged => none

/-- An allowance of steps that no run gets near. -/
def ample : Nat := 1000000000000

/-- Solves a query and everything it depends on. There is no answer if the
equations do not settle. -/
def valueOf (rhs : Q → Rhs Q V E N T V) (s : Solver Q V E N T) (q : Q) :
    Option (Except E V × Solver Q V E N T) := do
  let (i, s) := s.touch q
  let s ← s.drain rhs ample
  return (s.current i, s)

end Solver

end ValueFlow
