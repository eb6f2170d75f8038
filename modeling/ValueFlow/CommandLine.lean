/-!
# The command line

Reads the arguments of the command line into `Options`. Options can stand
anywhere among the files, take their value behind `=` or as the next argument,
and may be given once; only `--entry` may be repeated. After `--` every
argument is a file.
-/

namespace ValueFlow

/-- What the command line asks for. -/
structure Options where
  /-- How many call sites a context keeps. -/
  bound : Nat := 1
  call : Option String := none
  /-- Only the arguments at this position. -/
  argument : Option Nat := none
  /-- Only expressions on this line. -/
  line : Option Nat := none
  /-- Functions to analyse with unknown arguments. -/
  entries : List String := []
  /-- Whether to print how much work was done. -/
  stats : Bool := false
  files : List String := []
  deriving DecidableEq, Repr

namespace CommandLine

/-- The options that take a value. -/
inductive Key
  | bound | call | argument | line | entry
  deriving DecidableEq, Repr

def Key.ofName? : String → Option Key
  | "m" => some .bound
  | "call" => some .call
  | "arg" => some .argument
  | "line" => some .line
  | "entry" => some .entry
  | _ => none

/-- What was given so far. -/
structure Given where
  bound : Option Nat := none
  call : Option String := none
  argument : Option Nat := none
  line : Option Nat := none
  entries : List String := []
  stats : Bool := false
  files : List String := []

/-- A decimal number below `limit`. A plus sign may stand before it. -/
def number? (limit : Nat) (text : String) : Option Nat :=
  let digits := match text.toList with
    | '+' :: rest => rest
    | cs => cs
  if digits ≠ [] && digits.all Char.isDigit then
    let n := digits.foldl (fun n c => 10 * n + (c.toNat - 48)) 0
    if n < limit then some n else none
  else none

/-- Fills a place that may be filled once. -/
def once {α : Type} : Option α → Option α → Option (Option α)
  | none, some a => some (some a)
  | _, _ => none

def Given.set (g : Given) (key : Key) (value : String) : Option Given :=
  match key with
  | .bound => do return { g with bound := ← once g.bound (number? UInt64.size value) }
  | .call => do return { g with call := ← once g.call (some value) }
  | .argument => do return { g with argument := ← once g.argument (number? UInt64.size value) }
  | .line => do return { g with line := ← once g.line (number? UInt32.size value) }
  | .entry => some { g with entries := g.entries ++ [value] }

/-- The sorts of arguments. -/
inductive Argument
  /-- From here on there are only files. -/
  | onlyFiles
  | stats
  | separate (key : Key)
  | attached (key : Key) (value : String)
  | file
  | unknown

/-- Whether an argument looks like an option. A single `-` does not. -/
def isDashed (arg : String) : Bool :=
  match arg.toList with
  | '-' :: _ :: _ => true
  | _ => false

def Argument.ofText (arg : String) : Argument :=
  match arg.toList with
  | ['-', '-'] => .onlyFiles
  | '-' :: '-' :: rest =>
    let name := String.ofList (rest.takeWhile (· ≠ '='))
    match Key.ofName? name, rest.dropWhile (· ≠ '=') with
    | some key, [] => .separate key
    | some key, _ :: value => .attached key (String.ofList value)
    | none, [] => if name = "stats" then .stats else .unknown
    | none, _ => .unknown
  | _ => if isDashed arg then .unknown else .file

/-- Takes the arguments one after the other. -/
def read : List String → Given → Option Given
  | [], g => some g
  | arg :: rest, g =>
    match Argument.ofText arg with
    | .onlyFiles => some { g with files := g.files ++ rest }
    | .stats => if g.stats then none else read rest { g with stats := true }
    | .attached key value => (g.set key value).bind (read rest)
    | .separate key =>
      match rest with
      | value :: rest => if isDashed value then none else (g.set key value).bind (read rest)
      | [] => none
    | .file => read rest { g with files := g.files ++ [arg] }
    | .unknown => none

/-- The options of a command line. There are none if it is malformed, if it
names no file, or if it gives a position without a call. -/
def parse (args : List String) : Option Options := do
  let g ← read args {}
  if g.files.isEmpty then none
  if g.argument.isSome && g.call.isNone then none
  return { bound := g.bound.getD 1, call := g.call, argument := g.argument, line := g.line,
           entries := g.entries, stats := g.stats, files := g.files }

end CommandLine

end ValueFlow
