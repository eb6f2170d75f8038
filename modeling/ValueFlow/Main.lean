import ValueFlow.Listing

/-!
# The program

Reads the modules named on the command line and prints the listing. The exit
code is 0 if all went well, 1 if an error was reported, and 2 if there was
nothing to analyse.
-/

namespace ValueFlow

def readSources (files : List String) : IO (Except String Sources) := do
  let mut sources := #[]
  for file in files do
    try
      sources := sources.push (file, ← IO.FS.readFile file)
    catch e =>
      return .error ("Failed to read '" ++ file ++ "': " ++ toString e)
  return .ok sources.toList

def usage : String :=
  "Usage: flow [--m N] [--call NAME [--arg INDEX]] [--line LINE] [--entry FUNCTION]... " ++
    "[--stats] FILES..."

end ValueFlow

open ValueFlow

def main (args : List String) : IO UInt32 := do
  match CommandLine.parse args with
  | none =>
    IO.eprintln usage
    return 2
  | some options =>
    match ← readSources options.files with
    | .error message =>
      IO.eprintln message
      return 2
    | .ok sources =>
      match Listing.run sources options (.fresh .stream) with
      | some (ok, emitter) =>
        IO.print emitter.out
        IO.eprint emitter.err
        return if ok then 0 else 1
      | none =>
        IO.eprintln "The analysis does not settle."
        return 1
