/-!
# Module paths

Modules are found by a normal form of their paths: forward slashes, no empty
and no `.` segments, `..` resolved as far as there is a segment to leave, and
no extension of a source file.

An import names a module by a *specifier*. Specifiers that start with `./`,
`../` or `/` are paths; the first two are taken from the directory of the
importing module. All others are names of packages and lead to no module.
-/

namespace ValueFlow.Path

/-- The extensions of source files. -/
def extensions : List (List Char) :=
  [".js".toList, ".mjs".toList, ".cjs".toList, ".jsx".toList, ".ts".toList, ".tsx".toList]

/-- The text with every backslash written as a slash. -/
def slashes (cs : List Char) : List Char := cs.map fun c => if c = '\\' then '/' else c

/-- The segments between the slashes of a text. -/
def segments : List Char → List (List Char)
  | [] => [[]]
  | c :: cs =>
    match segments cs with
    | [] => [[]]
    | s :: rest => if c = '/' then [] :: s :: rest else (c :: s) :: rest

/-- Adds a segment to a path whose segments are listed last first. -/
def enter (above : List (List Char)) (segment : List Char) : List (List Char) :=
  if segment = [] ∨ segment = ['.'] then above
  else if segment = ['.', '.'] then
    match above with
    | last :: rest => if last = ['.', '.'] then segment :: above else rest
    | [] => [segment]
  else segment :: above

/-- Cuts the extension of a source file off the end of a text. -/
def dropExtension (cs : List Char) : List Char :=
  match extensions.find? (·.isSuffixOf cs) with
  | some extension => cs.take (cs.length - extension.length)
  | none => cs

def normalForm (cs : List Char) : List Char :=
  let kept := ((segments (slashes cs)).foldl enter []).reverse
  dropExtension (['/'].intercalate kept)

def normalize (path : String) : String := String.ofList (normalForm path.toList)

/-- The part of a path before its last slash; nothing if it has none. -/
def directory (path : String) : String :=
  let back := (slashes path.toList).reverse
  String.ofList ((back.dropWhile (· ≠ '/')).drop 1).reverse

def isRelative (specifier : String) : Bool :=
  "./".toList.isPrefixOf specifier.toList || "../".toList.isPrefixOf specifier.toList

def isAbsolute (specifier : String) : Bool := "/".toList.isPrefixOf specifier.toList

/-- The normal form of the path that an import specifier names, seen from the
module at `importer`. -/
def target? (importer specifier : String) : Option String :=
  if isAbsolute specifier then some (normalize specifier)
  else if isRelative specifier then some (normalize (directory importer ++ "/" ++ specifier))
  else none

end ValueFlow.Path
