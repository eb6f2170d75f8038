/-!
# Faults

What an analysis has to say besides values. An *error* is fatal: the query
that meets it has no answer, nor have those that read it. A *diagnostic* tells
of a construct that the analysis has no rule for; the construct contributes
no values and the analysis goes on.
-/

namespace ValueFlow

inductive AnalysisError
  | missingDeclaration (line : Nat) (label : String)
  /-- More than one builtin fits. -/
  | ambiguousBuiltin (line : Nat) (label : String) (candidates : List String)
  deriving DecidableEq, Repr

def AnalysisError.message : AnalysisError → String
  | .missingDeclaration line label =>
    "[line " ++ toString line ++ "] No declaration found for '" ++ label ++ "'."
  | .ambiguousBuiltin line label candidates =>
    "[line " ++ toString line ++ "] Ambiguous builtin for '" ++ label ++ "': " ++
      ", ".intercalate candidates ++ "."

structure Diagnostic where
  line : Nat
  label : String
  message : String
  deriving DecidableEq, Repr

/-- The written form of a diagnostic. -/
def Diagnostic.render (d : Diagnostic) : String :=
  "[line " ++ toString d.line ++ "] Unsupported '" ++ d.label ++ "': " ++ d.message

end ValueFlow
