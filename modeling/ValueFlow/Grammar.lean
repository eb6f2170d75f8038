import ValueFlow.Grammar.Statements

/-!
# The grammar of modules

`parse` ties the rules of the grammar together, and `parseModule` parses a
whole module. Between two nested goals that take no token there are at most
three others, so four levels for each token are enough for any module.
-/

namespace ValueFlow

namespace Grammar

def rule (recur : Goal → Parser Tree) : Goal → Parser Tree
  | .statement => statement recur
  | .assignment => assignment recur
  | .binary level => binary recur level
  | .unary => unary recur
  | .construct => construct recur
  | .target => target recur

def parse : Nat → Goal → Parser Tree
  | 0, _ => Parser.failHere .nesting
  | fuel + 1, goal => rule (parse fuel) goal

def levels (tokens : List Token) : Nat := 4 * (tokens.length + 2)

/-- A module: statements up to the end. It spans the whole source. -/
def moduleBody (length levels : Nat) : Parser Tree := do
  let start ← Parser.peek
  let body ← Parser.repeatWhile (do return !(← Parser.atEnd)) (parse levels .statement)
  return .node ⟨start.line, 0, length⟩ (.module body)

end Grammar

/-- Parses the tokens of a source of the given length in bytes. The names met
are kept also when the module does not parse. -/
def parseModule (length : Nat) (tokens : Tokens) (names : Names) :
    Except ParseError Tree × Names :=
  let state : ParserState := ⟨[], tokens.items, tokens.finish, false, names⟩
  match Grammar.moduleBody length (Grammar.levels tokens.items) state with
  | .ok tree s => (.ok tree, s.names)
  | .error e s => (.error e, s.names)

end ValueFlow
