import ValueFlow.Ast.Form

/-!
# Operators

Which tokens are operators and how tightly they bind. Binary and logical
operators share one scale of levels; a higher level binds tighter. All of
them associate to the left but `**`.
-/

namespace ValueFlow

/-- An operator between two operands. -/
inductive Operator
  | binary (op : BinaryOp)
  | logical (op : LogicalOp)
  deriving DecidableEq, Repr

namespace Operator

def ofToken? : TokenValue → Option Operator
  | .keyword .inKw => some (.binary .isIn)
  | .keyword .instanceof => some (.binary .isInstance)
  | .punct mark =>
    match mark with
    | .pipePipe => some (.logical .or)
    | .questionQuestion => some (.logical .nullish)
    | .ampAmp => some (.logical .and)
    | .pipe => some (.binary .bitOr)
    | .caret => some (.binary .bitXor)
    | .amp => some (.binary .bitAnd)
    | .eqEq => some (.binary .eq)
    | .bangEq => some (.binary .notEq)
    | .eqEqEq => some (.binary .strictEq)
    | .bangEqEq => some (.binary .strictNotEq)
    | .less => some (.binary .less)
    | .greater => some (.binary .greater)
    | .lessEq => some (.binary .lessEq)
    | .greaterEq => some (.binary .greaterEq)
    | .shiftLeft => some (.binary .shiftLeft)
    | .shiftRight => some (.binary .shiftRight)
    | .shiftRightUnsigned => some (.binary .shiftRightUnsigned)
    | .plus => some (.binary .add)
    | .minus => some (.binary .sub)
    | .star => some (.binary .mul)
    | .slash => some (.binary .div)
    | .percent => some (.binary .mod)
    | .starStar => some (.binary .exp)
    | _ => none
  | _ => none

/-- How tightly an operator binds. -/
def level : Operator → Nat
  | logical .or | logical .nullish => 1
  | logical .and => 2
  | binary .bitOr => 3
  | binary .bitXor => 4
  | binary .bitAnd => 5
  | binary .eq | binary .notEq | binary .strictEq | binary .strictNotEq => 6
  | binary .less | binary .greater | binary .lessEq | binary .greaterEq
  | binary .isInstance | binary .isIn => 7
  | binary .shiftLeft | binary .shiftRight | binary .shiftRightUnsigned => 8
  | binary .add | binary .sub => 9
  | binary .mul | binary .div | binary .mod => 10
  | binary .exp => 11

def rightLevel (o : Operator) : Nat :=
  if o = binary .exp then o.level else o.level + 1

/-- The construct of two operands. -/
def form {α : Type} : Operator → α → α → Form α
  | binary op, lhs, rhs => .binary op lhs rhs
  | logical op, lhs, rhs => .logical op lhs rhs

end Operator

/-- The operators in front of an operand. -/
def UnaryOp.ofToken? : TokenValue → Option UnaryOp
  | .punct .bang => some .not
  | .punct .minus => some .neg
  | .punct .plus => some .plus
  | .punct .tilde => some .bitNot
  | .keyword .typeof => some .typeof
  | .keyword .void => some .void
  | .keyword .delete => some .delete
  | _ => none

/-- The assignment operators. -/
def AssignOp.ofToken? : TokenValue → Option AssignOp
  | .punct mark =>
    match mark with
    | .assign => some .plain
    | .plusAssign => some (.arithmetic .add)
    | .minusAssign => some (.arithmetic .sub)
    | .starAssign => some (.arithmetic .mul)
    | .starStarAssign => some (.arithmetic .exp)
    | .slashAssign => some (.arithmetic .div)
    | .percentAssign => some (.arithmetic .mod)
    | .ampAssign => some (.arithmetic .bitAnd)
    | .pipeAssign => some (.arithmetic .bitOr)
    | .caretAssign => some (.arithmetic .bitXor)
    | .shiftLeftAssign => some (.arithmetic .shiftLeft)
    | .shiftRightAssign => some (.arithmetic .shiftRight)
    | .shiftRightUnsignedAssign => some (.arithmetic .shiftRightUnsigned)
    | .ampAmpAssign => some (.logical .and)
    | .pipePipeAssign => some (.logical .or)
    | .questionQuestionAssign => some (.logical .nullish)
    | _ => none
  | _ => none

end ValueFlow
