/-!
# Right-hand sides

The right-hand side of an equation is a program that reads the values of
other queries and ends in a value of its own. Here it is *data*: a tree of
requests, each with the continuation that takes the answer. A solver runs
such a tree against its memo table, and the theory replays the same tree
against any table it likes.

The requests are

* `read q`: the current value of the query `q`;
* `push q v`: the fact that `v` is below the value of `q`;
* `note n`: a report about the query being evaluated;
* `number t`: the number of `t` in order of first appearance.

A right-hand side ends with a result, with an error, or not at all
(`diverge`): a recursion that exceeded its allowance gives no answer, which
is not the same as an error.
-/

namespace ValueFlow

inductive Rhs (Q V E N T α : Type) : Type
  | done (result : α)
  | fail (error : E)
  | diverge
  | read (query : Q) (next : V → Rhs Q V E N T α)
  | push (query : Q) (value : V) (next : Rhs Q V E N T α)
  | note (report : N) (next : Rhs Q V E N T α)
  | number (thing : T) (next : Nat → Rhs Q V E N T α)

namespace Rhs

variable {Q V E N T α β γ : Type}

/-- Continues with `f` where the first program ends with a result. -/
def bind : Rhs Q V E N T α → (α → Rhs Q V E N T β) → Rhs Q V E N T β
  | done a, f => f a
  | fail e, _ => fail e
  | diverge, _ => diverge
  | read q next, f => read q fun v => (next v).bind f
  | push q v next, f => push q v (next.bind f)
  | note n next, f => note n (next.bind f)
  | number t next, f => number t fun i => (next i).bind f

instance : Monad (Rhs Q V E N T) where
  pure := done
  bind := bind

theorem bind_done (p : Rhs Q V E N T α) : p.bind done = p := by
  induction p with
  | done | fail | diverge => rfl
  | read q next ih => exact congrArg (read q) (funext ih)
  | push q v next ih => exact congrArg (push q v) ih
  | note n next ih => exact congrArg (note n) ih
  | number t next ih => exact congrArg (number t) (funext ih)

theorem bind_assoc (p : Rhs Q V E N T α) (f : α → Rhs Q V E N T β) (g : β → Rhs Q V E N T γ) :
    (p.bind f).bind g = p.bind fun a => (f a).bind g := by
  induction p with
  | done | fail | diverge => rfl
  | read q next ih => exact congrArg (read q) (funext ih)
  | push q v next ih => exact congrArg (push q v) ih
  | note n next ih => exact congrArg (note n) ih
  | number t next ih => exact congrArg (number t) (funext ih)

instance : LawfulMonad (Rhs Q V E N T) :=
  LawfulMonad.mk' (Rhs Q V E N T) bind_done (fun _ _ => rfl) bind_assoc

end Rhs

end ValueFlow
