import ValueFlow.Context

/-!
# Environments

An environment holds one context for each function enclosing a program point,
the innermost first, and one more for the module level. It is never empty:
the type has the head apart.

`Env.toList` is the view; `cons`, `extend`, `dropInner` and `replace` are the
list operations of their names on it.
-/

namespace ValueFlow

/-- A non-empty stack of contexts. The head belongs to the innermost function. -/
structure Env where
  head : Context
  outer : List Context
  deriving DecidableEq, Repr

namespace Env

/-- The environment of the module level. -/
def root : Env := ⟨.stackBottom, []⟩

instance : Inhabited Env := ⟨root⟩

/-- The contexts, the innermost first. -/
def toList (e : Env) : List Context := e.head :: e.outer

/-- The environment with the given contexts. There is none without contexts. -/
def ofList? : List Context → Option Env
  | [] => none
  | c :: cs => some ⟨c, cs⟩

/-- The number of contexts. -/
def depth (e : Env) : Nat := e.outer.length + 1

def cons (c : Context) (e : Env) : Env := ⟨c, e.toList⟩

/-- Adds contexts inside; the first of them becomes the head. -/
def extend : List Context → Env → Env
  | [], e => e
  | c :: cs, e => ⟨c, cs ++ e.toList⟩

def dropInner : Env → Nat → Env
  | e, 0 => e
  | ⟨c, []⟩, _ + 1 => ⟨c, []⟩
  | ⟨_, d :: outer⟩, n + 1 => dropInner ⟨d, outer⟩ n

def replace? (e : Env) (index : Nat) (c : Context) : Option Env :=
  if index < e.depth then ofList? (e.toList.set index c) else none

/-- The environment with its head replaced. -/
def withHead (e : Env) (c : Context) : Env := ⟨c, e.outer⟩

@[simp] theorem toList_cons (c : Context) (e : Env) : (e.cons c).toList = c :: e.toList := rfl

@[simp] theorem toList_extend (cs : List Context) (e : Env) :
    (extend cs e).toList = cs ++ e.toList := by
  cases cs <;> simp [extend, toList]

@[simp] theorem length_toList (e : Env) : e.toList.length = e.depth := by
  simp [toList, depth]

/-- Dropping inner contexts is `drop` on the view, as long as one stays. -/
theorem toList_dropInner (e : Env) (n : Nat) :
    (e.dropInner n).toList = e.toList.drop (min n (e.depth - 1)) := by
  induction n generalizing e with
  | zero => simp [dropInner]
  | succ n ih =>
    match e with
    | ⟨c, []⟩ => simp [dropInner, depth]
    | ⟨c, d :: outer⟩ =>
      have step : min (n + 1) ((⟨c, d :: outer⟩ : Env).depth - 1) =
          min n ((⟨d, outer⟩ : Env).depth - 1) + 1 := by
        simp only [depth, List.length_cons]
        omega
      rw [dropInner, ih, step]
      rfl

end Env

instance : Fingerprint Env where
  fingerprint e := Fingerprint.mix (fingerprint e.head) (fingerprint e.outer)

end ValueFlow
