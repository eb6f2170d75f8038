/-!
# Join lattices

The values a solver computes form a lattice with a least element and joins.
The solver never compares two values: all it asks is whether a join would
change the value it holds. Booleans are the smallest example, with `or` as
join; power sets have a module of their own.
-/

namespace ValueFlow

/-- A least element, a join, and the test whether a join changes its left
argument. -/
class Lattice (V : Type) where
  bottom : V
  join : V → V → V
  /-- Whether joining the second value into the first changes it. -/
  grows : V → V → Bool

namespace Lattice

/-- Joins `v` into `current` and says whether that changed it. -/
def absorb {V : Type} [Lattice V] (current v : V) : V × Bool :=
  if grows current v then (join current v, true) else (current, false)

end Lattice

instance : Lattice Bool where
  bottom := false
  join a b := a || b
  grows a b := !a && b

end ValueFlow
