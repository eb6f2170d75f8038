/-!
# First-in, first-out queues

A queue as two lists: the front in order, and the back in reverse. The view
`Fifo.toList` lists the elements from the first to leave to the last; each
operation is pinned down by one equation on it.
-/

namespace ValueFlow

structure Fifo (α : Type) where
  front : List α
  back : List α

namespace Fifo

variable {α : Type}

def empty : Fifo α := ⟨[], []⟩

instance : Inhabited (Fifo α) := ⟨empty⟩

def toList (q : Fifo α) : List α := q.front ++ q.back.reverse

def isEmpty (q : Fifo α) : Bool := q.front.isEmpty && q.back.isEmpty

/-- Adds an element at the end. -/
def push (q : Fifo α) (a : α) : Fifo α := ⟨q.front, a :: q.back⟩

/-- Takes the first element. -/
def pop? (q : Fifo α) : Option (α × Fifo α) :=
  match q.front with
  | a :: front => some (a, ⟨front, q.back⟩)
  | [] =>
    match q.back.reverse with
    | a :: front => some (a, ⟨front, []⟩)
    | [] => none

@[simp] theorem toList_empty : (empty : Fifo α).toList = [] := rfl

@[simp] theorem toList_push (q : Fifo α) (a : α) : (q.push a).toList = q.toList ++ [a] := by
  simp [push, toList]

theorem toList_of_pop?_eq_some {q r : Fifo α} {a : α} (h : q.pop? = some (a, r)) :
    q.toList = a :: r.toList := by
  unfold pop? at h
  split at h
  · next front hq =>
    cases h
    simp [toList, hq]
  · next hq =>
    split at h
    · next front hb =>
      cases h
      simp [toList, hq, hb]
    · cases h

theorem pop?_eq_none_iff {q : Fifo α} : q.pop? = none ↔ q.toList = [] := by
  unfold pop?
  split
  · next front hq => simp [toList, hq]
  · next hq =>
    split
    · next front hb => simp [toList, hq, hb]
    · next hb => simp [toList, hq, hb]

end Fifo

end ValueFlow
