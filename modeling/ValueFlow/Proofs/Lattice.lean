import Mathlib.Tactic.Lemma
import ValueFlow.PowerSet

/-!
# The order of a join lattice

A solver only ever asks whether a join would change the value it holds, so
that test *is* the order: `a` is below `b` when joining `a` into `b` changes
nothing. `LawfulLattice` says that joins are least upper bounds in this order
and that bottom is below everything.

The order is not antisymmetric on representations: two power sets with the
same elements in different places are below each other. Answers are compared
by the order in both directions, never by equality of representations.
-/

namespace ValueFlow

namespace Lattice

variable {V : Type} [Lattice V]

/-- Below or equal: joining `a` into `b` changes nothing. -/
def Le (a b : V) : Prop := grows b a = false

instance (a b : V) : Decidable (Le a b) := inferInstanceAs (Decidable (_ = false))

end Lattice

open ValueFlow.Lattice (Le)

/-- Joins are least upper bounds, and bottom is the least element. -/
class LawfulLattice (V : Type) [Lattice V] : Prop where
  le_refl : ∀ a : V, Le a a
  le_trans : ∀ {a b c : V}, Le a b → Le b c → Le a c
  bottom_le : ∀ a : V, Le Lattice.bottom a
  le_join_left : ∀ a b : V, Le a (Lattice.join a b)
  le_join_right : ∀ a b : V, Le b (Lattice.join a b)
  join_le : ∀ {a b c : V}, Le a c → Le b c → Le (Lattice.join a b) c

namespace Lattice

variable {V : Type} [Lattice V] [LawfulLattice V]

lemma le_absorb_left (a b : V) : Le a (absorb a b).1 := by
  unfold absorb
  split
  · exact LawfulLattice.le_join_left a b
  · exact LawfulLattice.le_refl a

/-- What was absorbed is below the value held afterwards, also if it changed
nothing. -/
lemma le_absorb_right (a b : V) : Le b (absorb a b).1 := by
  unfold absorb
  split
  · exact LawfulLattice.le_join_right a b
  · next h => exact Bool.eq_false_iff.mpr h

lemma absorb_le {a b c : V} (ha : Le a c) (hb : Le b c) : Le (absorb a b).1 c := by
  unfold absorb
  split
  · exact LawfulLattice.join_le ha hb
  · exact ha

omit [LawfulLattice V] in
/-- If nothing changed, the value held is the one held before. -/
lemma absorb_eq_of_not_grew {a b : V} (h : (absorb a b).2 = false) : (absorb a b).1 = a := by
  unfold absorb at h ⊢
  split at h
  · cases h
  · next hg => rw [if_neg hg]

end Lattice

namespace PowerSet

variable {α : Type} [Fingerprint α] [DecidableEq α]

lemma le_iff {s t : PowerSet α} : Le s t ↔ ∀ a, a ∈ s → a ∈ t := by
  show (!s.subset t) = false ↔ _
  rw [Bool.not_eq_false', subset_iff]

instance : LawfulLattice (PowerSet α) where
  le_refl _ := le_iff.mpr fun _ h => h
  le_trans hab hbc := le_iff.mpr fun a h => le_iff.mp hbc a (le_iff.mp hab a h)
  bottom_le _ := le_iff.mpr fun a h => absurd h (not_mem_empty a)
  le_join_left _ _ := le_iff.mpr fun _ h => mem_union.mpr (Or.inl h)
  le_join_right _ _ := le_iff.mpr fun _ h => mem_union.mpr (Or.inr h)
  join_le ha hb := le_iff.mpr fun a h => (mem_union.mp h).elim (le_iff.mp ha a) (le_iff.mp hb a)

end PowerSet

end ValueFlow
