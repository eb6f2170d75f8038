import Mathlib.Data.Set.Card
import ValueFlow.Proofs.Built

/-!
# Descent in the arena

The nodes of an arena hang below the roots of its modules. The relation
`Arena.Part` between a whole and its parts says so without the links that nodes
carry, and the links are measured against it.
-/

namespace ValueFlow

open Relation (ReflTransGen TransGen)

namespace Arena

variable {a : Arena} {P : ModuleId → SourceModule → Tree → Prop}

namespace Forest

variable {a : Arena} (h : Forest a) {n : NodeId} {r : NodeId} {p : NodeId}
include h

lemma le_of_below (hn : ReflTransGen a.Part r n) : n ≤ r := by
  induction hn with
  | refl => exact Nat.le_refl r
  | tail _ hpart ih => exact Nat.le_trans (Nat.le_of_lt (h.lower hpart)) ih

lemma lt_of_below (hn : TransGen a.Part r n) : n < r := by
  obtain ⟨m, hm, hpart⟩ := TransGen.tail'_iff.mp hn
  exact Nat.lt_of_lt_of_le (h.lower hpart) (h.le_of_below hm)

lemma above_iff (hp : a.parent? n = some p) {g : NodeId} :
    TransGen a.Part g n ↔ ReflTransGen a.Part g p := by
  rw [TransGen.tail'_iff]
  constructor
  · rintro ⟨q, hq, hpart⟩
    obtain rfl : q = p := Option.some.inj ((h.parent.mpr hpart).symm.trans hp)
    exact hq
  · exact fun hg => ⟨p, hg, h.parent.mp hp⟩

lemma not_above (hp : a.parent? n = none) (g : NodeId) : ¬ TransGen a.Part g n := by
  intro hg
  obtain ⟨q, -, hpart⟩ := TransGen.tail'_iff.mp hg
  rw [h.parent.mpr hpart] at hp
  cases hp

/-! ## Functions above a node -/

end Forest

/-! ## Modules -/

lemma Grown.home (h : a.Grown P) {m : Nat}
    {source : SourceModule} (hm : a.modules[m]? = some source) {n : NodeId}
    (hn : ReflTransGen a.Part source.root n) : (a.node n).home = m := by
  obtain ⟨t, -, hcopied⟩ := h m source hm
  obtain ⟨_, -, hhome, -⟩ := exists_copied_of_below hcopied hn
  exact hhome

end Arena

end ValueFlow
