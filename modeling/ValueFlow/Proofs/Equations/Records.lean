import ValueFlow.Proofs.Equations.Failure

/-!
# Reports on record

Every evaluation of a query starts by dropping the reports of the one before. Of
all operations on a table only this and the reports of an evaluation change what is on record.
-/

namespace ValueFlow

namespace Solver

variable {Q V E N T : Type}

/-- The reports of the latest evaluation of a query, and when it first
reported. -/
def record (s : Solver Q V E N T) (j : Nat) : List N × Option Nat :=
  (s.cells[j]?.map fun c => (c.reports, c.reportedAt)).getD ([], none)

/-- The record with one more report, made when the clock stood at `clock`. -/
def filed [DecidableEq N] (n : N) (clock : Nat) (r : List N × Option Nat) : List N × Option Nat :=
  (if n ∈ r.1 then r.1 else r.1 ++ [n], r.2 <|> some clock)

section Record

variable {s t : Solver Q V E N T} {j : Nat}

lemma record_eq {c : Cell V E N} (hc : s.cells[j]? = some c) :
    s.record j = (c.reports, c.reportedAt) := by
  simp [record, hc]

lemma record_of_maps {f : Nat → Cell V E N → Cell V E N} (hmap : Maps s f t)
    (hf : ∀ c, (f j c).reports = c.reports ∧ (f j c).reportedAt = c.reportedAt) :
    t.record j = s.record j := by
  unfold record
  rw [hmap j, Option.map_map]
  congr 2
  funext c
  exact Prod.ext (hf c).1 (hf c).2

@[simp] lemma record_addReader (s : Solver Q V E N T) (i reader j : Nat) :
    (s.addReader i reader).record j = s.record j := by
  refine record_of_maps (maps_addReader s i reader) fun c => ?_
  split <;> exact ⟨rfl, rfl⟩

@[simp] lemma record_absorb [Lattice V] (s : Solver Q V E N T) (i : Nat) (v : V) (j : Nat) :
    (s.absorb i v).2.record j = s.record j := by
  obtain ⟨_, hmap, -⟩ := maps_absorb s i v
  exact record_of_maps hmap fun _ => ⟨rfl, rfl⟩

@[simp] lemma record_fail (s : Solver Q V E N T) (i : Nat) (e : E) (j : Nat) :
    (s.fail i e).record j = s.record j := by
  obtain ⟨_, hmarks, -⟩ := spread_marks e (s.readCount + 1) [i] s
  exact record_of_maps hmarks.cells fun _ => ⟨rfl, rfl⟩

@[simp] lemma record_dequeue (s : Solver Q V E N T) (i : Nat) (w : Fifo Nat) (j : Nat) :
    (s.dequeue i w).record j = s.record j := by
  refine record_of_maps (maps_dequeue s i w) fun c => ?_
  split <;> exact ⟨rfl, rfl⟩

lemma record_opened_of_ne (s : Solver Q V E N T) {i : Nat} (hji : j ≠ i) :
    (s.opened i).record j = s.record j := by
  refine record_of_maps (s := { s with history := i :: s.history }) (maps_modifyCell _ i _) ?_
  intro c
  rw [if_neg hji]
  exact ⟨rfl, rfl⟩

lemma record_opened_self (s : Solver Q V E N T) (i : Nat) :
    ∃ date, (s.opened i).record i = ([], date) := by
  unfold record
  rw [opened, clearReports, maps_modifyCell _ i _ i]
  cases s.cells[i]? with
  | none => exact ⟨none, rfl⟩
  | some c => exact ⟨c.reportedAt, by simp⟩

section Report

variable [DecidableEq N] {i : Nat}

/-- One more report: it goes on the record of its query, once. -/
lemma record_report (hi : i < s.cells.size) (n : N) (j : Nat) :
    (s.report i n).record j = if j = i then filed n s.clock (s.record j) else s.record j := by
  have hc : s.cells[i]? = some s.cells[i] := Array.getElem?_eq_getElem hi
  have hcells : (s.report i n).cells[j]? = (s.modifyCell i fun c => { c with
      reports := if n ∈ c.reports then c.reports else c.reports ++ [n]
      reportedAt := c.reportedAt <|> some s.clock }).cells[j]? := by
    unfold report
    rw [hc]
    dsimp only
    split <;> rfl
  unfold record
  rw [hcells, maps_modifyCell s i _ j, Option.map_map]
  by_cases hji : j = i
  · subst hji
    rw [hc, if_pos rfl]
    simp [filed]
  · simp only [if_neg hji]
    rfl

end Report

section Touch

variable [Fingerprint Q] [Fingerprint T]

lemma record_enroll (hs : s.Coherent) (q : Q) (v : V) (j : Nat) :
    (s.enroll q v).record j = s.record j := by
  unfold record
  rw [cells_enroll hs]
  by_cases hj : j = s.queries.size
  · have hnone : s.cells[j]? = none :=
      Array.getElem?_eq_none (Nat.le_of_eq (hs.sized.trans hj.symm))
    rw [if_pos hj, hnone]
    rfl
  · rw [if_neg hj]

variable [DecidableEq Q] [Lattice V]

lemma record_touch (hs : s.Coherent) (q : Q) (j : Nat) : (s.touch q).2.record j = s.record j := by
  unfold touch
  split
  · rfl
  · exact record_enroll hs q _ j

lemma record_pushFact (hs : s.Coherent) (q : Q) (v : V) (j : Nat) :
    (s.pushFact q v).2.record j = s.record j := by
  unfold pushFact
  split
  · exact record_enroll hs q v j
  · split
    · rfl
    · exact record_absorb s _ v j

end Touch

end Record

end Solver

end ValueFlow
