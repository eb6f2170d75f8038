import Mathlib.Algebra.Order.BigOperators.Group.Finset
import ValueFlow.Proofs.Equations.Termination

/-!
# How many steps a drain takes

A drain ends because the table cannot grow for ever (`exists_drains`). Where the law of
a table says how far it can grow, it also says for how long: with `n` queries whose
values have at most `h` steps to climb, the table grows at most `n * (h + 1)` times, and
between two times the work list, which holds every query once, only gets shorter.

The law also does what `exists_drains` asks of all right-hand sides at once: only the
queries that the law admits are ever evaluated, so nothing has to be known about the
others.
-/

namespace ValueFlow

open ValueFlow.Lattice (Le)
open Moment (resting)

variable {Q V E N T : Type}

/-- Only the queries of a list are asked, and what is held at them is at most `height`
high, where values that grow get higher. -/
structure Law.Bounded [Lattice V] (L : Law Q V E T) (queries : List Q) (height : Nat)
    (rank : V → Nat) : Prop where
  query : ∀ q, L.query q → q ∈ queries
  held  : ∀ q v, L.held q v → rank v ≤ height
  mono  : ∀ v v', Le v v' → rank v ≤ rank v'
  grows : ∀ v v', Le v v' → ¬ Le v' v → rank v < rank v'

namespace PowerSet

variable {α : Type} [Fingerprint α]

lemma size_le_of_subset {s : PowerSet α} {l : List α} (h : ∀ a ∈ s, a ∈ l) :
    s.size ≤ l.length :=
  (List.subperm_of_subset s.nodup h).length_le

variable [DecidableEq α]

lemma size_le_size {s t : PowerSet α} (h : Le s t) : s.size ≤ t.size :=
  size_le_of_subset (le_iff.mp h)

/-- A set with an element more has more elements. -/
lemma size_lt_size {s t : PowerSet α} (h : Le s t) (hnot : ¬ Le t s) : s.size < t.size := by
  by_contra hge
  have hperm := (List.subperm_of_subset s.nodup (le_iff.mp h)).perm_of_length_le (Nat.not_lt.mp hge)
  exact hnot (le_iff.mpr fun a ha => hperm.mem_iff.mpr ha)

end PowerSet

namespace Solver

variable [Lattice V] {s t : Solver Q V E N T} {L : Law Q V E T} {queries : List Q} {height : Nat}
  {rank : V → Nat}

/-! ## The work left -/

/-- How often the query with number `i` can still grow, counting its first value. -/
def slack (height : Nat) (rank : V → Nat) (s : Solver Q V E N T) (i : Nat) : Nat :=
  match s.cells[i]? with
  | some c => height - rank c.value
  | none => height + 1

/-- An upper bound for the steps of a drain, if there are at most `n` queries. -/
def workLeft (n height : Nat) (rank : V → Nat) (s : Solver Q V E N T) : Nat :=
  (∑ i ∈ Finset.range n, s.slack height rank i) * (n + 1) + s.worklist.toList.length

omit [Lattice V] in
lemma slack_le (s : Solver Q V E N T) (i : Nat) : s.slack height rank i ≤ height + 1 := by
  unfold slack
  split <;> omega

lemma slack_le_slack (hL : L.Bounded queries height rank) (h : Grows s t) (i : Nat) :
    t.slack height rank i ≤ s.slack height rank i := by
  cases hc : s.cells[i]? with
  | none =>
    have hs : s.slack height rank i = height + 1 := by simp [slack, hc]
    exact hs ▸ slack_le t i
  | some c =>
    obtain ⟨d, hd, hle, -⟩ := h.cells i c hc
    have hrank := hL.mono _ _ hle
    simp only [slack, hc, hd]
    omega

variable [Fingerprint Q] [Fingerprint T]

lemma slack_lt_slack (hL : L.Bounded queries height rank) (h : Grows s t) (ht : t.Coherent)
    (hkept : t.Kept L) {i : Nat} {d : Cell V E N} (hd : t.cells[i]? = some d)
    (hnew : ∀ c : Cell V E N, s.cells[i]? = some c → ¬ Le d.value c.value) :
    t.slack height rank i < s.slack height rank i := by
  cases hc : s.cells[i]? with
  | none =>
    simp only [slack, hc, hd]
    omega
  | some c =>
    obtain ⟨d', hd', hle, -⟩ := h.cells i c hc
    cases hd.symm.trans hd'
    obtain ⟨q, hq⟩ := ht.exists_query hd
    have hheld := hL.held q _ (hkept i q d hq hd).2.1
    have hrank := hL.grows _ _ hle (hnew c hc)
    simp only [slack, hc, hd]
    omega

/-- The table has a cell for queries of the list only. -/
lemma size_le_of_bounded (hL : L.Bounded queries height rank) (hs : s.Coherent)
    (hkept : s.Kept L) : s.cells.size ≤ queries.length :=
  size_le_of_kept hs fun i q c hq hc =>
    ⟨hL.query q (hkept i q c hq hc).1, trivial, fun _ _ => trivial⟩

omit [Lattice V] in
/-- No query stands on the work list twice. -/
lemma length_worklist_le (hs : s.Coherent) : s.worklist.toList.length ≤ s.cells.size := by
  have hsub : s.worklist.toList ⊆ List.range s.cells.size := by
    intro i hi
    obtain ⟨c, hc, -⟩ := (hs.listed i).mp hi
    exact List.mem_range.mpr (Array.getElem?_eq_some_iff.mp hc).1
  have hlength := (List.subperm_of_subset hs.nodup hsub).length_le
  rwa [List.length_range] at hlength

lemma workLeft_le (hL : L.Bounded queries height rank) (hs : s.Coherent) (hkept : s.Kept L) :
    s.workLeft queries.length height rank ≤
      queries.length * (height + 1) * (queries.length + 1) + queries.length := by
  have hsum : ∑ i ∈ Finset.range queries.length, s.slack height rank i ≤
      queries.length * (height + 1) := by
    have hle := Finset.sum_le_card_nsmul (Finset.range queries.length) (s.slack height rank)
      (height + 1) fun i _ => slack_le s i
    rwa [Finset.card_range, smul_eq_mul] at hle
  have hlist := (length_worklist_le hs).trans (size_le_of_bounded hL hs hkept)
  exact Nat.add_le_add (Nat.mul_le_mul_right _ hsum) hlist

variable [LawfulLattice V] [DecidableEq Q] [DecidableEq N] [DecidableEq T]
  {rhs : Q → Rhs Q V E N T V}

/-- **Every step leaves less to be done.** What a step queues is paid for by what the
table has grown. -/
theorem workLeft_step (hL : L.Bounded queries height rank) (hs : Sane rhs (resting s))
    (h : s.step rhs = .moved t) (ht : Sane rhs (resting t)) (hkept : t.Kept L) :
    t.workLeft queries.length height rank < s.workLeft queries.length height rank := by
  have hgrows : Grows s t := grows_trail (course_step h).trail hs
  have hle : ∀ i ∈ Finset.range queries.length, t.slack height rank i ≤ s.slack height rank i :=
    fun i _ => slack_le_slack hL hgrows i
  have hcoherent : t.Coherent := ht.coherent
  have hsize := size_le_of_bounded hL hcoherent hkept
  unfold workLeft
  rcases grown_or_shorter hs h with ⟨i, d, hd, hnew⟩ | hshorter
  · have hi : i ∈ Finset.range queries.length :=
      Finset.mem_range.mpr (Nat.lt_of_lt_of_le (Array.getElem?_eq_some_iff.mp hd).1 hsize)
    have hsum := Finset.sum_lt_sum hle ⟨i, hi, slack_lt_slack hL hgrows hcoherent hkept hd hnew⟩
    have hlist := (length_worklist_le hcoherent).trans hsize
    have hmul := Nat.mul_le_mul_right (queries.length + 1) (Nat.succ_le_of_lt hsum)
    rw [Nat.succ_mul] at hmul
    omega
  · have hsum := Nat.mul_le_mul_right (queries.length + 1) (Finset.sum_le_sum hle)
    omega

/-! ## Draining -/

/-- **Draining ends within the work left**, if all right-hand sides that the law admits
keep to it and end. -/
theorem exists_drains_within (hL : L.Bounded queries height rank)
    (hkeeps : ∀ q, L.query q → (rhs q).Keeps L (L.held q))
    (hgiven : ∀ q v, L.held q v → L.given q v)
    (hends  : ∀ q, L.query q → (rhs q).Confined fun _ => True)
    (hs : Sane rhs (resting s)) (hkept : s.Kept L) :
    ∃ n t, n ≤ s.workLeft queries.length height rank ∧ Drains rhs s n t := by
  generalize hwork : s.workLeft queries.length height rank = work
  induction work using Nat.strong_induction_on generalizing s with
  | _ work ih =>
  subst hwork
  cases hstep : s.step rhs with
  | settled => exact ⟨0, s, Nat.zero_le _, drains_of_settled (toList_of_step_settled hstep)⟩
  | diverged =>
    refine absurd hstep (step_ne_diverged fun q ⟨i, hi⟩ => hends q ?_)
    obtain ⟨c, hc⟩ := hs.coherent.exists_cell hi
    exact (hkept i q c hi hc).1
  | moved t =>
    obtain ⟨ht, hkept'⟩ := keptAt_course hkeeps hgiven (course_step hstep) hs hkept
    have hlt := workLeft_step hL hs hstep ht hkept'
    obtain ⟨n, u, hn, hdrains⟩ := ih _ hlt ht hkept' rfl
    exact ⟨n + 1, u, Nat.lt_of_le_of_lt hn hlt, hdrains.of_step hstep⟩

end Solver

end ValueFlow
