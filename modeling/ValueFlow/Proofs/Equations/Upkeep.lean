import ValueFlow.Proofs.Equations.Convergence

/-!
# No query is forgotten

The parts of a solver agree at every moment, also between two requests of an evaluation: there
is one cell for each query, the work list holds the queries flagged as queued, each once, and
whatever is queued or has been read has a value. A query leaves the work list only to be
evaluated or because it has failed, so the others have all been evaluated.
-/

namespace ValueFlow

open Moment (resting running)

namespace Solver

variable {Q V E N T : Type}

structure Tidy [DecidableEq Q] [Fingerprint Q] (s : Solver Q V E N T) : Prop where
  sized     : s.cells.size = s.queries.size
  nodup     : s.worklist.toList.Nodup
  listed    : ∀ i, i ∈ s.worklist.toList ↔ s.Queued i
  /-- A query without a value is neither queued nor read. -/
  valued    : ∀ i, i ∈ s.worklist.toList ∨ (∃ c j, s.cells[i]? = some c ∧ j ∈ c.readers) →
                ∃ q v, s.queries.get? i = some q ∧ s.cached q = some v
  evaluated : ∀ i c, s.cells[i]? = some c → i ∉ s.worklist.toList → c.failure = none →
                i ∈ s.history

lemma Idle.of_dequeue {s : Solver Q V E N T} {i j : Nat} {w : Fifo Nat}
    (h : (s.dequeue i w).Idle j) (hji : j ≠ i) : s.Idle j := by
  obtain ⟨d, hd, hok, hidle⟩ := h
  obtain ⟨c, hc, rfl⟩ := (maps_dequeue s i w).exists_of_get hd
  rw [if_neg hji] at hok hidle
  exact ⟨c, hc, hok, hidle⟩

variable [DecidableEq Q] [Fingerprint Q] [Lattice V] [DecidableEq N] [DecidableEq T]
  [Fingerprint T] {rhs : Q → Rhs Q V E N T V} {m m' : Moment Q V E N T} {calls : List (Call Q V)}

lemma history_subset_move (h : Move rhs m calls m') : m.solver.history ⊆ m'.solver.history := by
  have hsame : ∀ {s t : Solver Q V E N T}, t.frame.2 = s.frame.2 → s.history ⊆ t.history := by
    intro s t h
    have hhistory : t.history = s.history := congrArg Prod.snd h
    rw [hhistory]
    exact List.Subset.refl _
  cases h with
  | ask s q => exact hsame (frame_touch s q)
  | tell s q v | push s i q v next => exact hsame (frame_pushFact s q v)
  | start => exact List.subset_cons_self _ _
  | @read s i q next v => exact hsame (t := (s.touch q).2) (frame_touch s q)
  | @readFailed s i q next e =>
    exact hsame ((congrArg Prod.snd (frame_fail _ i e)).trans (frame_touch s q))
  | note s i n next => exact hsame (congrArg (·.2) (frame_report s i n))
  | finish s i v => exact hsame (congrArg (·.2) (frame_absorb s i v))
  | abort s i e => exact hsame (congrArg (·.2) (frame_fail s i e))
  | _ => exact List.Subset.refl _

variable [LawfulLattice V]

lemma idle_move (h : Move rhs m calls m') (hm : Sane rhs m) {j : Nat} (hj : m'.solver.Idle j) :
    m.solver.Idle j ∨ j ∈ m'.solver.history := by
  rcases move_cases h hm with hst | ⟨i, e, u, hfailing, rfl⟩ | ⟨i, w, -, hst, hi⟩
  · exact .inl (hj.of_evolves hst)
  · obtain ⟨v, hsv, hvu⟩ := hfailing.breaks hm
    exact .inl ((hj.of_breaks hvu).of_evolves hsv)
  · have hbefore := hj.of_evolves hst
    by_cases hji : j = i
    · subst hji
      exact .inr (hi.resolve_left (not_not_intro hbefore))
    · exact .inl (hbefore.of_dequeue hji)

lemma mem_history_of_idle (h : Trail rhs (resting empty) calls m) {j : Nat}
    (hj : m.solver.Idle j) : j ∈ m.solver.history := by
  induction h with
  | rest =>
    obtain ⟨c, hc, -⟩ := hj
    simp [Moment.solver, empty] at hc
  | snoc htrail hmove ih =>
    rcases idle_move hmove (sane_of_trail htrail) hj with hj | hj
    · exact history_subset_move hmove (ih hj)
    · exact hj

lemma tidy_of_trail (h : Trail rhs (resting empty) calls m) : m.solver.Tidy := by
  have hm := (sane_of_trail h).coherent
  refine ⟨hm.sized, hm.nodup, hm.listed, fun i hi => ?_, fun i c hc hout hok => ?_⟩
  · obtain ⟨c, hc⟩ : ∃ c, m.solver.cells[i]? = some c := by
      rcases hi with hi | ⟨c, -, hc, -⟩
      · obtain ⟨c, hc, -⟩ := (hm.listed i).mp hi
        exact ⟨c, hc⟩
      · exact ⟨c, hc⟩
    obtain ⟨q, hq⟩ := hm.exists_query hc
    exact ⟨q, c.value, hq, cached_eq hm hq hc⟩
  · refine mem_history_of_idle h ⟨c, hc, hok, Bool.eq_false_iff.mpr fun hqueued => hout ?_⟩
    exact (hm.listed i).mpr ⟨c, hc, hqueued⟩

/-- **The bookkeeping of a solver is in order at every moment**, for any equations: after every
call, every step of a drain, and every request made inside an evaluation. -/
theorem tidy_at_every_moment (h : Trail rhs (resting empty) calls m) :
    m.solver.Tidy ∧ ∀ s, m = resting s →
      (∀ q v, (s.pushFact q v).2.Tidy) ∧ (∀ t, s.step rhs = .moved t → t.Tidy) ∧
      ∀ q a t, s.valueOf rhs q = some (a, t) → t.Tidy := by
  refine ⟨tidy_of_trail h, ?_⟩
  rintro s rfl
  refine ⟨fun q v => tidy_of_trail (h.trans (Move.tell s q v).trail), fun t ht => ?_,
    fun q a t ht => ?_⟩
  · exact tidy_of_trail (h.trans (course_step ht).trail)
  · obtain ⟨u, hdrain, heq⟩ := Option.bind_eq_some_iff.mp ht
    cases heq
    exact tidy_of_trail ((h.trans (Move.ask s q).trail).trans (trail_drain hdrain))

/-- In the middle of an evaluation, between a read and a push. -/
theorem tidy_at_every_moment_pushback : ∃ i p s, Trail pushback (resting empty) [.ask 0]
    (running i p s) ∧ s.worklist.toList = [1] ∧ s.history = [0] ∧ s.Tidy := by
  have htrail : Trail pushback (resting empty) [.ask 0] _ :=
    ((Move.ask empty 0).trail.snoc (.start rfl rfl rfl)).snoc (.read rfl)
  exact ⟨_, _, _, htrail, by decide, by decide, (tidy_at_every_moment htrail).1⟩

end Solver

end ValueFlow
