import ValueFlow.Proofs.Equations.Convergence

/-!
# Reports of the final table

Every evaluation of a query starts by dropping the reports of the one before,
so what a solver shows are the reports of the latest evaluations. They are those of
a run whose requests the table still accepts: a value that changes has its readers
queued, and a queued query is evaluated again. So once nothing is queued, evaluating
a query once more on the table as it stands would repeat its reports.

Forgetting the reports breaks this, and a trail may forget them at any time.
The invariant is therefore carried along the moves of evaluations and along
`Solver.drain`, and not along trails.
-/

namespace ValueFlow

open Moment (resting running)
open Relation (ReflTransGen)

/-- No element comes twice among the first occurrences. -/
lemma nodup_firstOccurrences {α : Type} [DecidableEq α] (as : List α) :
    (firstOccurrences as).Nodup := by
  have hfold : ∀ seen : List α, seen.Nodup →
      (as.foldl (fun seen a => if a ∈ seen then seen else a :: seen) seen).Nodup := by
    induction as with
    | nil => exact fun _ h => h
    | cons a as ih =>
      intro seen hseen
      rw [List.foldl_cons]
      by_cases ha : a ∈ seen
      · rw [if_pos ha]
        exact ih seen hseen
      · rw [if_neg ha]
        exact ih _ (List.nodup_cons.mpr ⟨ha, hseen⟩)
  exact (List.reverse_perm _).nodup_iff.mpr (hfold [] List.nodup_nil)

namespace Solver

variable {Q V E N T : Type}

/-- The reports on record are those among the requests, and whoever has any has
reported at some time. -/
def Filed (r : List N × Option Nat) (es : List (Event Q V N T)) : Prop :=
  (∀ n, n ∈ r.1 ↔ .note n ∈ es) ∧ (r.1 ≠ [] → r.2.isSome = true)

section Filed

variable [DecidableEq N]

lemma mem_filed {n m : N} {clock : Nat} {r : List N × Option Nat} :
    m ∈ (filed n clock r).1 ↔ m ∈ r.1 ∨ m = n := by
  unfold filed
  dsimp only
  split
  · next hn =>
    refine ⟨.inl, ?_⟩
    rintro (hm | rfl)
    · exact hm
    · exact hn
  · rw [List.mem_append, List.mem_singleton]

lemma tracks_filed : Tracks (Filed : _ → List (Event Q V N T) → Prop) where
  start _ := ⟨fun _ => by simp, fun h => absurd rfl h⟩
  silent r es e hsilent h := by
    refine ⟨fun n => ?_, h.2⟩
    rw [h.1, List.mem_append, List.mem_singleton]
    exact ⟨.inl, fun hn => hn.resolve_right fun heq => hsilent n heq.symm⟩
  note r es n clock h := by
    refine ⟨fun m => ?_, fun _ => ?_⟩
    · rw [mem_filed, h.1, List.mem_append, List.mem_singleton, Event.note.injEq]
    · unfold filed
      cases r.2 <;> rfl

lemma mem_reports {s : Solver Q V E N T}
    (hs : ∀ j, (s.record j).1 ≠ [] → (s.record j).2.isSome = true) {n : N} :
    n ∈ s.reports ↔ ∃ j, n ∈ (s.record j).1 := by
  simp only [reports, mem_firstOccurrences, List.mem_flatMap, mem_sortBy, List.mem_filter,
    Array.mem_toList_iff]
  constructor
  · rintro ⟨c, ⟨hc, -⟩, hn⟩
    obtain ⟨j, hj⟩ := Array.mem_iff_getElem?.mp hc
    exact ⟨j, by rwa [record_eq hj]⟩
  · rintro ⟨j, hn⟩
    cases hj : s.cells[j]? with
    | none => simp [record, hj] at hn
    | some c =>
      have hdated := hs j (List.ne_nil_of_mem hn)
      rw [record_eq hj] at hn hdated
      exact ⟨c, ⟨Array.mem_of_getElem? hj, hdated⟩, hn⟩

end Filed

variable [Lattice V] [LawfulLattice V] [Fingerprint Q] [Fingerprint T] [DecidableEq Q] [DecidableEq N]
  [DecidableEq T] {rhs : Q → Rhs Q V E N T V} {s t : Solver Q V E N T}

/-- A step keeps the reports of every query with a run of it. -/
lemma filed_step (hstep : s.step rhs = .moved t) (h : SaneWith Filed rhs (resting s)) :
    SaneWith Filed rhs (resting t) := by
  obtain ⟨i, w, hpop, ⟨hno, rfl⟩ | ⟨v, q, hok, hq, hinner⟩⟩ := step_begins hstep
  · exact sane_skip h hpop hno
  · generalize resting t = m at hinner ⊢
    induction hinner with
    | refl => exact sane_start tracks_filed h hpop hok hq
    | tail _ hmove ih =>
      obtain ⟨⟨hmove, -⟩, i, p, s, rfl⟩ := hmove
      exact sane_running tracks_filed hmove ih

lemma filed_valueOf {q : Q} {a : Except E V} (h : SaneWith Filed rhs (resting s))
    (hvalue : s.valueOf rhs q = some (a, t)) : SaneWith Filed rhs (resting t) := by
  obtain ⟨u, hdrain, hrest⟩ := Option.bind_eq_some_iff.mp hvalue
  cases hrest
  obtain ⟨htouch, hst, -⟩ := touch_spec h.1 q
  exact drain_keeps filed_step hdrain
    (sane_evolves h htouch hst fun j es hes => (record_touch h.1 q j).symm ▸ hes)

/-! ## With nothing queued -/

omit [LawfulLattice V] [DecidableEq N] in
/-- With nothing queued and no failure, a query has on record what its
right-hand side reports when it is run again on the table. -/
lemma filed_replay (h : SaneWith Filed rhs (resting s)) (hempty : s.worklist.toList = []) {q : Q}
    {j : Nat} (hj : s.queries.get? j = some q) (hok : s.failure q = none) :
    (∃ v, ((rhs q).replay s.answer s.numberOf).2 = .value v) ∧
      Filed (s.record j) ((rhs q).replay s.answer s.numberOf).1 := by
  obtain ⟨hcoherent, -, hall⟩ := h
  obtain ⟨c, hc⟩ := hcoherent.exists_cell hj
  rw [failure_eq hcoherent hj hc] at hok
  obtain ⟨d, hd, hok, hidle⟩ := idle_of_settled hcoherent hempty hc hok
  obtain ⟨v, ⟨q', es, hq', hrun, hes, hfiled⟩, -⟩ := hall j d hd hok hidle
  cases hj.symm.trans hq'
  rw [Rhs.replay_eq_of_run hrun fun e he => ((hes e he).supports hcoherent).agrees hcoherent]
  exact ⟨⟨v, rfl⟩, hfiled⟩

omit [LawfulLattice V] in
/-- **The reports describe the final table.** -/
theorem mem_reports_of_replay (h : SaneWith Filed rhs (resting s))
    (hempty : s.worklist.toList = []) (hok : ∀ q, s.failure q = none) {n : N} :
    n ∈ s.reports ↔ ∃ q, s.Touched q ∧ .note n ∈ ((rhs q).replay s.answer s.numberOf).1 := by
  have hquery : ∀ j, (s.record j).1 ≠ [] → ∃ q, s.queries.get? j = some q := by
    intro j hj
    cases hc : s.cells[j]? with
    | none => simp [record, hc] at hj
    | some c => exact h.1.exists_query hc
  have hdated : ∀ j, (s.record j).1 ≠ [] → (s.record j).2.isSome = true := fun j hj => by
    obtain ⟨q, hq⟩ := hquery j hj
    exact (filed_replay h hempty hq (hok q)).2.2 hj
  rw [mem_reports hdated]
  constructor
  · rintro ⟨j, hn⟩
    obtain ⟨q, hq⟩ := hquery j (List.ne_nil_of_mem hn)
    exact ⟨q, ⟨j, hq⟩, ((filed_replay h hempty hq (hok q)).2.1 n).mp hn⟩
  · rintro ⟨q, ⟨j, hq⟩, hn⟩
    exact ⟨j, ((filed_replay h hempty hq (hok q)).2.1 n).mpr hn⟩

end Solver

end ValueFlow
