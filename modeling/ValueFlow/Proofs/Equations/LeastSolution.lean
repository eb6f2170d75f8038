import ValueFlow.Proofs.Equations.Solutions

/-!
# Least solutions

For monotone equations that do not fail, the table at rest is the *least*
assignment closed at the touched queries, so the order in which queries were
evaluated does not matter.

Only touched queries are evaluated. A query that nobody asked for and nobody
read may still push facts when it is evaluated, so what was asked before can
change an answer (`unasked_query_withholds_fact`).
-/

namespace ValueFlow

open ValueFlow.Lattice (Le)
open Moment (resting running)

namespace Solver

variable {Q V E N T : Type}

/-! ## The table at rest is a least assignment -/

section Least

variable [DecidableEq Q] [Fingerprint Q] [Lattice V]

/-- The table as an assignment: bottom at queries never touched. -/
def assignment (s : Solver Q V E N T) (q : Q) : V := (s.cached q).getD Lattice.bottom

structure LeastClosed (rhs : Q → Rhs Q V E N T V) (D : Q → Prop) (calls : List (Call Q V))
    (S : Q → V) : Prop where
  closed : ∀ q, D q → Rhs.ClosedAt rhs S q
  above  : FactsBelow S calls
  least  : ∀ S', (∀ q, D q → Rhs.ClosedAt rhs S' q) → FactsBelow S' calls →
             ∀ q, D q → Le (S q) (S' q)

section Assignment

variable {s : Solver Q V E N T} {q : Q}

lemma touched_of_cached {m : V} (h : s.cached q = some m) : s.Touched q ∧ m = s.assignment q := by
  obtain ⟨i, c, hi, -, -⟩ := exists_of_cached h
  exact ⟨⟨i, hi⟩, by simp [assignment, h]⟩

lemma assignment_of_not_touched (hq : ¬ s.Touched q) : s.assignment q = Lattice.bottom := by
  unfold assignment
  cases hm : s.cached q with
  | none => rfl
  | some m => exact absurd (touched_of_cached hm).1 hq

variable [Fingerprint T]

lemma cached_of_touched (hs : s.Coherent) (hq : s.Touched q) :
    s.cached q = some (s.assignment q) := by
  obtain ⟨i, hi⟩ := hq
  obtain ⟨c, hc⟩ := hs.exists_cell hi
  simp [assignment, cached_eq hs hi hc]

lemma answer_of_touched (hs : s.Coherent) (hok : s.failure q = none) (hq : s.Touched q) :
    s.answer q = .ok (s.assignment q) := by
  obtain ⟨i, hi⟩ := hq
  obtain ⟨c, hc⟩ := hs.exists_cell hi
  rw [answer_eq hs hi, current_eq_ok_iff hc, ← failure_eq hs hi hc]
  exact ⟨hok, by simp [assignment, cached_eq hs hi hc]⟩

end Assignment

variable [LawfulLattice V] [DecidableEq N] [DecidableEq T] [Fingerprint T]
  {rhs : Q → Rhs Q V E N T V} {calls : List (Call Q V)} {s : Solver Q V E N T} {q : Q}

/-- The values in the table are below every assignment above the facts told
that is closed at the touched queries. -/
lemma cached_le (hfree : ∀ q, (rhs q).FailureFree) (hmono : ∀ q, (rhs q).Monotone)
    {m : Moment Q V E N T} (h : Trail rhs (resting empty) calls m) {S : Q → V}
    (hclosed : ∀ q, m.solver.Touched q → Rhs.ClosedAt rhs S q) (hfacts : FactsBelow S calls)
    {v : V} (hv : m.solver.cached q = some v) : Le v (S q) := by
  have hbelow : m.solver.Below (fun _ => True) S := by
    refine below_of_trail h (fun q _ hq => ?_) (fun _ _ => trivial)
      fun q v hv => ⟨trivial, hfacts q v hv⟩
    exact Tame.within ⟨fun es _ => hfree q es, hmono q S, hclosed q hq⟩
  obtain ⟨i, c, hi, hc, rfl⟩ := exists_of_cached hv
  exact (hbelow i q c hi hc).2.1

section Rest

variable (hfree : ∀ q, (rhs q).FailureFree) (hmono : ∀ q, (rhs q).Monotone)
  (h : Trail rhs (resting empty) calls (resting s)) (hempty : s.worklist.toList = [])

include hfree h

lemma failure_eq_none (q : Q) : s.failure q = none :=
  failure_eq_none_of_trail (fun _ => True) (fun q _ => (hfree q).safe) h trivial

/-- Facts told from outside are in the table. -/
lemma factsBelow_assignment {p : Q} {w : V} (hw : .tell p w ∈ calls) :
    s.Touched p ∧ Le w (s.assignment p) := by
  have hsane := sane_of_trail h
  obtain ⟨k, c, hk, hc, hbelow⟩ := holds_of_trail h hw
  have hok : c.failure = none := (failure_eq hsane.1 hk hc).symm.trans (failure_eq_none hfree h p)
  obtain ⟨hp, hvalue⟩ := touched_of_cached (cached_eq hsane.1 hk hc)
  exact ⟨hp, hvalue ▸ hbelow hok⟩

include hempty

/-- At rest an assignment that is the table at touched queries is closed at
them, whatever it is elsewhere: their right-hand sides read and push at
touched queries only. -/
lemma closedAt_of_eq_assignment {S : Q → V} (hS : ∀ p, s.Touched p → S p = s.assignment p)
    (hq : s.Touched q) : Rhs.ClosedAt rhs S q := by
  have hsane := sane_of_trail h
  obtain ⟨es, v, hrun, -, hle, hsupports⟩ :=
    replay_of_sane hsane hempty (cached_of_touched hsane.1 hq) (failure_eq_none hfree h q)
  refine ⟨s.numberOf, es, v, Rhs.replay_eq_of_run hrun fun e he => ?_, ?_, fun p w hw => ?_⟩
  · cases e with
    | read p w =>
      obtain ⟨hp, rfl⟩ := touched_of_cached (hsupports _ he).1
      exact congrArg Except.ok (hS p hp)
    | push | note => trivial
    | number t i => exact (hsupports _ he).agrees hsane.1
  · rw [hS q hq]
    exact hle
  · obtain ⟨m, hm, hwm⟩ := hsupports _ hw (failure_eq_none hfree h p)
    obtain ⟨hp, rfl⟩ := touched_of_cached hm
    rw [hS p hp]
    exact hwm

include hmono

lemma leastClosed_assignment : LeastClosed rhs s.Touched calls s.assignment where
  closed _ hq := closedAt_of_eq_assignment hfree h hempty (fun _ _ => rfl) hq
  above _ _ hw := (factsBelow_assignment hfree h hw).2
  least _ hclosed hfacts _ hq :=
    cached_le hfree hmono h hclosed hfacts (cached_of_touched (sane_of_trail h).1 hq)

variable {S : Q → V} (hnothing : ∀ q, ¬ s.Touched q → ∀ number es v,
    (rhs q).replay (fun p => .ok (S p)) number = (es, .value v) →
    ∀ p w, .push p w ∈ es → s.Touched p → Le w (s.assignment p))

include hnothing

/-- If untouched queries push nothing new to touched ones, the table may be
completed to an assignment closed at all queries. -/
lemma closedAt_completed (hS : ∀ q, Rhs.ClosedAt rhs S q) {S' : Q → V}
    (htable : ∀ q, s.Touched q → S' q = s.assignment q)
    (helse : ∀ q, ¬ s.Touched q → S' q = S q) (hbelow : ∀ q, Le (S' q) (S q)) (q : Q) :
    Rhs.ClosedAt rhs S' q := by
  by_cases hq : s.Touched q
  · exact closedAt_of_eq_assignment hfree h hempty htable hq
  · obtain ⟨number, es, v, hreplay, hle, hpushes⟩ := hS q
    obtain ⟨es', v', hrun', hreads', hreplay'⟩ := Rhs.FailureFreeUnder.exists_run
      (S := S') (fun es _ => hfree q es) number
    -- the run against the completed table has reads below `S`, so it does less than `S` asks
    have hreads : ReadsBelow S es' := fun p w hw =>
      LawfulLattice.le_trans (hreads' p w hw) (hbelow p)
    obtain ⟨hvalue, hmore⟩ := hmono q S number es' v' es v hrun' hreads hreplay
    refine ⟨number, es', v', hreplay', ?_, hmore S' fun p w hw => ?_⟩
    · rw [helse q hq]
      exact LawfulLattice.le_trans hvalue hle
    · by_cases hp : s.Touched p
      · rw [htable p hp]
        exact hnothing q hq number es v hreplay p w hw hp
      · rw [helse p hp]
        exact hpushes p w hw

/-- The least assignment closed at all queries is the table at touched ones,
unless untouched queries push something new to them. -/
lemma table_of_leastClosed_all (hS : LeastClosed rhs (fun _ => True) calls S)
    (hq : s.Touched q) :
    Le (S q) (s.assignment q) ∧ Le (s.assignment q) (S q) := by
  classical
  have hsane := sane_of_trail h
  have hle : ∀ p, s.Touched p → Le (s.assignment p) (S p) := fun p hp =>
    cached_le hfree hmono h (fun q _ => hS.closed q trivial) hS.above (cached_of_touched hsane.1 hp)
  let S' : Q → V := fun p => if s.Touched p then s.assignment p else S p
  have htable : ∀ p, s.Touched p → S' p = s.assignment p := fun p hp => if_pos hp
  have helse : ∀ p, ¬ s.Touched p → S' p = S p := fun p hp => if_neg hp
  have hbelow : ∀ p, Le (S' p) (S p) := by
    intro p
    by_cases hp : s.Touched p
    · rw [htable p hp]
      exact hle p hp
    · rw [helse p hp]
      exact LawfulLattice.le_refl _
  have hclosed := closedAt_completed hfree hmono h hempty hnothing
    (fun q => hS.closed q trivial) htable helse hbelow
  have hfacts : FactsBelow S' calls := by
    intro p w hw
    obtain ⟨hp, hwp⟩ := factsBelow_assignment hfree h hw
    rw [htable p hp]
    exact hwp
  refine ⟨?_, hle q hq⟩
  have hleast := hS.least S' (fun q _ => hclosed q) hfacts q trivial
  rw [htable q hq] at hleast
  exact hleast

end Rest

/-- Two solvers at rest that have touched the same queries and were told the
same facts hold the same values. -/
lemma assignment_le (hfree : ∀ q, (rhs q).FailureFree) (hmono : ∀ q, (rhs q).Monotone)
    {calls' : List (Call Q V)} {s' : Solver Q V E N T}
    (h : Trail rhs (resting empty) calls (resting s))
    (h' : Trail rhs (resting empty) calls' (resting s')) (hempty : s'.worklist.toList = [])
    (htouched : ∀ q, s.Touched q → s'.Touched q)
    (hfacts : ∀ q v, .tell q v ∈ calls → .tell q v ∈ calls') (q : Q) :
    Le (s.assignment q) (s'.assignment q) := by
  have hleast := leastClosed_assignment hfree hmono h' hempty
  by_cases hq : s.Touched q
  · exact cached_le hfree hmono h (fun p hp => hleast.closed p (htouched p hp))
      (fun p w hw => hleast.above p w (hfacts p w hw)) (cached_of_touched (sane_of_trail h).1 hq)
  · rw [assignment_of_not_touched hq]
    exact LawfulLattice.bottom_le _

/-- **The table holds the least solution at the touched queries.** For monotone
equations that do not fail, along any trail, that is for any calls from outside
and any order of the work list:

* at every moment the table is below every assignment above the facts told
  that is closed at the touched queries;
* at rest with nothing queued it is the least such assignment, so it depends
  only on the facts told and the queries touched;
* the answer to a call is its value at the query asked, and the value of the
  least assignment closed at all queries if untouched queries push nothing new
  to touched ones. -/
theorem least_solution_at_touched_queries (hfree : ∀ q, (rhs q).FailureFree)
    (hmono : ∀ q, (rhs q).Monotone) {m : Moment Q V E N T}
    (h : Trail rhs (resting empty) calls m) :
    (∀ S, (∀ q, m.solver.Touched q → Rhs.ClosedAt rhs S q) → FactsBelow S calls →
      ∀ q v, m.solver.cached q = some v → Le v (S q)) ∧
    (∀ s, m = resting s → s.isStable = true →
      LeastClosed rhs s.Touched calls s.assignment ∧
      ∀ calls' s', Trail rhs (resting empty) calls' (resting s') → s'.isStable = true →
        (∀ q, s.Touched q ↔ s'.Touched q) → (∀ q v, .tell q v ∈ calls ↔ .tell q v ∈ calls') →
        ∀ q, Le (s.assignment q) (s'.assignment q) ∧ Le (s'.assignment q) (s.assignment q)) ∧
    (∀ s q a t, m = resting s → s.valueOf rhs q = some (a, t) →
      a = .ok (t.assignment q) ∧ t.Touched q ∧
      LeastClosed rhs t.Touched (calls ++ [.ask q]) t.assignment ∧
      ∀ S, LeastClosed rhs (fun _ => True) (calls ++ [.ask q]) S →
        (∀ p, ¬ t.Touched p → ∀ number es v,
          (rhs p).replay (fun p => .ok (S p)) number = (es, .value v) →
          ∀ p' w, .push p' w ∈ es → t.Touched p' → Le w (t.assignment p')) →
        Le (S q) (t.assignment q) ∧ Le (t.assignment q) (S q)) := by
  refine ⟨fun S hclosed hfacts q v hv => cached_le hfree hmono h hclosed hfacts hv, ?_, ?_⟩
  · rintro s rfl hstable
    have hempty := isStable_iff.mp hstable
    refine ⟨leastClosed_assignment hfree hmono h hempty, ?_⟩
    intro calls' s' h' hstable' htouched hfacts q
    exact ⟨assignment_le hfree hmono h h' (isStable_iff.mp hstable')
        (fun q => (htouched q).mp) (fun q v => (hfacts q v).mp) q,
      assignment_le hfree hmono h' h hempty (fun q => (htouched q).mpr)
        (fun q v => (hfacts q v).mpr) q⟩
  · rintro s q a t rfl hvalue
    obtain ⟨hasked, hempty, hq, rfl⟩ := valueOf_spec (sane_of_trail h) hvalue
    have htrail := h.trans hasked
    have hok := failure_eq_none hfree htrail q
    refine ⟨answer_of_touched (sane_of_trail htrail).1 hok hq, hq,
      leastClosed_assignment hfree hmono htrail hempty, fun S hS hnothing => ?_⟩
    exact table_of_leastClosed_all hfree hmono htrail hempty hnothing hS hq

end Least

/-! ## Two systems -/

/-- Two queries that read each other. The first pushes what it read, and more,
back to where it read it. -/
def feedback : Nat → Rhs Nat (PowerSet Nat) Empty Empty Empty (PowerSet Nat)
  | 0 => .read 1 fun v => .push 1 (v.insert 7) (.done v)
  | 1 => .read 0 fun v => .done (v.insert 1)
  | _ => .done .empty

lemma failureFree_feedback (q : Nat) : (feedback q).FailureFree := by
  match q with
  | 0 => exact Rhs.failureFree_read fun v => Rhs.failureFree_push (Rhs.failureFree_done v)
  | 1 => exact Rhs.failureFree_read fun v => Rhs.failureFree_done _
  | _ + 2 => exact Rhs.failureFree_done _

lemma monotone_feedback (q : Nat) : (feedback q).Monotone := by
  intro S number es v es' v' hrun hreads hreplay
  have hinsert : ∀ {a b : PowerSet Nat} (n : Nat), Le a b → Le (a.insert n) (b.insert n) := by
    intro a b n hab
    rw [PowerSet.le_iff] at hab ⊢
    intro k hk
    rw [PowerSet.mem_insert] at hk ⊢
    exact hk.imp_left (hab k)
  match q with
  | 0 =>
    cases hreplay
    cases hrun with
    | @read _ _ w _ _ hrest =>
      have hw : Le w (S 1) := hreads 1 w List.mem_cons_self
      cases hrest with
      | push hrest =>
        cases hrest
        refine ⟨hw, fun U hU p u hu => ?_⟩
        have hbig : Le ((S 1).insert 7) (U 1) := hU 1 _ (by simp)
        obtain ⟨rfl, rfl⟩ : p = 1 ∧ u = v.insert 7 := by simpa using hu
        exact LawfulLattice.le_trans (hinsert 7 hw) hbig
  | 1 =>
    cases hreplay
    cases hrun with
    | @read _ _ w _ _ hrest =>
      have hw : Le w (S 0) := hreads 0 w List.mem_cons_self
      cases hrest
      refine ⟨hinsert 1 hw, fun U _ p u hu => ?_⟩
      simp at hu
  | _ + 2 =>
    cases hreplay
    cases hrun
    exact ⟨LawfulLattice.le_refl _, fun U _ p u hu => by cases hu⟩

theorem least_solution_at_touched_queries_feedback :
    (∀ q, (feedback q).FailureFree) ∧ (∀ q, (feedback q).Monotone) ∧
      ∃ s, Trail feedback (resting empty) [.tell 0 (.singleton 5), .ask 1] (resting s) ∧
        (s.assignment 0).same (.ofList [1, 5, 7]) = true ∧
        LeastClosed feedback s.Touched [.tell 0 (.singleton 5), .ask 1] s.assignment := by
  let calls : List (Call Nat (PowerSet Nat)) := [.tell 0 (.singleton 5), .ask 1]
  obtain ⟨s, hs, hstable, hsame⟩ : ∃ s ∈ calls.foldlM (serve feedback 20) empty,
      s.isStable = true ∧ (s.assignment 0).same (.ofList [1, 5, 7]) = true := by
    decide +kernel
  have hserved : Served feedback calls s := Served.fresh.append hs
  obtain ⟨-, hrest, -⟩ := least_solution_at_touched_queries failureFree_feedback monotone_feedback
    hserved.trail
  exact ⟨failureFree_feedback, monotone_feedback, s, hserved.trail, hsame, (hrest s rfl hstable).1⟩

/-- A query with a fact for another one, which does not read it. -/
def sideFact : Nat → Rhs Nat (PowerSet Nat) Empty Empty Empty (PowerSet Nat)
  | 0 => .push 1 (.singleton 7) (.done .empty)
  | _ => .done .empty

lemma failureFree_sideFact (q : Nat) : (sideFact q).FailureFree := by
  match q with
  | 0 => exact Rhs.failureFree_push (Rhs.failureFree_done _)
  | _ + 1 => exact Rhs.failureFree_done _

lemma monotone_sideFact (q : Nat) : (sideFact q).Monotone := by
  intro S number es v es' v' hrun hreads hreplay
  match q with
  | 0 =>
    cases hreplay
    cases hrun with
    | push hrest =>
      cases hrest
      exact ⟨LawfulLattice.le_refl _, fun U hU => hU⟩
  | _ + 1 =>
    cases hreplay
    cases hrun
    exact ⟨LawfulLattice.le_refl _, fun U hU => hU⟩

/-- A closed assignment contains the fact, but the answer of a fresh solver does
not: the query that pushes it was never touched. The answer changes once that
query has been asked. -/
theorem unasked_query_withholds_fact :
    (∀ q, (sideFact q).FailureFree) ∧ (∀ q, (sideFact q).Monotone) ∧
      (∀ S, (∀ q, Rhs.ClosedAt sideFact S q) → 7 ∈ S 1) ∧
      (∃ a t, empty.valueOf sideFact 1 = some (.ok a, t) ∧ ¬ 7 ∈ a) ∧
      ∃ s a t, Served sideFact [.ask 0] s ∧ s.valueOf sideFact 1 = some (.ok a, t) ∧ 7 ∈ a := by
  refine ⟨failureFree_sideFact, monotone_sideFact, fun S hS => ?_, ?_, ?_⟩
  · obtain ⟨number, es, v, hreplay, -, hpushes⟩ := hS 0
    cases hreplay
    have hle : Le (PowerSet.singleton 7) (S 1) := hpushes 1 _ List.mem_cons_self
    exact PowerSet.le_iff.mp hle 7 (PowerSet.mem_singleton.mpr rfl)
  · obtain ⟨⟨e | a, t⟩, hvalue, a, ⟨⟩, hout⟩ : ∃ x ∈ empty.valueOf sideFact 1,
        ∃ a ∈ x.1.toOption, ¬ 7 ∈ a := by
      decide +kernel
    exact ⟨a, t, hvalue, hout⟩
  · obtain ⟨s, hs, ⟨e | a, t⟩, hvalue, a, ⟨⟩, hin⟩ : ∃ s ∈ serve sideFact 20 empty (.ask 0),
        ∃ x ∈ s.valueOf sideFact 1, ∃ a ∈ x.1.toOption, 7 ∈ a := by
      decide +kernel
    exact ⟨s, a, t, Served.fresh.asked hs, hvalue, hin⟩

end Solver

end ValueFlow
