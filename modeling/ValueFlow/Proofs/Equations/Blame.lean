import ValueFlow.Proofs.Equations.Convergence

/-!
# Who is to blame for a failure

A failure spreads from a query to everything that read it, while reads are
still being recorded and other queries run. Nothing is missed, and nothing fails
without a reason: a chain of recorded reads leads to the query that is to blame.

The chain is found by induction along the trail. Recorded reads and failures
stay, so only a move that marks new failures has to be looked at
(`move_failures`). The queries it marks have a chain to the one that failed,
and that one either ended with the error itself or read a query that had
failed before, which has a chain already.
-/

namespace ValueFlow

open Moment (resting running)
open Relation (ReflTransGen)

namespace Solver

variable {Q V E N T : Type}

/-! ## Recorded reads -/

def HasRead (s : Solver Q V E N T) (p r : Q) : Prop :=
  ∃ j k c, s.queries.get? j = some p ∧ s.queries.get? k = some r ∧ s.cells[k]? = some c ∧
    j ∈ c.readers

lemma HasRead.grows [Lattice V] {s t : Solver Q V E N T} {p r : Q} (h : s.HasRead p r)
    (hst : Grows s t) : t.HasRead p r := by
  obtain ⟨j, k, c, hj, hk, hc, hread⟩ := h
  obtain ⟨d, hd, -, -, hreaders⟩ := hst.cells k c hc
  exact ⟨j, k, d, hst.queries j p hj, hst.queries k r hk, hd, hreaders j hread⟩

/-! ## Failures after an operation -/

section Failure

variable [DecidableEq Q] [Fingerprint Q] {s t : Solver Q V E N T} {q : Q}

lemma failure_of_not_touched (h : ¬ s.Touched q) : s.failure q = none := by
  cases hfind : s.queries.find? q with
  | none => simp [failure, hfind]
  | some i => exact absurd ⟨i, Numbering.get?_of_find? hfind⟩ h

lemma failure_of_maps {f : Nat → Cell V E N → Cell V E N} (hmap : Maps s f t)
    (hqueries : t.queries = s.queries) (hf : ∀ i c, (f i c).failure = c.failure) :
    t.failure q = s.failure q := by
  unfold failure
  rw [hqueries]
  cases s.queries.find? q with
  | none => rfl
  | some i =>
    simp only [Option.bind_eq_bind, Option.bind_some, hmap i]
    cases s.cells[i]? with
    | none => rfl
    | some c => exact hf i c

lemma find?_of_failure [Lattice V] {e : E} (h : s.failure q = some e) :
    ∃ i, s.queries.find? q = some i ∧ s.current i = .error e := by
  unfold failure at h
  cases hi : s.queries.find? q with
  | none => simp [hi] at h
  | some i =>
    cases hc : s.cells[i]? with
    | none => simp [hi, hc] at h
    | some c => exact ⟨i, rfl, (current_eq_error_iff hc).mpr (by simpa [hi, hc] using h)⟩

/-- A failed query takes no facts. -/
lemma pushFact_of_failure [Lattice V] {e : E} (h : s.failure q = some e) (v : V) :
    s.pushFact q v = (false, s) := by
  obtain ⟨i, hi, hcurrent⟩ := find?_of_failure h
  simp [pushFact, hi, hcurrent]

variable [Fingerprint T]

/-- While a table evolves, the failures stay as they are. -/
lemma failure_of_evolves [Lattice V] (hs : s.Coherent) (ht : t.Coherent) (hst : Evolves s t) :
    t.failure q = s.failure q := by
  by_cases hq : s.Touched q
  · obtain ⟨i, hi⟩ := hq
    obtain ⟨c, hc⟩ := hs.exists_cell hi
    obtain ⟨d, hd, hcd, -⟩ := hst.cells i c hc
    rw [failure_eq ht (hst.queries i q hi) hd, failure_eq hs hi hc, hcd.failure]
  · rw [failure_of_not_touched hq]
    by_cases hnew : t.Touched q
    · -- a query that is new has not failed
      obtain ⟨i, hi⟩ := hnew
      obtain ⟨d, hd⟩ := ht.exists_cell hi
      rw [failure_eq ht hi hd]
      rcases hst.fresh i d hd with ⟨c, hc⟩ | ⟨-, hok⟩
      · obtain ⟨q', hq'⟩ := hs.exists_query hc
        have hsame := hst.queries i q' hq'
        rw [hi] at hsame
        cases hsame
        exact absurd ⟨i, hq'⟩ hq
      · exact hok
    · exact failure_of_not_touched hnew

/-- **What a failure marks.** A query that had failed keeps its error. A query
that fails now has the new error, and a chain of reads to the query where it
came up. -/
theorem failure_fail (hs : s.Coherent) {i : Nat} {p : Q} (hp : s.queries.get? i = some p) (e : E) :
    (∀ e', s.failure q = some e' → (s.fail i e).failure q = some e') ∧
      ∀ e', (s.fail i e).failure q = some e' →
        s.failure q = some e' ∨ e' = e ∧ ReflTransGen s.HasRead q p := by
  obtain ⟨marked, hmarks, hreach⟩ := spread_marks e (s.readCount + 1) [i] s
  have hfail := hmarks.coherent hs
  have hchain : ∀ j ∈ marked, ∀ a, s.queries.get? j = some a → ReflTransGen s.HasRead a p := by
    refine hreach (fun j => ∀ a, s.queries.get? j = some a → ReflTransGen s.HasRead a p) ?_ ?_
    · intro j hj a ha
      rw [List.mem_singleton.mp hj, hp] at ha
      cases ha
      exact .refl
    · -- whoever read a query with a chain has one, too
      intro k c hc hk j hj a ha
      obtain ⟨b, hb⟩ := hs.exists_query hc
      exact .head ⟨j, k, c, ha, hb, hc, hj⟩ (hk b hb)
  by_cases hq : s.Touched q
  · obtain ⟨j, hj⟩ := hq
    obtain ⟨c, hc⟩ := hs.exists_cell hj
    have hafter := failure_eq hfail (hmarks.queries ▸ hj) (hmarks.cells.get hc)
    change (s.fail i e).failure q = _ at hafter
    rw [hafter, failure_eq hs hj hc]
    refine ⟨fun e' he' => by simp [he'], fun e' he' => ?_⟩
    obtain hold | ⟨-, hnew⟩ := Option.or_eq_some_iff.mp he'
    · exact Or.inl hold
    · split at hnew
      · next hmarked =>
        cases hnew
        exact Or.inr ⟨rfl, hchain j hmarked q hj⟩
      · cases hnew
  · have hq' : ¬ (s.fail i e).Touched q := by
      rintro ⟨j, hj⟩
      rw [queries_fail] at hj
      exact hq ⟨j, hj⟩
    simp [failure_of_not_touched hq, failure_of_not_touched hq']

/-- A query that had not failed fails with the error that came up. -/
lemma failure_fail_self (hs : s.Coherent) {i : Nat} {p : Q} (hp : s.queries.get? i = some p)
    (hok : s.failure p = none) (e : E) : (s.fail i e).failure p = some e := by
  have hi : i < s.cells.size := by
    rw [hs.sized]
    exact Numbering.lt_size_of_get? hp
  obtain ⟨c, hc, hfailed⟩ := failed_fail hi e
  rw [← failure_eq (coherent_fail hs i e) (by rw [queries_fail]; exact hp) hc] at hfailed
  obtain ⟨e', he'⟩ := Option.ne_none_iff_exists'.mp hfailed
  rcases (failure_fail hs hp e).2 e' he' with hold | ⟨rfl, -⟩
  · rw [hok] at hold
    cases hold
  · exact he'

end Failure

/-! ## Failures from moment to moment -/

variable [DecidableEq Q] [Fingerprint Q] [Lattice V] [LawfulLattice V] [DecidableEq N]
  [DecidableEq T] [Fingerprint T] {rhs : Q → Rhs Q V E N T V} {m m' : Moment Q V E N T}
  {calls last : List (Call Q V)} {q : Q} {e : E}

omit [DecidableEq N] [DecidableEq T] in
/-- Where a failure comes up, no other failure has changed yet, and the query that
fails has ended with the error or read a query that failed with it. -/
lemma Failing.spec {i : Nat} {u : Solver Q V E N T} (h : Failing m i e u) (hm : Sane rhs m) :
    u.Coherent ∧ (∀ q, u.failure q = m.solver.failure q) ∧
      ∃ p, u.queries.get? i = some p ∧ u.failure p = none ∧
        (m = running i (.fail e) u ∨ ∃ r, m.solver.failure r = some e ∧ u.HasRead p r) := by
  cases h with
  | own =>
    obtain ⟨hcoherent, -, -, ⟨c, hc, hok⟩, -⟩ := hm
    obtain ⟨p, hp⟩ := hcoherent.exists_query hc
    exact ⟨hcoherent, fun _ => rfl, p, hp, (failure_eq hcoherent hp hc).trans hok, Or.inl rfl⟩
  | @read s i q next e hread =>
    obtain ⟨hcoherent, -, -, hopen, -⟩ := hm
    obtain ⟨htouch, hevolves, hget⟩ := touch_spec hcoherent q
    obtain ⟨c, hc, hok⟩ := hopen.evolves hevolves
    obtain ⟨p, hp⟩ := htouch.exists_query hc
    have hreader := coherent_addReader htouch (s.touch q).1 (hopen.evolves hevolves).lt_size
    have hmap := maps_addReader (s.touch q).2 (s.touch q).1 i
    have hsame : ∀ q', ((s.touch q).2.addReader (s.touch q).1 i).failure q' =
        (s.touch q).2.failure q' := fun q' =>
      failure_of_maps hmap rfl fun j c => by split <;> rfl
    have hbefore : ∀ q', (s.touch q).2.failure q' = s.failure q' := fun q' =>
      failure_of_evolves hcoherent htouch hevolves
    refine ⟨hreader, fun q' => (hsame q').trans (hbefore q'), p, hp, ?_, Or.inr ⟨q, ?_, ?_⟩⟩
    · rw [hsame, failure_eq htouch hp hc, hok]
    · obtain ⟨d, hd⟩ := htouch.exists_cell hget
      show s.failure q = some e
      rw [← hbefore, failure_eq htouch hget hd]
      exact (current_eq_error_iff hd).mp hread
    · obtain ⟨d, hd⟩ := htouch.exists_cell hget
      refine ⟨i, (s.touch q).1, _, hp, hget, hmap.get hd, ?_⟩
      rw [if_pos rfl]
      exact PowerSet.mem_insert.mpr (Or.inr rfl)

lemma move_failures (h : Move rhs m last m') (hm : Sane rhs m) :
    (∀ q, m'.solver.failure q = m.solver.failure q) ∨
      ∃ i e u, Failing m i e u ∧ m' = resting (u.fail i e) := by
  have hm' := (sane_move h hm).coherent
  rcases move_cases h hm with hst | hfails | ⟨i, w, hpop, hst, -⟩
  · exact Or.inl fun q => failure_of_evolves hm.coherent hm' hst
  · exact Or.inr hfails
  · refine Or.inl fun q => ?_
    rw [failure_of_evolves (coherent_dequeue hm.coherent hpop) hm' hst]
    exact failure_of_maps (maps_dequeue _ i w) rfl fun j c => by split <;> rfl

/-- **Once failed, a query keeps its error.** -/
theorem failure_move (h : Move rhs m last m') (hm : Sane rhs m) (he : m.solver.failure q = some e) :
    m'.solver.failure q = some e := by
  rcases move_failures h hm with hsame | ⟨i, e', u, hfailing, rfl⟩
  · exact (hsame q).trans he
  · obtain ⟨hu, hsame, p, hp, -⟩ := hfailing.spec hm
    exact (failure_fail hu hp e').1 e ((hsame q).trans he)

lemma failure_trail (h : Trail rhs m calls m') (hm : Sane rhs m)
    (he : m.solver.failure q = some e) : m'.solver.failure q = some e := by
  induction h with
  | rest => exact he
  | snoc htrail hmove ih => exact failure_move hmove (htrail.keeps sane_move hm) ih

/-! ## The origin of a failure -/

/-- On the way to the moment an evaluation of `r` ended with the error `e`. -/
def Threw (rhs : Q → Rhs Q V E N T V) (calls : List (Call Q V)) (m : Moment Q V E N T) (r : Q)
    (e : E) : Prop :=
  ∃ before after i u, calls = before ++ after ∧ u.queries.get? i = some r ∧
    Trail rhs (resting empty) before (running i (.fail e) u) ∧
    Trail rhs (running i (.fail e) u) after m

omit [LawfulLattice V] in
lemma Threw.move {r : Q} (h : Threw rhs calls m r e) (hmove : Move rhs m last m') :
    Threw rhs (calls ++ last) m' r e := by
  obtain ⟨before, after, i, u, rfl, hr, hbefore, hafter⟩ := h
  exact ⟨before, after ++ last, i, u, List.append_assoc _ _ _, hr, hbefore, .snoc hafter hmove⟩

/-- An evaluation under way runs the right-hand side of its query. -/
lemma run_of_running {i : Nat} {p : Rhs Q V E N T V} {s : Solver Q V E N T}
    (h : Trail rhs (resting empty) calls (running i p s)) :
    ∃ q es, s.queries.get? i = some q ∧ (rhs q).Run es p := by
  generalize hm : running i p s = m at h
  induction h generalizing i p s with
  | rest => cases hm
  | snoc htrail hmove ih =>
    have hsane := sane_of_trail htrail
    have hkept := (grows_move hmove hsane).queries
    subst hm
    cases hmove with
    | start hpop hok hq => exact ⟨_, [], hq, .stop _⟩
    | read hread =>
      obtain ⟨q, es, hq, hrun⟩ := ih rfl
      exact ⟨q, _, hkept _ _ hq, hrun.trans (.read (.stop _))⟩
    | push =>
      obtain ⟨q, es, hq, hrun⟩ := ih rfl
      exact ⟨q, _, hkept _ _ hq, hrun.trans (.push (.stop _))⟩
    | note =>
      obtain ⟨q, es, hq, hrun⟩ := ih rfl
      exact ⟨q, _, hkept _ _ hq, hrun.trans (.note (.stop _))⟩
    | number =>
      obtain ⟨q, es, hq, hrun⟩ := ih rfl
      exact ⟨q, _, hkept _ _ hq, hrun.trans (.number (.stop _))⟩

lemma Threw.run {r : Q} (h : Threw rhs calls m r e) : ∃ es, (rhs r).Run es (.fail e) := by
  obtain ⟨before, after, i, u, -, hr, hbefore, -⟩ := h
  obtain ⟨r', es, hr', hrun⟩ := run_of_running hbefore
  cases hr.symm.trans hr'
  exact ⟨es, hrun⟩

/-- The failure of `q` with `e` goes back along recorded reads to a query that
failed with `e` by itself. -/
def Blamed (rhs : Q → Rhs Q V E N T V) (calls : List (Call Q V)) (m : Moment Q V E N T) (q : Q)
    (e : E) : Prop :=
  ∃ r, ReflTransGen m.solver.HasRead q r ∧ m.solver.failure r = some e ∧ Threw rhs calls m r e

lemma Blamed.move (h : Blamed rhs calls m q e) (hmove : Move rhs m last m') (hm : Sane rhs m) :
    Blamed rhs (calls ++ last) m' q e := by
  obtain ⟨r, hchain, hr, hthrew⟩ := h
  exact ⟨r, ReflTransGen.mono (fun _ _ hread => HasRead.grows hread (grows_move hmove hm)) _ _ hchain,
    failure_move hmove hm hr, hthrew.move hmove⟩

/-- **Every failed query has a chain of recorded reads to a query whose own
right-hand side ended with the error.** -/
theorem blamed_of_trail (h : Trail rhs (resting empty) calls m)
    (he : m.solver.failure q = some e) : Blamed rhs calls m q e := by
  induction h generalizing q e with
  | rest => simp [Moment.solver, failure, empty, Numbering.empty, Numbering.find?] at he
  | @snoc m m' calls last htrail hmove ih =>
    have hm := sane_of_trail htrail
    rcases move_failures hmove hm with hsame | ⟨i, e', u, hfailing, rfl⟩
    · rw [hsame] at he
      exact (ih he).move hmove hm
    · obtain ⟨hu, hsame, p, hp, hok, hwhy⟩ := hfailing.spec hm
      rcases (failure_fail hu hp e').2 e he with hold | ⟨rfl, hchain⟩
      · rw [hsame] at hold
        exact (ih hold).move hmove hm
      -- marked now: the chain goes on from the query that was under evaluation
      have hchain' := ReflTransGen.mono (fun _ _ hread => HasRead.grows hread (grows_fail u i e))
        _ _ hchain
      rcases hwhy with rfl | ⟨r, hr, hread⟩
      · exact ⟨p, hchain', failure_fail_self hu hp hok e,
          ⟨calls, last, i, u, rfl, hp, htrail, hmove.trail⟩⟩
      · obtain ⟨r', hrest, hr', hthrew⟩ := (ih hr).move hmove hm
        exact ⟨r', hchain'.trans (.head (hread.grows (grows_fail u i e)) hrest), hr', hthrew⟩

/-! ## Calls about a failed query -/

section Calls

variable {s t : Solver Q V E N T}

/-- Asking for a failed query gives its error, unless the drain before does not
end. -/
lemma valueOf_of_failure (hs : Sane rhs (resting s)) (h : s.failure q = some e) :
    s.valueOf rhs q = (s.drain rhs ample).map fun t => (.error e, t) := by
  obtain ⟨i, hi, -⟩ := find?_of_failure h
  cases hdrain : s.drain rhs ample with
  | none => simp [valueOf, touch, hi, hdrain]
  | some t =>
    have htrail := trail_drain hdrain
    have hlast : t.failure q = some e := failure_trail htrail hs h
    obtain ⟨k, hk, hcurrent⟩ := find?_of_failure hlast
    have hsane : Sane rhs (resting t) := htrail.keeps sane_move hs
    have hi' : t.queries.get? i = some q :=
      (grows_trail htrail hs).queries i q (Numbering.get?_of_find? hi)
    have hsame : i = k := hsane.1.queries.distinct i k q hi' (Numbering.get?_of_find? hk)
    simp [valueOf, touch, hi, hdrain, hsame, hcurrent]

end Calls

/-- **Failures propagate exactly.** For any equations and any calls, at every
moment:

* closed: whatever is recorded as having read a failed query has failed;
* justified: from every failed query a chain of recorded reads leads to a query
  whose own right-hand side ended with just this error; so a query without such a
  chain has not failed;
* permanent: at every later moment the query has the same error, a push to it
  reports `false` and leaves the solver as it is, and asking for it gives the
  error after the drain, so at once if nothing is queued. -/
theorem failures_propagate_exactly (h : Trail rhs (resting empty) calls m) :
    (∀ p r, m.solver.HasRead p r → m.solver.failure r ≠ none → m.solver.failure p ≠ none) ∧
    (∀ q e, m.solver.failure q = some e → ∃ r es, ReflTransGen m.solver.HasRead q r ∧
      m.solver.failure r = some e ∧ Threw rhs calls m r e ∧ (rhs r).Run es (.fail e)) ∧
    (∀ q, (∀ r e, ReflTransGen m.solver.HasRead q r → ¬ Threw rhs calls m r e) →
      m.solver.failure q = none) ∧
    (∀ q e, m.solver.failure q = some e → ∀ {later m'}, Trail rhs m later m' →
      m'.solver.failure q = some e ∧ (∀ v, m'.solver.pushFact q v = (false, m'.solver)) ∧
      ∀ s, m' = resting s →
        (s.valueOf rhs q = (s.drain rhs ample).map fun t => (.error e, t)) ∧
        (s.isStable = true → s.valueOf rhs q = some (.error e, s))) := by
  have hsane := sane_of_trail h
  refine ⟨?_, ?_, ?_, ?_⟩
  · rintro p r ⟨j, k, c, hj, hk, hc, hread⟩ hfailed
    rw [failure_eq hsane.coherent hk hc] at hfailed
    obtain ⟨d, hd, hp⟩ := hsane.failureClosed k c hc hfailed j hread
    rwa [failure_eq hsane.coherent hj hd]
  · intro q e he
    obtain ⟨r, hchain, hr, hthrew⟩ := blamed_of_trail h he
    obtain ⟨es, hrun⟩ := hthrew.run
    exact ⟨r, es, hchain, hr, hthrew, hrun⟩
  · intro q hnone
    cases hq : m.solver.failure q with
    | none => rfl
    | some e =>
      obtain ⟨r, hchain, -, hthrew⟩ := blamed_of_trail h hq
      exact absurd hthrew (hnone r e hchain)
  · intro q e he later m' hlater
    have hlast := failure_trail hlater hsane he
    refine ⟨hlast, pushFact_of_failure hlast, ?_⟩
    rintro s rfl
    have hvalue := valueOf_of_failure (hlater.keeps sane_move hsane) hlast
    refine ⟨hvalue, fun hstable => ?_⟩
    rw [hvalue, drain_of_settled (isStable_iff.mp hstable)]
    rfl

/-- Two queries in a row that wait for a third one, which fails, and a query that
reads the first of them. -/
def relay : Nat → Rhs Nat (PowerSet Nat) String Empty Empty (PowerSet Nat)
  | 0 => .read 1 .done
  | 1 => .read 2 .done
  | 2 => .push 0 (.singleton 7) (.fail "no route")
  | 3 => .read 0 .done
  | _ => .done .empty

theorem failures_propagate_exactly_relay :
    ∃ s, Trail relay (resting empty) [.ask 0, .tell 4 (.singleton 5), .ask 3] (resting s) ∧
      s.failure 3 = some "no route" ∧ s.failure 4 = none ∧
      (∃ r es, ReflTransGen s.HasRead 3 r ∧ s.failure r = some "no route" ∧
        Threw relay [.ask 0, .tell 4 (.singleton 5), .ask 3] (resting s) r "no route" ∧
        (relay r).Run es (.fail "no route")) ∧
      s.pushFact 3 (.singleton 9) = (false, s) ∧
      s.valueOf relay 3 = some (.error "no route", s) := by
  let calls : List (Call Nat (PowerSet Nat)) := [.ask 0, .tell 4 (.singleton 5), .ask 3]
  obtain ⟨s, hs, hthree, hfour, hstable⟩ : ∃ s ∈ calls.foldlM (serve relay 20) empty,
      s.failure 3 = some "no route" ∧ s.failure 4 = none ∧ s.isStable = true := by
    decide +kernel
  have htrail : Trail relay (resting empty) calls (resting s) := (Served.fresh.append hs).trail
  obtain ⟨-, hjustified, -, hpermanent⟩ := failures_propagate_exactly htrail
  obtain ⟨-, hpush, hvalue⟩ := hpermanent 3 _ hthree .rest
  exact ⟨s, htrail, hthree, hfour, hjustified 3 _ hthree, hpush _, (hvalue s rfl).2 hstable⟩

end Solver

end ValueFlow
