import ValueFlow.Proofs.Equations.Moments
import ValueFlow.Proofs.Equations.Records
import ValueFlow.Proofs.Equations.Run

/-!
# Every query is justified

The invariant of a solver at work. A query is *justified* if, unless it has
failed or is queued, it has a run whose result is below its value and whose requests the
table still accepts. A request is accepted as long as the value read is the
one in the table, with the reader recorded, and the fact pushed is below the
value of its query. When a value changes its recorded readers are queued, so
a request that is no longer accepted belongs to a queued query; this is what
`Evolves` was made to say. A query that fails takes its readers with it.

A relation `K` between the reports on record and the requests of the run can be
kept as well (`SaneWith`), as long as the reports are not forgotten.

Nothing is assumed of the right-hand sides; in particular they need not be
monotone.
-/

namespace ValueFlow

open ValueFlow.Lattice (Le)
open Moment (resting running)

namespace Solver

variable {Q V E N T : Type}

def Touched (s : Solver Q V E N T) (q : Q) : Prop := ∃ i, s.queries.get? i = some q

def Holds [Lattice V] (s : Solver Q V E N T) (q : Q) (v : V) : Prop :=
  ∃ k c, s.queries.get? k = some q ∧ s.cells[k]? = some c ∧ (c.failure = none → Le v c.value)

/-- The table bears the request out: the value read by `j` is there and the
read is recorded, the fact pushed is contained, the number given is known. -/
def Accepts [Lattice V] (s : Solver Q V E N T) (j : Nat) : Event Q V N T → Prop
  | .read q v => ∃ k c, s.queries.get? k = some q ∧ s.cells[k]? = some c ∧
      c.failure = none ∧ c.value = v ∧ j ∈ c.readers
  | .push q v => s.Holds q v
  | .note _ => True
  | .number t n => s.things.get? n = some t

/-- A run of the right-hand side of `j` from the start to `p`, with requests
that the table accepts and that go with the reports on record. -/
def Progressed [Lattice V] (K : List N × Option Nat → List (Event Q V N T) → Prop)
    (rhs : Q → Rhs Q V E N T V) (s : Solver Q V E N T) (j : Nat) (p : Rhs Q V E N T V) : Prop :=
  ∃ q es, s.queries.get? j = some q ∧ (rhs q).Run es p ∧ (∀ e ∈ es, s.Accepts j e) ∧
    K (s.record j) es

/-- Unless it failed or is queued, the query has an accepted run whose result
is below its value. -/
def Justified [Lattice V] (K : List N × Option Nat → List (Event Q V N T) → Prop)
    (rhs : Q → Rhs Q V E N T V) (s : Solver Q V E N T) (j : Nat) : Prop :=
  ∀ c, s.cells[j]? = some c → c.failure = none → c.queued = false →
    ∃ v, s.Progressed K rhs j (.done v) ∧ Le v c.value

def Idle (s : Solver Q V E N T) (j : Nat) : Prop :=
  ∃ c, s.cells[j]? = some c ∧ c.failure = none ∧ c.queued = false

section Idle

variable {s t : Solver Q V E N T} {i j : Nat} {w : Fifo Nat}

lemma Idle.not_queued (h : s.Idle j) : ¬ s.Queued j := by
  obtain ⟨c, hc, -, hidle⟩ := h
  rintro ⟨d, hd, hqueued⟩
  rw [hc] at hd
  cases hd
  rw [hidle] at hqueued
  cases hqueued

lemma Idle.not_failed (h : s.Idle j) : ¬ s.Failed j := by
  obtain ⟨c, hc, hok, -⟩ := h
  exact fun hfailed => hfailed.not_open ⟨c, hc, hok⟩

/-- What is idle afterwards was idle before. -/
lemma Idle.of_evolves [Lattice V] (h : t.Idle j) (hst : Evolves s t) : s.Idle j := by
  obtain ⟨d, hd, hok, hidle⟩ := h
  rcases hst.fresh j d hd with ⟨c, hc⟩ | ⟨hnew, -⟩
  · obtain ⟨d', hd', hcd, -⟩ := hst.cells j c hc
    cases hd.symm.trans hd'
    refine ⟨c, hc, hcd.failure ▸ hok, ?_⟩
    cases hq : c.queued with
    | false => rfl
    | true =>
      rw [hcd.queued hq] at hidle
      cases hidle
  · rw [hnew] at hidle
    cases hidle

lemma Idle.of_breaks (h : t.Idle j) (hst : Breaks s t) : s.Idle j := by
  obtain ⟨d, hd, hok, hidle⟩ := h
  obtain ⟨f, hmap, hf⟩ := hst.cells
  obtain ⟨c, hc, rfl⟩ := hmap.exists_of_get hd
  obtain ⟨-, hqueued, -, hkeep⟩ := hf j c
  exact ⟨c, hc, Classical.byContradiction fun hfail => hkeep hfail hok, hqueued ▸ hidle⟩

variable [Fingerprint Q] [Fingerprint T]

/-- A query that is passed over has failed, since what is on the work list has a
cell. -/
lemma not_idle_of_skipped [Lattice V] (hs : s.Coherent)
    (h : (∃ e, s.current i = .error e) ∨ s.queries.get? i = none) : ¬ (s.dequeue i w).Idle i := by
  rintro ⟨d, hd, hok, -⟩
  obtain ⟨c, hc, rfl⟩ := (maps_dequeue s i w).exists_of_get hd
  rw [if_pos rfl] at hok
  obtain ⟨q, hq⟩ := hs.exists_query hc
  rcases h with ⟨e, he⟩ | hnone
  · rw [(current_eq_error_iff hc).mp he] at hok
    cases hok
  · rw [hq] at hnone
    cases hnone

lemma idle_of_settled (hs : s.Coherent) (hempty : s.worklist.toList = []) {c : Cell V E N}
    (hc : s.cells[j]? = some c) (hok : c.failure = none) : s.Idle j := by
  refine ⟨c, hc, hok, ?_⟩
  cases hq : c.queued with
  | false => rfl
  | true =>
    have hmem := (hs.listed j).mpr ⟨c, hc, hq⟩
    rw [hempty] at hmem
    cases hmem

end Idle

/-- Every cell of `s` is still there in `t`, with a value at least as large and with all
its readers, and failed if it had failed. -/
structure Grows [Lattice V] (s t : Solver Q V E N T) : Prop where
  queries : s.queries.Extends t.queries
  cells   : ∀ (i : Nat) (c : Cell V E N), s.cells[i]? = some c →
              ∃ d, t.cells[i]? = some d ∧ Le c.value d.value ∧
                (c.failure ≠ none → d.failure ≠ none) ∧ ∀ j ∈ c.readers, j ∈ d.readers

section Grows

variable [Lattice V] {s t u : Solver Q V E N T} {q : Q} {v : V}

lemma Evolves.grows (h : Evolves s t) : Grows s t := by
  refine ⟨h.queries, fun i c hc => ?_⟩
  obtain ⟨d, hd, hcd, -⟩ := h.cells i c hc
  exact ⟨d, hd, hcd.value, hcd.failure ▸ id, hcd.readers⟩

variable [LawfulLattice V]

lemma Grows.refl (s : Solver Q V E N T) : Grows s s :=
  ⟨.refl _, fun _ c hc => ⟨c, hc, LawfulLattice.le_refl _, id, fun _ => id⟩⟩

lemma Grows.trans (hst : Grows s t) (htu : Grows t u) : Grows s u := by
  refine ⟨hst.queries.trans htu.queries, fun i c hc => ?_⟩
  obtain ⟨d, hd, hcd, hfailed, hreaders⟩ := hst.cells i c hc
  obtain ⟨e, he, hde, hfailed', hreaders'⟩ := htu.cells i d hd
  exact ⟨e, he, LawfulLattice.le_trans hcd hde, hfailed' ∘ hfailed,
    fun j hj => hreaders' j (hreaders j hj)⟩

lemma Breaks.grows (h : Breaks s t) : Grows s t := by
  obtain ⟨f, hmap, hf⟩ := h.cells
  refine ⟨h.queries ▸ .refl _, fun i c hc => ?_⟩
  obtain ⟨hvalue, -, hreaders, hfailed⟩ := hf i c
  exact ⟨f i c, hmap.get hc, hvalue ▸ LawfulLattice.le_refl _, hfailed, hreaders⟩

lemma grows_dequeue (s : Solver Q V E N T) (i : Nat) (w : Fifo Nat) :
    Grows s (s.dequeue i w) := by
  refine ⟨.refl _, fun j c hc => ⟨_, (maps_dequeue s i w).get hc, ?_⟩⟩
  split <;> exact ⟨LawfulLattice.le_refl _, id, fun _ => id⟩

lemma grows_fail (s : Solver Q V E N T) (i : Nat) (e : E) : Grows s (s.fail i e) := by
  obtain ⟨marked, hmarks, -⟩ := spread_marks e (s.readCount + 1) [i] s
  refine ⟨hmarks.queries ▸ .refl _, fun j c hc => ⟨_, hmarks.cells.get hc,
    LawfulLattice.le_refl _, fun hfailed => ?_, fun _ => id⟩⟩
  obtain ⟨e', he'⟩ := Option.ne_none_iff_exists'.mp hfailed
  simp [he']

lemma Holds.grows (h : s.Holds q v) (hst : Grows s t) : t.Holds q v := by
  obtain ⟨k, c, hk, hc, hbelow⟩ := h
  obtain ⟨d, hd, hle, hfailed, -⟩ := hst.cells k c hc
  refine ⟨k, d, hst.queries k q hk, hd, fun hok => ?_⟩
  exact LawfulLattice.le_trans (hbelow (by_contra fun hfail => hfailed hfail hok)) hle

end Grows

section Accepts

variable [Lattice V] {rhs : Q → Rhs Q V E N T V} {s t : Solver Q V E N T} {j : Nat}
  {K : List N × Option Nat → List (Event Q V N T) → Prop} {e : Event Q V N T}

/-- A request stays accepted or the query is queued. -/
lemma Accepts.evolves [LawfulLattice V] (h : s.Accepts j e)
    (hst : Evolves s t) : t.Queued j ∨ t.Accepts j e := by
  cases e with
  | read q v =>
    obtain ⟨k, c, hk, hc, hok, hv, hj⟩ := h
    obtain ⟨d, hd, hcd, hvalue⟩ := hst.cells k c hc
    rcases hvalue with hsame | hqueued
    · exact Or.inr ⟨k, d, hst.queries k q hk, hd, hcd.failure.trans hok, hsame.trans hv,
        hcd.readers j hj⟩
    · exact Or.inl (hqueued j hj)
  | push q v => exact Or.inr (Holds.grows h hst.grows)
  | note n => exact Or.inr trivial
  | number thing n => exact Or.inr (hst.things n thing h)

/-- A request of a query that has not failed stays accepted when others fail. -/
lemma Accepts.breaks [LawfulLattice V] (h : s.Accepts j e) (hst : Breaks s t)
    (hj : ¬ t.Failed j) : t.Accepts j e := by
  cases e with
  | read q v =>
    obtain ⟨f, hmap, hf⟩ := hst.cells
    obtain ⟨k, c, hk, hc, hok, hv, hjc⟩ := h
    obtain ⟨hvalue, -, hreaders, -⟩ := hf k c
    refine ⟨k, f k c, hst.queries ▸ hk, hmap.get hc, ?_, hvalue.trans hv, hreaders j hjc⟩
    -- a reader of a failed query has failed
    by_cases hfail : (f k c).failure = none
    · exact hfail
    · exact absurd (hst.closed k _ (hmap.get hc) hfail j (hreaders j hjc)) hj
  | push q v => exact Holds.grows h hst.grows
  | note n => trivial
  | number thing n =>
    show t.things.get? n = some thing
    rw [hst.things]
    exact h

lemma Accepts.dequeue [LawfulLattice V] (h : s.Accepts j e) (i : Nat) (w : Fifo Nat) :
    (s.dequeue i w).Accepts j e := by
  cases e with
  | read q v =>
    obtain ⟨k, c, hk, hc, hok, hv, hj⟩ := h
    refine ⟨k, _, hk, (maps_dequeue s i w).get hc, ?_⟩
    split <;> exact ⟨hok, hv, hj⟩
  | push q v => exact Holds.grows h (grows_dequeue s i w)
  | note n => trivial
  | number thing n => exact h

/-- With one more request that the table accepts, the evaluation goes on unless it is
queued again. -/
lemma Progressed.request [LawfulLattice V] {p p' : Rhs Q V E N T V}
    (h : s.Progressed K rhs j p) (hst : Evolves s t) (hrun : p.Run [e] p') (he : t.Accepts j e)
    (hK : ∀ es, K (s.record j) es → K (t.record j) (es ++ [e])) :
    t.Queued j ∨ t.Progressed K rhs j p' := by
  obtain ⟨q, es, hq, hstart, hes, hrecord⟩ := h
  by_cases hqueued : t.Queued j
  · exact Or.inl hqueued
  refine Or.inr ⟨q, es ++ [e], hst.queries j q hq, hstart.trans hrun, fun e' he' => ?_, hK es hrecord⟩
  rcases List.mem_append.mp he' with he' | he'
  · exact ((hes e' he').evolves hst).resolve_left hqueued
  · rw [List.mem_singleton.mp he']
    exact he

lemma Progressed.evolves [LawfulLattice V] {p : Rhs Q V E N T V} (h : s.Progressed K rhs j p)
    (hst : Evolves s t) (hK : ∀ es, K (s.record j) es → K (t.record j) es) :
    t.Queued j ∨ t.Progressed K rhs j p := by
  obtain ⟨q, es, hq, hrun, hes, hrecord⟩ := h
  by_cases hqueued : t.Queued j
  · exact Or.inl hqueued
  · refine Or.inr ⟨q, es, hst.queries j q hq, hrun, fun e he => ?_, hK es hrecord⟩
    exact ((hes e he).evolves hst).resolve_left hqueued

lemma Justified.evolves [LawfulLattice V] (h : s.Justified K rhs j) (hst : Evolves s t)
    (hK : ∀ es, K (s.record j) es → K (t.record j) es) : t.Justified K rhs j := by
  intro d hd hok hq
  have hidle : t.Idle j := ⟨d, hd, hok, hq⟩
  obtain ⟨c, hc, hcok, hcq⟩ := hidle.of_evolves hst
  obtain ⟨d', hd', hcd, -⟩ := hst.cells j c hc
  cases hd.symm.trans hd'
  obtain ⟨v, hrun, hle⟩ := h c hc hcok hcq
  exact ⟨v, (hrun.evolves hst hK).resolve_left hidle.not_queued,
    LawfulLattice.le_trans hle hcd.value⟩

lemma Justified.breaks [LawfulLattice V] (h : s.Justified K rhs j) (hst : Breaks s t)
    (hrecord : t.record j = s.record j) : t.Justified K rhs j := by
  intro d hd hok hq
  have hidle : t.Idle j := ⟨d, hd, hok, hq⟩
  obtain ⟨c, hc, hcok, hcq⟩ := hidle.of_breaks hst
  obtain ⟨f, hmap, hf⟩ := hst.cells
  cases hd.symm.trans (hmap.get hc)
  obtain ⟨v, ⟨q, es, hget, hrun, hes, hK⟩, hle⟩ := h c hc hcok hcq
  refine ⟨v, ⟨q, es, hst.queries ▸ hget, hrun, fun e he => ?_, hrecord ▸ hK⟩, ?_⟩
  · exact (hes e he).breaks hst hidle.not_failed
  · rw [(hf j c).1]
    exact hle

/-- Taking another query off the work list leaves a query justified. -/
lemma Justified.dequeue [LawfulLattice V] (h : s.Justified K rhs j) {i : Nat} (hji : j ≠ i)
    (w : Fifo Nat) :
    (s.dequeue i w).Justified K rhs j := by
  have hmap := maps_dequeue s i w
  intro d hd hok hq
  obtain ⟨c, hc, rfl⟩ := hmap.exists_of_get hd
  rw [if_neg hji] at hok hq ⊢
  obtain ⟨v, ⟨q, es, hget, hrun, hes, hK⟩, hle⟩ := h c hc hok hq
  exact ⟨v, ⟨q, es, hget, hrun, fun e he => (hes e he).dequeue i w, by rwa [record_dequeue]⟩, hle⟩

end Accepts

/-! ## Every move keeps the queries justified -/

lemma Open.lt_size {s : Solver Q V E N T} {i : Nat} (h : s.Open i) : i < s.cells.size := by
  obtain ⟨c, hc, -⟩ := h
  exact (Array.getElem?_eq_some_iff.mp hc).1

lemma Open.evolves [Lattice V] {s t : Solver Q V E N T} {i : Nat} (h : s.Open i)
    (hst : Evolves s t) : t.Open i := by
  obtain ⟨c, hc, hok⟩ := h
  obtain ⟨d, hd, hcd, -⟩ := hst.cells i c hc
  exact ⟨d, hd, hcd.failure.trans hok⟩

/-- What holds of the reports on record and the requests of a run: it holds at the
start, and each report goes on record as it is made. -/
structure Tracks [DecidableEq N] (K : List N × Option Nat → List (Event Q V N T) → Prop) : Prop where
  start : ∀ date, K ([], date) []
  silent : ∀ r es e, (∀ n, e ≠ .note n) → K r es → K r (es ++ [e])
  note : ∀ r es n clock, K r es → K (filed n clock r) (es ++ [.note n])

lemma tracks_true [DecidableEq N] : Tracks fun (_ : List N × Option Nat)
    (_ : List (Event Q V N T)) => True :=
  ⟨fun _ => trivial, fun _ _ _ _ _ => trivial, fun _ _ _ _ _ => trivial⟩

variable [Fingerprint Q] [Fingerprint T] [Lattice V] {rhs : Q → Rhs Q V E N T V}
  {K : List N × Option Nat → List (Event Q V N T) → Prop}

/-- At rest every query is justified. During an evaluation all the others are,
and the one evaluated is queued again or has made accepted requests only. -/
def SaneWith (K : List N × Option Nat → List (Event Q V N T) → Prop) (rhs : Q → Rhs Q V E N T V) :
    Moment Q V E N T → Prop
  | .resting s => s.Coherent ∧ s.FailureClosed ∧ ∀ j, s.Justified K rhs j
  | .running i p s => s.Coherent ∧ s.FailureClosed ∧ (∀ j, j ≠ i → s.Justified K rhs j) ∧
      s.Open i ∧ (s.Queued i ∨ s.Progressed K rhs i p)

/-- The invariant, whatever is on record. -/
abbrev Sane (rhs : Q → Rhs Q V E N T V) : Moment Q V E N T → Prop := SaneWith (fun _ _ => True) rhs

lemma sane_empty : SaneWith K rhs (resting (empty : Solver Q V E N T)) := by
  refine ⟨coherent_empty, failureClosed_empty, fun j c hc => ?_⟩
  simp [empty] at hc

lemma Sane.coherent {m : Moment Q V E N T} (hm : Sane rhs m) : m.solver.Coherent := by
  cases m with
  | resting | running => exact hm.1

lemma Sane.failureClosed {m : Moment Q V E N T} (hm : Sane rhs m) :
    m.solver.FailureClosed := by
  cases m with
  | resting | running => exact hm.2.1

section Sane

variable {s t : Solver Q V E N T} {i : Nat} {w : Fifo Nat} [LawfulLattice V] {p : Rhs Q V E N T V}
  {p' : Rhs Q V E N T V}

/-- The end of an evaluation that failed. -/
lemma sane_breaks (hs : SaneWith K rhs (running i p s)) (ht : t.Coherent)
    (hst : Breaks s t) (hi : t.Failed i) (hrecord : ∀ j, t.record j = s.record j) :
    SaneWith K rhs (resting t) := by
  obtain ⟨-, -, hothers, -, -⟩ := hs
  refine ⟨ht, hst.closed, fun j => ?_⟩
  by_cases hji : j = i
  · subst hji
    exact fun c hc hok => absurd ⟨c, hc, hok⟩ hi.not_open
  · exact (hothers j hji).breaks hst (hrecord j)

lemma sane_skip (hs : SaneWith K rhs (resting s)) (hpop : s.worklist.pop? = some (i, w))
    (h : (∃ e, s.current i = .error e) ∨ s.queries.get? i = none) :
    SaneWith K rhs (resting (s.dequeue i w)) := by
  obtain ⟨hcoherent, hclosed, hall⟩ := hs
  refine ⟨coherent_dequeue hcoherent hpop, hclosed.dequeue i w, fun j => ?_⟩
  by_cases hji : j = i
  · subst hji
    exact fun d hd hok hq => absurd ⟨d, hd, hok, hq⟩ (not_idle_of_skipped hcoherent h)
  · exact (hall j).dequeue hji w

lemma sane_evolves (hs : SaneWith K rhs (resting s)) (ht : t.Coherent) (hst : Evolves s t)
    (hK : ∀ j es, K (s.record j) es → K (t.record j) es) : SaneWith K rhs (resting t) :=
  ⟨ht, hs.2.1.evolves hst, fun j => (hs.2.2 j).evolves hst (hK j)⟩

lemma sane_request {e : Event Q V N T}
    (hs : SaneWith K rhs (running i p s)) (ht : t.Coherent) (hst : Evolves s t)
    (hrun : p.Run [e] p') (he : t.Accepts i e) (hothers : ∀ j, j ≠ i → t.record j = s.record j)
    (hK : ∀ es, K (s.record i) es → K (t.record i) (es ++ [e])) :
    SaneWith K rhs (running i p' t) := by
  obtain ⟨-, hclosed, hall, hopen, hprogress⟩ := hs
  refine ⟨ht, hclosed.evolves hst, fun j hj => (hall j hj).evolves hst fun es => ?_,
    hopen.evolves hst, ?_⟩
  · rw [hothers j hj]
    exact id
  · rcases hprogress with hqueued | hprogress
    · exact Or.inl (hst.queued hqueued)
    · exact hprogress.request hst hrun he hK

/-- The result of an evaluation is absorbed, so the query is justified by the
run that just ended. -/
lemma sane_finish {v : V} (hs : SaneWith K rhs (running i (.done v) s)) :
    SaneWith K rhs (resting (s.absorb i v).2) := by
  obtain ⟨hcoherent, hclosed, hothers, ⟨c, hc, -⟩, hprogress⟩ := hs
  obtain ⟨ht, hst, hbelow⟩ := absorb_spec hcoherent i v
  have hK : ∀ j es, K (s.record j) es → K ((s.absorb i v).2.record j) es := fun j es h => by
    rwa [record_absorb]
  refine ⟨ht, hclosed.evolves hst, fun j => ?_⟩
  by_cases hji : j = i
  · subst hji
    intro d hd hok hq
    have hnot : ¬ (s.absorb j v).2.Queued j := Idle.not_queued ⟨d, hd, hok, hq⟩
    have hrun := hprogress.resolve_left fun hqueued => hnot (hst.queued hqueued)
    obtain ⟨d', hd', hle⟩ := hbelow c hc
    rw [hd] at hd'
    cases hd'
    exact ⟨v, (hrun.evolves hst (hK j)).resolve_left hnot, hle⟩
  · exact (hothers j hji).evolves hst (hK j)

variable [DecidableEq N] (hK : Tracks K)
include hK

/-- A request that is no report leaves the record alone. -/
lemma sane_silent {e : Event Q V N T}
    (hs : SaneWith K rhs (running i p s)) (ht : t.Coherent) (hst : Evolves s t)
    (hrun : p.Run [e] p') (he : t.Accepts i e) (hsilent : ∀ n, e ≠ .note n)
    (hrecord : ∀ j, t.record j = s.record j) : SaneWith K rhs (running i p' t) := by
  refine sane_request hs ht hst hrun he (fun j _ => hrecord j) fun es hes => ?_
  rw [hrecord]
  exact hK.silent _ es e hsilent hes

/-- An evaluation starts with no reports on record. -/
lemma sane_start {q : Q} {v : V} (hs : SaneWith K rhs (resting s))
    (hpop : s.worklist.pop? = some (i, w)) (hok : s.current i = .ok v)
    (hq : s.queries.get? i = some q) :
    SaneWith K rhs (running i (rhs q) ((s.dequeue i w).opened i)) := by
  obtain ⟨hcoherent, hclosed, hall⟩ := hs
  have hdequeue := coherent_dequeue hcoherent hpop
  have hquiet := quiet_opened (s.dequeue i w) i
  have hevolves := hquiet.evolves hdequeue
  obtain ⟨c, hc⟩ := hcoherent.exists_cell hq
  have hopen : (s.dequeue i w).Open i := by
    refine ⟨_, (maps_dequeue s i w).get hc, ?_⟩
    rw [if_pos rfl]
    exact ((current_eq_ok_iff hc).mp hok).1
  refine ⟨hquiet.coherent hdequeue, (hclosed.dequeue i w).evolves hevolves,
    fun j hj => ((hall j).dequeue hj w).evolves hevolves fun es => ?_, hopen.evolves hevolves,
    Or.inr ⟨q, [], hq, .stop _, fun e he => absurd he List.not_mem_nil, ?_⟩⟩
  · rw [record_opened_of_ne _ hj]
    exact id
  · obtain ⟨date, hrecord⟩ := record_opened_self (s.dequeue i w) i
    rw [hrecord]
    exact hK.start date

variable [DecidableEq Q] {next : V → Rhs Q V E N T V}

lemma sane_read {q : Q} {v : V}
    (hs : SaneWith K rhs (running i (.read q next) s))
    (h : (s.touch q).2.current (s.touch q).1 = .ok v) :
    SaneWith K rhs (running i (next v) ((s.touch q).2.addReader (s.touch q).1 i)) := by
  obtain ⟨htouch, hevolves, hget⟩ := touch_spec hs.1 q
  obtain ⟨c, hc⟩ := htouch.exists_cell hget
  obtain ⟨hok, hv⟩ := (current_eq_ok_iff hc).mp h
  have hi := (hs.2.2.2.1.evolves hevolves).lt_size
  refine sane_silent hK hs (coherent_addReader htouch _ hi)
    (hevolves.trans (evolves_addReader hc hok i)) (.read (.stop (next v))) ?_
    (fun _ hn => by cases hn) fun j => by rw [record_addReader, record_touch hs.1]
  refine ⟨_, _, hget, (maps_addReader _ _ i).get hc, ?_⟩
  rw [if_pos rfl]
  exact ⟨hok, hv, PowerSet.mem_insert.mpr (Or.inr rfl)⟩

omit hK [DecidableEq N] in
lemma sane_readFailed {q : Q} {e : E}
    (hs : SaneWith K rhs (running i (.read q next) s)) :
    SaneWith K rhs (resting (((s.touch q).2.addReader (s.touch q).1 i).fail i e)) := by
  obtain ⟨htouch, hevolves, hget⟩ := touch_spec hs.1 q
  have hi := (hs.2.2.2.1.evolves hevolves).lt_size
  have hrecord := record_touch hs.1 q
  have hkeep : ∀ j es, K (s.record j) es → K ((s.touch q).2.record j) es := fun j es h => by
    rwa [hrecord]
  -- the touched solver is a moment of the same evaluation, as far as the invariant goes
  have htouched : SaneWith K rhs (running i (.read q next) (s.touch q).2) := by
    obtain ⟨-, hclosed, hothers, hopen, hprogress⟩ := hs
    refine ⟨htouch, hclosed.evolves hevolves,
      fun j hj => (hothers j hj).evolves hevolves (hkeep j), hopen.evolves hevolves, ?_⟩
    rcases hprogress with hqueued | hprogress
    · exact Or.inl (hevolves.queued hqueued)
    · exact hprogress.evolves hevolves (hkeep i)
  have hreader := coherent_addReader htouch (s.touch q).1 hi
  refine sane_breaks htouched (coherent_fail hreader i e)
    (breaks_readFailed htouch hi htouched.2.1 _ e) (failed_fail ?_ e)
    fun j => by rw [record_fail, record_addReader]
  rw [(maps_addReader _ _ i).size_eq]
  exact hi

variable [DecidableEq T] {m m' : Moment Q V E N T} {calls : List (Call Q V)}

/-- Every move of an evaluation keeps the invariant. -/
lemma sane_running (h : Move rhs (running i p s) calls m')
    (hm : SaneWith K rhs (running i p s)) : SaneWith K rhs m' := by
  cases h with
  | read h => exact sane_read hK hm h
  | readFailed h => exact sane_readFailed hm
  | push s i q v next =>
    obtain ⟨ht, hst, haccepts⟩ := pushFact_spec hm.1 q v
    exact sane_silent hK hm ht hst (.push (.stop next)) haccepts (fun _ hn => by cases hn)
      (record_pushFact hm.1 q v)
  | note s i n next =>
    have hquiet := quiet_report s i n
    have hrecord := record_report hm.2.2.2.1.lt_size n
    refine sane_request hm (hquiet.coherent hm.1) (hquiet.evolves hm.1) (.note (.stop next)) trivial
      (fun j hj => ?_) fun es hes => ?_
    · rw [hrecord, if_neg hj]
    · rw [hrecord, if_pos rfl]
      exact hK.note _ es n _ hes
  | number s i t next =>
    have hquiet := quiet_numberThing s t
    have hknown := (Numbering.number_spec hm.1.things t).2.2
    exact sane_silent hK hm (hquiet.coherent hm.1) (hquiet.evolves hm.1) (.number (.stop _)) hknown
      (fun _ hn => by cases hn) fun _ => rfl
  | finish s i v => exact sane_finish hm
  | abort s i e =>
    have ⟨hcoherent, hclosed, _, hopen, _⟩ := hm
    exact sane_breaks hm (coherent_fail hcoherent i e)
      (breaks_fail hcoherent hopen.lt_size hclosed e) (failed_fail hopen.lt_size e)
      (record_fail s i e)

omit hK

/-- **Every move keeps the invariant.** -/
theorem sane_move (h : Move rhs m calls m') (hm : Sane rhs m) : Sane rhs m' := by
  have hevolves : ∀ {s t : Solver Q V E N T}, Sane rhs (resting s) → t.Coherent → Evolves s t →
      Sane rhs (resting t) := fun hs ht hst => sane_evolves hs ht hst fun _ _ h => h
  cases m with
  | running i p s => exact sane_running tracks_true h hm
  | resting s =>
    cases h with
    | ask s q => exact hevolves hm (touch_spec hm.1 q).1 (touch_spec hm.1 q).2.1
    | tell s q v => exact hevolves hm (pushFact_spec hm.1 q v).1 (pushFact_spec hm.1 q v).2.1
    | reorder hperm =>
      have hquiet := quiet_reorder _ hperm
      exact hevolves hm (hquiet.coherent hm.1) (hquiet.evolves hm.1)
    | forget s =>
      have hquiet := quiet_dropReports s
      exact hevolves hm (hquiet.coherent hm.1) (hquiet.evolves hm.1)
    | name s t =>
      have hquiet := quiet_numberThing s t
      exact hevolves hm (hquiet.coherent hm.1) (hquiet.evolves hm.1)
    | skip hpop h => exact sane_skip hm hpop h
    | start hpop hok hq => exact sane_start tracks_true hm hpop hok hq

/-- At the moment the query `i` fails with the error `e`, in the table `u`: it has
ended with the error, or it reads a query that failed with it. -/
inductive Failing : Moment Q V E N T → Nat → E → Solver Q V E N T → Prop
  | own (s : Solver Q V E N T) (i : Nat) (e : E) : Failing (running i (.fail e) s) i e s
  | read {s : Solver Q V E N T} {i : Nat} {q : Q} {next : V → Rhs Q V E N T V} {e : E}
      (h : (s.touch q).2.current (s.touch q).1 = .error e) :
      Failing (running i (.read q next) s) i e ((s.touch q).2.addReader (s.touch q).1 i)

omit [DecidableEq N] [DecidableEq T] in
lemma Failing.breaks {m : Moment Q V E N T} {e : E} {u : Solver Q V E N T} (h : Failing m i e u)
    (hm : Sane rhs m) : ∃ v, Evolves m.solver v ∧ Breaks v (u.fail i e) := by
  cases h with
  | own =>
    obtain ⟨hcoherent, hclosed, -, hopen, -⟩ := hm
    exact ⟨u, .refl u, breaks_fail hcoherent hopen.lt_size hclosed e⟩
  | @read s i q next e h =>
    obtain ⟨htouch, hevolves, -⟩ := touch_spec hm.1 q
    have hi := (hm.2.2.2.1.evolves hevolves).lt_size
    exact ⟨_, hevolves, breaks_readFailed htouch hi (hm.2.1.evolves hevolves) _ e⟩

/-- What a move does: the table evolves, a query fails, or a query is taken off
the work list, to be evaluated unless it has failed. -/
lemma move_cases {m m' : Moment Q V E N T} {calls : List (Call Q V)}
    (h : Move rhs m calls m') (hm : Sane rhs m) :
    Evolves m.solver m'.solver ∨ (∃ i e u, Failing m i e u ∧ m' = resting (u.fail i e)) ∨
      ∃ i w, m.solver.worklist.pop? = some (i, w) ∧ Evolves (m.solver.dequeue i w) m'.solver ∧
        (¬ (m.solver.dequeue i w).Idle i ∨ i ∈ m'.solver.history) := by
  cases h with
  | ask s q => exact Or.inl (touch_spec hm.1 q).2.1
  | tell s q v | push s i q v next => exact Or.inl (pushFact_spec hm.1 q v).2.1
  | reorder hperm => exact Or.inl ((quiet_reorder _ hperm).evolves hm.1)
  | forget s => exact Or.inl ((quiet_dropReports s).evolves hm.1)
  | name s t | number s i t next => exact Or.inl ((quiet_numberThing s t).evolves hm.1)
  | @skip s i w hpop h =>
    exact Or.inr (Or.inr ⟨i, w, hpop, .refl _, .inl (not_idle_of_skipped hm.1 h)⟩)
  | @start s i w q v hpop hok hq =>
    exact Or.inr (Or.inr ⟨i, w, hpop, (quiet_opened _ i).evolves (coherent_dequeue hm.1 hpop),
      .inr (.head _)⟩)
  | @read s i q next v h =>
    obtain ⟨htouch, hevolves, hget⟩ := touch_spec hm.1 q
    obtain ⟨c, hc⟩ := htouch.exists_cell hget
    exact Or.inl (hevolves.trans (evolves_addReader hc ((current_eq_ok_iff hc).mp h).1 i))
  | readFailed h => exact Or.inr (Or.inl ⟨_, _, _, .read h, rfl⟩)
  | note s i n next => exact Or.inl ((quiet_report s i n).evolves hm.1)
  | finish s i v => exact Or.inl (absorb_spec hm.1 i v).2.1
  | abort s i e => exact Or.inr (Or.inl ⟨i, e, s, .own s i e, rfl⟩)

lemma grows_move (h : Move rhs m calls m') (hm : Sane rhs m) : Grows m.solver m'.solver := by
  rcases move_cases h hm with hst | ⟨i, e, u, hfailing, rfl⟩ | ⟨i, w, -, hst, -⟩
  · exact hst.grows
  · obtain ⟨v, hsv, hvu⟩ := hfailing.breaks hm
    exact hsv.grows.trans hvu.grows
  · exact (grows_dequeue _ i w).trans hst.grows

lemma grows_trail (h : Trail rhs m calls m') (hm : Sane rhs m) : Grows m.solver m'.solver := by
  induction h with
  | rest => exact .refl _
  | snoc htrail hmove ih => exact ih.trans (grows_move hmove (htrail.keeps sane_move hm))

lemma sane_of_trail {m : Moment Q V E N T} {calls : List (Call Q V)}
    (h : Trail rhs (resting empty) calls m) : Sane rhs m :=
  h.keeps sane_move sane_empty

/-- Whatever was told from outside is held ever after. -/
lemma holds_of_trail {m : Moment Q V E N T} {calls : List (Call Q V)}
    (h : Trail rhs (resting empty) calls m) {q : Q} {v : V} (hv : .tell q v ∈ calls) :
    m.solver.Holds q v := by
  induction h with
  | rest => cases hv
  | snoc htrail hmove ih =>
    have hsane := sane_of_trail htrail
    rcases List.mem_append.mp hv with hv | hv
    · exact (ih hv).grows (grows_move hmove hsane)
    · cases hmove with
      | ask s q => cases List.mem_singleton.mp hv
      | tell s q v =>
        cases List.mem_singleton.mp hv
        exact (pushFact_spec hsane.1 q v).2.2
      | _ => cases hv

/-- Whatever was asked from outside is on the table ever after. -/
lemma touched_of_trail {m : Moment Q V E N T} {calls : List (Call Q V)}
    (h : Trail rhs (resting empty) calls m) {q : Q} (hq : .ask q ∈ calls) : m.solver.Touched q := by
  induction h with
  | rest => cases hq
  | snoc htrail hmove ih =>
    have hsane := sane_of_trail htrail
    rcases List.mem_append.mp hq with hq | hq
    · obtain ⟨i, hi⟩ := ih hq
      exact ⟨i, (grows_move hmove hsane).queries i _ hi⟩
    · cases hmove with
      | ask s q =>
        cases List.mem_singleton.mp hq
        exact ⟨_, (touch_spec hsane.1 q).2.2⟩
      | tell s q v => cases List.mem_singleton.mp hq
      | _ => cases hq

end Sane

end Solver

end ValueFlow
