import ValueFlow.Proofs.Equations.Blame
import ValueFlow.Proofs.Equations.Kept

/-!
# Queries that cannot fail

A query fails because its right-hand side does, or because it read a query
that failed. So if a class of queries has right-hand sides that never fail and
that read only queries of the class, no query of the class ever fails, whatever
the others do.

The class is a predicate `ok` on queries, and `Rhs.Safe ok` says what is asked
of a right-hand side. A read is recorded only when the right-hand side of the
reader makes it (`hasRead_move`). The chain of reads that leads from a failed
query to the one to blame therefore stays in the class it starts in.
-/

namespace ValueFlow

open Moment (resting running)
open Relation (ReflTransGen)

namespace Rhs

variable {Q V E N T α : Type}

/-- The program never fails and reads only queries that are `ok`, whatever
values it is given. -/
def Safe (ok : Q → Prop) : Rhs Q V E N T α → Prop
  | .done _ => True
  | .fail _ => False
  | .diverge => True
  | .read q next => ok q ∧ ∀ v, (next v).Safe ok
  | .push _ _ next => next.Safe ok
  | .note _ next => next.Safe ok
  | .number _ next => ∀ i, (next i).Safe ok

lemma Safe.run {ok : Q → Prop} {p p' : Rhs Q V E N T α} {es : List (Event Q V N T)}
    (h : p.Safe ok) (hrun : p.Run es p') : p'.Safe ok := by
  induction hrun with
  | stop => exact h
  | read _ ih => exact ih (h.2 _)
  | push _ ih | note _ ih => exact ih h
  | number _ ih => exact ih (h _)

lemma Keeps.safe [Lattice V] {L : Law Q V E T} {p : Rhs Q V E N T α} {post : α → Prop}
    (h : p.Keeps L post) (hgiven : ∀ q v, L.given q v) (herror : ∀ e, ¬ L.error e) :
    p.Safe L.query := by
  induction p with
  | done a => trivial
  | fail e => exact herror e h
  | diverge => trivial
  | read q next ih => exact ⟨h.1, fun v => ih v (h.2 v (hgiven q v))⟩
  | push q v next ih => exact ih h.2.2
  | note n next ih => exact ih h
  | number t next ih => exact fun i => ih i (h.2 i)

end Rhs

namespace Solver

variable {Q V E N T : Type}

/-! ## Where a recorded read comes from -/

section HasRead

variable {s t : Solver Q V E N T} {p r : Q} {i : Nat}

lemma HasRead.before {f : Nat → Cell V E N → Cell V E N} (h : t.HasRead p r) (hmap : Maps s f t)
    (hqueries : t.queries = s.queries) (hf : ∀ i c, (f i c).readers = c.readers) :
    s.HasRead p r := by
  obtain ⟨j, k, d, hj, hk, hd, hread⟩ := h
  obtain ⟨c, hc, rfl⟩ := hmap.exists_of_get hd
  exact ⟨j, k, c, hqueries ▸ hj, hqueries ▸ hk, hc, hf k c ▸ hread⟩

lemma HasRead.before_dequeue {w : Fifo Nat} (h : (s.dequeue i w).HasRead p r) :
    s.HasRead p r := by
  refine h.before (maps_dequeue s i w) rfl fun j c => ?_
  split <;> rfl

lemma HasRead.before_fail {e : E} (h : (s.fail i e).HasRead p r) : s.HasRead p r := by
  obtain ⟨marked, hmarks, -⟩ := spread_marks e (s.readCount + 1) [i] s
  exact h.before hmarks.cells hmarks.queries fun _ _ => rfl

lemma HasRead.before_absorb [Lattice V] {v : V} (h : (s.absorb i v).2.HasRead p r) :
    s.HasRead p r := by
  obtain ⟨requeued, hmap, -⟩ := maps_absorb s i v
  exact h.before hmap (queries_absorb s i v) fun _ _ => rfl

lemma HasRead.before_addReader {k : Nat} (h : (s.addReader k i).HasRead p r) :
    s.HasRead p r ∨ s.queries.get? i = some p ∧ s.queries.get? k = some r := by
  obtain ⟨j, m, d, hj, hm, hd, hread⟩ := h
  obtain ⟨c, hc, rfl⟩ := (maps_addReader s k i).exists_of_get hd
  split at hread
  · next hmk =>
    rcases PowerSet.mem_insert.mp hread with hread | rfl
    · exact .inl ⟨j, m, c, hj, hm, hc, hread⟩
    · exact .inr ⟨hj, hmk ▸ hm⟩
  · exact .inl ⟨j, m, c, hj, hm, hc, hread⟩

variable [Fingerprint T]

lemma HasRead.before_quiet (h : t.HasRead p r) (hst : Quiet s t) : s.HasRead p r := by
  obtain ⟨f, hmap, hf⟩ := hst.cells
  exact h.before hmap hst.queries fun i c => (hf i c).2.2.1

variable [Fingerprint Q]

lemma HasRead.before_enroll (hs : s.Coherent) {q : Q} {v : V} (h : (s.enroll q v).HasRead p r) :
    s.HasRead p r := by
  obtain ⟨j, k, d, hj, hk, hd, hread⟩ := h
  rw [cells_enroll hs] at hd
  split at hd
  · cases hd
    exact absurd hread (PowerSet.not_mem_empty j)
  · -- the number of a query that has a cell means the same before and after
    have hback : ∀ (m : Nat) (a : Q), m < s.cells.size →
        (s.enroll q v).queries.get? m = some a → s.queries.get? m = some a := by
      intro m a hm ha
      rw [hs.sized] at hm
      have hget : (s.enroll q v).queries.get? m =
          if m = s.queries.size then some q else s.queries.get? m := Numbering.get?_append _ _ _
      rwa [hget, if_neg (by omega)] at ha
    exact ⟨j, k, d, hback j p (hs.readers k d hd j hread) hj,
      hback k r (Array.getElem?_eq_some_iff.mp hd).1 hk, hd, hread⟩

variable [Lattice V] [DecidableEq Q]

lemma HasRead.before_touch (hs : s.Coherent) {q : Q} (h : (s.touch q).2.HasRead p r) :
    s.HasRead p r := by
  unfold Solver.touch at h
  split at h
  · exact h
  · exact h.before_enroll hs

lemma HasRead.before_pushFact (hs : s.Coherent) {q : Q} {v : V}
    (h : (s.pushFact q v).2.HasRead p r) : s.HasRead p r := by
  unfold Solver.pushFact at h
  split at h
  · exact h.before_enroll hs
  · split at h
    · exact h
    · exact h.before_absorb

end HasRead

variable [DecidableEq Q] [Fingerprint Q] [Lattice V] [LawfulLattice V] [DecidableEq N]
  [DecidableEq T] [Fingerprint T] {rhs : Q → Rhs Q V E N T V} {m m' : Moment Q V E N T}
  {calls : List (Call Q V)} {p q r : Q}

omit [DecidableEq N] [DecidableEq T] in
lemma HasRead.before_read {s : Solver Q V E N T} {i : Nat} {next : V → Rhs Q V E N T V}
    (hs : Sane rhs (running i (.read q next) s))
    (h : ((s.touch q).2.addReader (s.touch q).1 i).HasRead p r) :
    s.HasRead p r ∨ s.queries.get? i = some p ∧ q = r := by
  obtain ⟨hcoherent, -, -, ⟨c, hc, -⟩, -⟩ := hs
  obtain ⟨-, -, hget⟩ := touch_spec hcoherent q
  rcases h.before_addReader with hold | ⟨hp, hr⟩
  · exact .inl (hold.before_touch hcoherent)
  · obtain ⟨p', hp'⟩ := hcoherent.exists_query hc
    rw [extends_touch s q i p' hp'] at hp
    exact .inr ⟨hp ▸ hp', Option.some.inj (hget.symm.trans hr)⟩

/-- A move records no read but the one that an evaluation under way makes. -/
lemma hasRead_move (h : Move rhs m calls m') (hs : Sane rhs m) (hread : m'.solver.HasRead p r) :
    m.solver.HasRead p r ∨
      ∃ i next s, m = running i (.read r next) s ∧ s.queries.get? i = some p := by
  cases h with
  | ask s q => exact .inl (hread.before_touch hs.1)
  | tell s q v | push s i q v next => exact .inl (hread.before_pushFact hs.1)
  | reorder hperm => exact .inl (hread.before_quiet (quiet_reorder _ hperm))
  | forget s => exact .inl (hread.before_quiet (quiet_dropReports s))
  | name s t | number s i t next => exact .inl (hread.before_quiet (quiet_numberThing s t))
  | skip hpop h => exact .inl hread.before_dequeue
  | @start s i w q v hpop hok hq =>
    exact .inl (hread.before_quiet (quiet_opened _ i)).before_dequeue
  | @read s i q next v h =>
    rcases hread.before_read hs with hold | ⟨hp, rfl⟩
    · exact .inl hold
    · exact .inr ⟨i, next, s, rfl, hp⟩
  | @readFailed s i q next e h =>
    rcases hread.before_fail.before_read hs with hold | ⟨hp, rfl⟩
    · exact .inl hold
    · exact .inr ⟨i, next, s, rfl, hp⟩
  | note s i n next => exact .inl (hread.before_quiet (quiet_report s i n))
  | finish s i v => exact .inl hread.before_absorb
  | abort s i e => exact .inl hread.before_fail

lemma run_of_hasRead (h : Trail rhs (resting empty) calls m) (hread : m.solver.HasRead p r) :
    ∃ es next, (rhs p).Run es (.read r next) := by
  induction h with
  | rest =>
    obtain ⟨j, k, c, -, -, hc, -⟩ := hread
    simp [Moment.solver, empty] at hc
  | snoc htrail hmove ih =>
    rcases hasRead_move hmove (sane_of_trail htrail) hread with hold | ⟨i, next, s, rfl, hp⟩
    · exact ih hold
    · obtain ⟨p', es, hp', hrun⟩ := run_of_running htrail
      cases hp.symm.trans hp'
      exact ⟨es, next, hrun⟩

/-- **Queries of a safe class never fail.** -/
theorem failure_eq_none_of_trail (ok : Q → Prop) (hsafe : ∀ q, ok q → (rhs q).Safe ok)
    (h : Trail rhs (resting empty) calls m) (hok : ok q) : m.solver.failure q = none := by
  have hclosed : ∀ r, ReflTransGen m.solver.HasRead q r → ok r := by
    intro r hchain
    induction hchain with
    | refl => exact hok
    | tail _ hread ih =>
      obtain ⟨es, next, hrun⟩ := run_of_hasRead h hread
      exact ((hsafe _ ih).run hrun).1
  cases hq : m.solver.failure q with
  | none => rfl
  | some e =>
    obtain ⟨r, hchain, -, hthrew⟩ := blamed_of_trail h hq
    obtain ⟨es, hrun⟩ := hthrew.run
    exact ((hsafe r (hclosed r hchain)).run hrun).elim

end Solver

end ValueFlow
