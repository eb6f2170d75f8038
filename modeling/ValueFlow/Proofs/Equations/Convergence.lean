import ValueFlow.Proofs.Equations.Invariant

/-!
# What holds when the work list is empty

When a solver has come to rest with nothing queued, its table is a
post-fixpoint of the equations: running any right-hand side again, on the
table as it stands, gives nothing new. The right-hand sides need not be
monotone.
-/

namespace ValueFlow

open ValueFlow.Lattice (Le)
open Moment (resting running)

namespace Solver

variable {Q V E N T : Type}

/-! ## The table at rest -/

section Cached

variable [DecidableEq Q] [Fingerprint Q] {s : Solver Q V E N T} {i : Nat} {q : Q}
  {c : Cell V E N}

lemma exists_of_cached {m : V} (h : s.cached q = some m) :
    ∃ i c, s.queries.get? i = some q ∧ s.cells[i]? = some c ∧ c.value = m := by
  unfold cached at h
  cases hi : s.queries.find? q with
  | none => simp [hi] at h
  | some i =>
    cases hc : s.cells[i]? with
    | none => simp [hi, hc] at h
    | some c =>
      simp only [hi, hc, Option.bind_eq_bind, Option.bind_some, Option.pure_def,
        Option.some.injEq] at h
      exact ⟨i, c, Numbering.get?_of_find? hi, hc, h⟩

variable [Fingerprint T]

lemma cached_eq (hs : s.Coherent) (hq : s.queries.get? i = some q)
    (hc : s.cells[i]? = some c) : s.cached q = some c.value := by
  simp [cached, (Numbering.find?_eq_some_iff hs.queries).mpr hq, hc]

lemma failure_eq (hs : s.Coherent) (hq : s.queries.get? i = some q)
    (hc : s.cells[i]? = some c) : s.failure q = c.failure := by
  simp [failure, (Numbering.find?_eq_some_iff hs.queries).mpr hq, hc]

end Cached

variable [Fingerprint Q] [Fingerprint T]

/-- The number of a thing in the order of first appearance. -/
def numberOf [DecidableEq T] (s : Solver Q V E N T) (t : T) : Nat := (s.things.find? t).getD 0

variable [DecidableEq Q] [Lattice V]

def answer (s : Solver Q V E N T) (q : Q) : Except E V :=
  match s.queries.find? q with
  | some i => s.current i
  | none => .ok Lattice.bottom

/-- The table holds the value that was read and the fact that was pushed, and
it has touched the query that was read. -/
def Supports [DecidableEq T] (s : Solver Q V E N T) : Event Q V N T → Prop
  | .read q v => s.cached q = some v ∧ s.failure q = none
  | .push q v => s.failure q = none → ∃ m, s.cached q = some m ∧ Le v m
  | .note _ => True
  | .number t n => s.things.find? t = some n

section Table

variable {s : Solver Q V E N T} {i : Nat} {q : Q} {c : Cell V E N}

lemma answer_eq (hs : s.Coherent) (hq : s.queries.get? i = some q) :
    s.answer q = s.current i := by
  simp [answer, (Numbering.find?_eq_some_iff hs.queries).mpr hq]

variable [DecidableEq T] {e : Event Q V N T}

lemma Accepts.supports (hs : s.Coherent) {j : Nat} (h : s.Accepts j e) : s.Supports e := by
  cases e with
  | read q v =>
    obtain ⟨k, c, hk, hc, hok, hv, -⟩ := h
    exact ⟨hv ▸ cached_eq hs hk hc, (failure_eq hs hk hc).trans hok⟩
  | push q v =>
    obtain ⟨k, c, hk, hc, hbelow⟩ := h
    intro hok
    exact ⟨c.value, cached_eq hs hk hc, hbelow ((failure_eq hs hk hc).symm.trans hok)⟩
  | note n => trivial
  | number t n => exact (Numbering.find?_eq_some_iff hs.things).mpr h

lemma Supports.agrees (hs : s.Coherent) (h : s.Supports e) : e.Agrees s.answer s.numberOf := by
  cases e with
  | read q v =>
    obtain ⟨hcached, hok⟩ := h
    obtain ⟨i, c, hq, hc, hv⟩ := exists_of_cached hcached
    show s.answer q = .ok v
    rw [answer_eq hs hq, current_eq_ok_iff hc, ← failure_eq hs hq hc]
    exact ⟨hok, hv⟩
  | push | note => trivial
  | number t n =>
    have hfind : s.things.find? t = some n := h
    show (s.things.find? t).getD 0 = n
    rw [hfind]
    rfl

/-- With nothing queued, a query that has not failed can be replayed: its
requests are supported and its result is below its value. -/
lemma replay_of_sane {rhs : Q → Rhs Q V E N T V} (hs : Sane rhs (resting s))
    (hempty : s.worklist.toList = []) {m : V} (hm : s.cached q = some m)
    (hok : s.failure q = none) :
    ∃ es v, (rhs q).Run es (.done v) ∧ (rhs q).replay s.answer s.numberOf = (es, .value v) ∧
      Le v m ∧ ∀ e ∈ es, s.Supports e := by
  obtain ⟨hcoherent, -, hall⟩ := hs
  obtain ⟨i, c, hq, hc, rfl⟩ := exists_of_cached hm
  rw [failure_eq hcoherent hq hc] at hok
  obtain ⟨c', hc', hok', hqueued⟩ := idle_of_settled hcoherent hempty hc hok
  cases hc.symm.trans hc'
  obtain ⟨v, ⟨q', es, hq', hrun, hes, -⟩, hle⟩ := hall i c hc hok hqueued
  rw [hq] at hq'
  cases hq'
  have hsupports : ∀ e ∈ es, s.Supports e := fun e he => (hes e he).supports hcoherent
  have hreplay := Rhs.replay_eq_of_run hrun fun e he => (hsupports e he).agrees hcoherent
  exact ⟨es, v, hrun, hreplay, hle, hsupports⟩

end Table

/-! ## Serving calls -/

section Served

variable [DecidableEq N] [DecidableEq T] {rhs : Q → Rhs Q V E N T V} {calls : List (Call Q V)}
  {s t : Solver Q V E N T} {q : Q}

/-- Asking for a value is one call from outside. Afterwards nothing is queued
and the answer is the table's. -/
lemma valueOf_spec [LawfulLattice V] (hs : Sane rhs (resting s)) {a : Except E V}
    (hvalue : s.valueOf rhs q = some (a, t)) :
    Trail rhs (resting s) [.ask q] (resting t) ∧ t.worklist.toList = [] ∧ t.Touched q ∧
      a = t.answer q := by
  unfold valueOf at hvalue
  cases hdrain : (s.touch q).2.drain rhs ample with
  | none => simp [hdrain] at hvalue
  | some u =>
    simp only [hdrain, Option.bind_eq_bind, Option.bind_some, Option.pure_def, Option.some.injEq,
      Prod.mk.injEq] at hvalue
    obtain ⟨rfl, rfl⟩ := hvalue
    have hasked := sane_move (Move.ask s q) hs
    have htrail := (Move.ask s q).trail.trans (trail_drain hdrain)
    rw [List.append_nil] at htrail
    obtain ⟨-, -, hget⟩ := touch_spec hs.1 q
    have hkept := (grows_trail (trail_drain hdrain) hasked).queries _ q hget
    exact ⟨htrail, toList_of_drain hdrain, ⟨_, hkept⟩,
      (answer_eq (htrail.keeps sane_move hs).1 hkept).symm⟩

/-- After a call that asked, nothing is queued. -/
lemma Served.toList_eq_nil (h : Served rhs (calls ++ [.ask q]) t) : t.worklist.toList = [] := by
  generalize hall : calls ++ [.ask q] = all at h
  cases h with
  | fresh => simp at hall
  | asked _ hdrain => exact toList_of_drain hdrain
  | told =>
    obtain ⟨-, hlast⟩ := List.append_inj' hall rfl
    cases hlast

/-- **On convergence the table is a post-fixpoint.** After any calls, the last
of which asked: nothing is queued, and the right-hand side of any touched
query that has not failed, run again on the table as it stands, reads only
queries that are touched and have not failed, ends with a result below the
value of the query, and pushes to queries that have not failed only facts
below their values. -/
theorem post_fixpoint_on_convergence [LawfulLattice V] {q₀ : Q}
    (h : Served rhs (calls ++ [.ask q₀]) t) :
    t.isStable = true ∧
      ∀ q m, t.cached q = some m → t.failure q = none →
        ∃ es v, (rhs q).replay t.answer t.numberOf = (es, .value v) ∧ Le v m ∧
          ∀ e ∈ es, t.Supports e := by
  have hempty := h.toList_eq_nil
  refine ⟨isStable_iff.mpr hempty, fun q m hm hok => ?_⟩
  obtain ⟨es, v, -, hreplay, hle, hsupports⟩ := replay_of_sane (sane_of_trail h.trail) hempty hm hok
  exact ⟨es, v, hreplay, hle, hsupports⟩

end Served

/-- Two queries that read each other, the first of which pushes facts to the
one it has read and to itself. All other queries fail. -/
def pushback : Nat → Rhs Nat (PowerSet Nat) String Empty Empty (PowerSet Nat)
  | 0 => .read 1 fun v => .push 1 (.singleton 7) (.push 0 (.singleton 8) (.done v))
  | 1 => .read 0 fun v => .done (v.insert 1)
  | _ => .fail "no such query"

theorem post_fixpoint_on_convergence_pushback :
    ∃ t m, Served pushback ([.ask 2, .tell 0 (.singleton 5)] ++ [.ask 1]) t ∧
      t.cached 0 = some m ∧ t.failure 0 = none ∧ m.same (.ofList [1, 5, 7, 8]) = true ∧
      ∃ es v, (pushback 0).replay t.answer t.numberOf = (es, .value v) ∧ Le v m ∧
        ∀ e ∈ es, t.Supports e := by
  -- a query failed earlier on, and the last call finds a fact pushed before it
  let calls : List (Call Nat (PowerSet Nat)) := [.ask 2, .tell 0 (.singleton 5)] ++ [.ask 1]
  obtain ⟨t, ht, ⟨m, hm, hsame⟩, hfailure⟩ : ∃ t ∈ calls.foldlM (serve pushback 20) empty,
      (∃ m ∈ t.cached 0, m.same (.ofList [1, 5, 7, 8]) = true) ∧ t.failure 0 = none := by
    decide +kernel
  have hserved : Served pushback calls t := Served.fresh.append ht
  obtain ⟨-, hall⟩ := post_fixpoint_on_convergence hserved
  exact ⟨t, m, hserved, hm, hfailure, hsame, hall 0 m hm hfailure⟩

end Solver

end ValueFlow
