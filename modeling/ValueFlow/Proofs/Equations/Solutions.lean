import ValueFlow.Proofs.Equations.NoFailure

/-!
# Below every solution

If larger values read give larger results and larger facts pushed, the table of
a solver never holds more than it must: at every moment it is below every
assignment that the equations are closed under.

A right-hand side may read the same query twice and get two different values,
since facts are pushed while it runs. Monotonicity is therefore stated for
runs whose reads are *each* below the assignment (`ReadsBelow`), not for
replays against two tables.
-/

namespace ValueFlow

open ValueFlow.Lattice (Le)
open Moment (resting)

variable {Q V E N T α β : Type}

def ReadsBelow [Lattice V] (S : Q → V) (es : List (Event Q V N T)) : Prop :=
  ∀ q v, .read q v ∈ es → Le v (S q)

def PushesBelow [Lattice V] (S : Q → V) (es : List (Event Q V N T)) : Prop :=
  ∀ q v, .push q v ∈ es → Le v (S q)

/-- Every fact told from outside is below the assignment. -/
def FactsBelow [Lattice V] (S : Q → V) (calls : List (Call Q V)) : Prop :=
  ∀ q v, .tell q v ∈ calls → Le v (S q)

/-- The law of being in `D`, below `S` and without failures. -/
def Law.below [Lattice V] [LawfulLattice V] (D : Q → Prop) (S : Q → V) : Law Q V E T where
  query := D
  held q v := Le v (S q)
  given q v := Le v (S q)
  error _ := False
  thing _ := True
  bottom _ := LawfulLattice.bottom_le _
  absorb _ _ _ := Lattice.absorb_le

namespace Rhs

def FailureFree (p : Rhs Q V E N T α) : Prop :=
  ∀ es, (∀ e, ¬ p.Run es (.fail e)) ∧ ¬ p.Run es .diverge

def FailureFreeUnder [Lattice V] (S : Q → V) (p : Rhs Q V E N T α) : Prop :=
  ∀ es, ReadsBelow S es → (∀ e, ¬ p.Run es (.fail e)) ∧ ¬ p.Run es .diverge

def MonotoneUnder [Lattice V] (S : Q → V) (p : Rhs Q V E N T V) : Prop :=
  ∀ number es v es' v', p.Run es (.done v) → ReadsBelow S es →
    p.replay (fun q => .ok (S q)) number = (es', .value v') →
    Le v v' ∧ ∀ U, PushesBelow U es' → PushesBelow U es

/-- Larger values read give larger results and larger facts pushed. -/
def Monotone [Lattice V] (p : Rhs Q V E N T V) : Prop := ∀ S, p.MonotoneUnder S

def ClosedAt [Lattice V] (rhs : Q → Rhs Q V E N T V) (S : Q → V) (q : Q) : Prop :=
  ∃ number es v, (rhs q).replay (fun p => .ok (S p)) number = (es, .value v) ∧
    Le v (S q) ∧ PushesBelow S es

/-- Every run whose reads are below `S` reads and pushes only at queries of `D`,
pushes facts below `S`, does not fail, and ends with a result that satisfies
`post`. -/
abbrev Within [Lattice V] [LawfulLattice V] (D : Q → Prop) (S : Q → V) (p : Rhs Q V E N T α)
    (post : α → Prop) : Prop := p.Keeps (.below D S) post

/-- Against a table without failures every program has a run to its end. -/
lemma exists_run_of_table (S : Q → V) (number : T → Nat) (p : Rhs Q V E N T α) :
    ∃ es p', p.Run es p' ∧ (∀ e ∈ es, e.Agrees (E := E) (fun q => .ok (S q)) number) ∧
      ((∃ v, p' = .done v ∧ p.replay (fun q => .ok (S q)) number = (es, .value v)) ∨
        (∃ e, p' = .fail e) ∨ p' = .diverge) := by
  induction p with
  | done v => exact ⟨[], _, .stop _, by simp, Or.inl ⟨v, rfl, rfl⟩⟩
  | fail e => exact ⟨[], _, .stop _, by simp, Or.inr (Or.inl ⟨e, rfl⟩)⟩
  | diverge => exact ⟨[], _, .stop _, by simp, Or.inr (Or.inr rfl)⟩
  | read q next ih =>
    obtain ⟨es, p', hrun, hes, hend⟩ := ih (S q)
    refine ⟨.read q (S q) :: es, p', .read hrun, List.forall_mem_cons.mpr ⟨rfl, hes⟩, ?_⟩
    refine hend.imp_left ?_
    rintro ⟨v, rfl, hreplay⟩
    exact ⟨v, rfl, by simp only [replay, hreplay]⟩
  | push q v next ih =>
    obtain ⟨es, p', hrun, hes, hend⟩ := ih
    refine ⟨.push q v :: es, p', .push hrun, List.forall_mem_cons.mpr ⟨trivial, hes⟩, ?_⟩
    refine hend.imp_left ?_
    rintro ⟨v, rfl, hreplay⟩
    exact ⟨v, rfl, by simp only [replay, hreplay]⟩
  | note n next ih =>
    obtain ⟨es, p', hrun, hes, hend⟩ := ih
    refine ⟨.note n :: es, p', .note hrun, List.forall_mem_cons.mpr ⟨trivial, hes⟩, ?_⟩
    refine hend.imp_left ?_
    rintro ⟨v, rfl, hreplay⟩
    exact ⟨v, rfl, by simp only [replay, hreplay]⟩
  | number t next ih =>
    obtain ⟨es, p', hrun, hes, hend⟩ := ih (number t)
    refine ⟨.number t (number t) :: es, p', .number hrun, List.forall_mem_cons.mpr ⟨rfl, hes⟩, ?_⟩
    refine hend.imp_left ?_
    rintro ⟨v, rfl, hreplay⟩
    exact ⟨v, rfl, by simp only [replay, hreplay]⟩

lemma failureFree_done (a : α) : (.done a : Rhs Q V E N T α).FailureFree := by
  refine fun es => ⟨fun e h => ?_, fun h => ?_⟩ <;> cases h

lemma failureFree_read {q : Q} {next : V → Rhs Q V E N T α} (h : ∀ v, (next v).FailureFree) :
    (.read q next : Rhs Q V E N T α).FailureFree := by
  refine fun es => ⟨fun e hrun => ?_, fun hrun => ?_⟩
  · cases hrun with
    | read hrest => exact (h _ _).1 e hrest
  · cases hrun with
    | read hrest => exact (h _ _).2 hrest

lemma failureFree_push {q : Q} {v : V} {next : Rhs Q V E N T α} (h : next.FailureFree) :
    (.push q v next : Rhs Q V E N T α).FailureFree := by
  refine fun es => ⟨fun e hrun => ?_, fun hrun => ?_⟩
  · cases hrun with
    | push hrest => exact (h _).1 e hrest
  · cases hrun with
    | push hrest => exact (h _).2 hrest

lemma FailureFree.of_run {p p' : Rhs Q V E N T α} (h : p.FailureFree)
    {es : List (Event Q V N T)} (hrun : p.Run es p') : p'.FailureFree :=
  fun fs => ⟨fun e hfail => (h (es ++ fs)).1 e (hrun.trans hfail),
    fun hdiverge => (h (es ++ fs)).2 (hrun.trans hdiverge)⟩

/-- A program that never fails is safe for the class of all queries. -/
lemma FailureFree.safe {p : Rhs Q V E N T α} (h : p.FailureFree) : p.Safe fun _ => True := by
  induction p with
  | done v => trivial
  | fail e => exact (h []).1 e (.stop _)
  | diverge => trivial
  | read q next ih => exact ⟨trivial, fun v => ih v (h.of_run (.read (.stop (next v))))⟩
  | push q v next ih => exact ih (h.of_run (.push (.stop next)))
  | note n next ih => exact ih (h.of_run (.note (.stop next)))
  | number t next ih => exact fun i => ih i (h.of_run (.number (.stop (next i))))

end Rhs

/-- Answers that agree with an assignment are below it. -/
lemma readsBelow_of_agrees [Lattice V] [LawfulLattice V] {S : Q → V} {number : T → Nat}
    {es : List (Event Q V N T)}
    (h : ∀ e ∈ es, e.Agrees (E := E) (fun q => .ok (S q)) number) : ReadsBelow S es := by
  intro q v hv
  have hagrees : Except.ok (S q) = (Except.ok v : Except E V) := h _ hv
  cases hagrees
  exact LawfulLattice.le_refl _

section FailureFreeUnder

variable [Lattice V] {S : Q → V} {p p' : Rhs Q V E N T α}

lemma ReadsBelow.append {es fs : List (Event Q V N T)} (hes : ReadsBelow S es)
    (hfs : ReadsBelow S fs) : ReadsBelow S (es ++ fs) := by
  intro q v hv
  rcases List.mem_append.mp hv with hv | hv
  · exact hes q v hv
  · exact hfs q v hv

lemma Rhs.FailureFreeUnder.of_run (h : p.FailureFreeUnder S) {es : List (Event Q V N T)}
    (hrun : p.Run es p') (hes : ReadsBelow S es) : p'.FailureFreeUnder S :=
  fun fs hfs => ⟨fun e hfail => (h (es ++ fs) (hes.append hfs)).1 e (hrun.trans hfail),
    fun hdiverge => (h (es ++ fs) (hes.append hfs)).2 (hrun.trans hdiverge)⟩

/-- The assignment itself answers a run to its end. -/
lemma Rhs.FailureFreeUnder.exists_run [LawfulLattice V] (h : p.FailureFreeUnder S)
    (number : T → Nat) :
    ∃ es v, p.Run es (.done v) ∧ ReadsBelow S es ∧
      p.replay (fun q => .ok (S q)) number = (es, .value v) := by
  obtain ⟨es, p', hrun, hes, hend⟩ := Rhs.exists_run_of_table S number p
  have hbelow := readsBelow_of_agrees hes
  rcases hend with ⟨v, rfl, hreplay⟩ | ⟨e, rfl⟩ | rfl
  · exact ⟨es, v, hrun, hbelow, hreplay⟩
  · exact absurd hrun ((h es hbelow).1 e)
  · exact absurd hrun (h es hbelow).2

end FailureFreeUnder

namespace Solver

/-! ## Tables below an assignment -/

def Below [Lattice V] (D : Q → Prop) (S : Q → V) (s : Solver Q V E N T) : Prop :=
  ∀ (i : Nat) (q : Q) (c : Cell V E N), s.queries.get? i = some q → s.cells[i]? = some c →
    D q ∧ Le c.value (S q) ∧ c.failure = none

/-- **The table is below every assignment that evaluation stays below, at every
moment.** -/
theorem below_of_trail [DecidableEq Q] [Fingerprint Q] [Lattice V] [LawfulLattice V]
    [DecidableEq N] [DecidableEq T] [Fingerprint T] {rhs : Q → Rhs Q V E N T V} {D : Q → Prop}
    {S : Q → V} {m : Moment Q V E N T} {calls : List (Call Q V)}
    (h : Trail rhs (resting empty) calls m)
    (hwithin : ∀ q, D q → m.solver.Touched q → (rhs q).Within D S fun v => Le v (S q))
    (hasked : ∀ q, .ask q ∈ calls → D q) (hfacts : ∀ q v, .tell q v ∈ calls → D q ∧ Le v (S q)) :
    m.solver.Below D S := by
  have hkept : m.solver.Kept (.below D S) :=
    kept_of_trail h hwithin (fun _ _ hv _ => hv) hasked hfacts
  intro i q c hq hc
  obtain ⟨hD, hle, hok⟩ := hkept i q c hq hc
  exact ⟨hD, hle, Option.eq_none_iff_forall_ne_some.mpr hok⟩

end Solver

/-! ## Closed assignments -/

/-- What is asked of the equation of a touched query: it neither fails nor
loses by larger values, and the assignment is closed under it. -/
structure Tame [Lattice V] (rhs : Q → Rhs Q V E N T V) (S : Q → V) (q : Q) : Prop where
  free     : (rhs q).FailureFreeUnder S
  monotone : (rhs q).MonotoneUnder S
  closed   : Rhs.ClosedAt rhs S q

namespace Tame

variable [Lattice V] [LawfulLattice V] {rhs : Q → Rhs Q V E N T V} {S : Q → V} {q : Q}
  {es : List (Event Q V N T)}

lemma le_of_run (h : Tame rhs S q) {v : V}
    (hrun : (rhs q).Run es (.done v)) (hes : ReadsBelow S es) :
    Le v (S q) ∧ PushesBelow S es := by
  obtain ⟨number, es', v', hreplay, hle, hpushes⟩ := h.closed
  obtain ⟨hv, hmono⟩ := h.monotone number es v es' v' hrun hes hreplay
  exact ⟨LawfulLattice.le_trans hv hle, hmono S hpushes⟩

/-- A fact about to be pushed is below the assignment: the run under way can be
finished with the assignment's own answers. -/
lemma le_of_push {p : Q} (h : Tame rhs S q) {v : V}
    {next : Rhs Q V E N T V} (hrun : (rhs q).Run es (.push p v next)) (hes : ReadsBelow S es) :
    Le v (S p) := by
  have hpushed : (rhs q).Run (es ++ [.push p v]) next := hrun.trans (.push (.stop next))
  have hread : ReadsBelow S (es ++ [.push p v]) := by
    refine hes.append fun q' v' hv' => ?_
    cases List.mem_singleton.mp hv'
  obtain ⟨fs, w, hrest, hfs, -⟩ := (h.free.of_run hpushed hread).exists_run (fun _ => 0)
  obtain ⟨-, hpushes⟩ := h.le_of_run (hpushed.trans hrest) (hread.append hfs)
  refine hpushes p v ?_
  simp

lemma within (h : Tame rhs S q) : (rhs q).Within (fun _ => True) S fun v => Le v (S q) := by
  -- what is left after a run with reads below the assignment, for every such run
  suffices hrest : ∀ p es, (rhs q).Run es p → ReadsBelow S es →
      p.Within (fun _ => True) S fun v => Le v (S q) by
    exact hrest _ [] (.stop _) fun _ _ hv => absurd hv List.not_mem_nil
  intro p
  induction p with
  | done v => exact fun es hrun hes => (h.le_of_run hrun hes).1
  | fail e => exact fun es hrun hes => (h.free es hes).1 e hrun
  | diverge => exact fun _ _ _ => trivial
  | read p next ih =>
    refine fun es hrun hes => ⟨trivial, fun v hv => ?_⟩
    refine ih v (es ++ [.read p v]) (hrun.trans (.read (.stop _))) (hes.append ?_)
    intro q' v' hv'
    cases List.mem_singleton.mp hv'
    exact hv
  | push p v next ih =>
    refine fun es hrun hes => ⟨trivial, h.le_of_push hrun hes, ?_⟩
    refine ih (es ++ [.push p v]) (hrun.trans (.push (.stop _))) (hes.append ?_)
    exact fun q' v' hv' => nomatch List.mem_singleton.mp hv'
  | note n next ih =>
    refine fun es hrun hes => ih (es ++ [.note n]) (hrun.trans (.note (.stop _))) (hes.append ?_)
    exact fun q' v' hv' => nomatch List.mem_singleton.mp hv'
  | number t next ih =>
    refine fun es hrun hes => ⟨trivial, fun i =>
      ih i (es ++ [.number t i]) (hrun.trans (.number (.stop _))) (hes.append ?_)⟩
    exact fun q' v' hv' => nomatch List.mem_singleton.mp hv'

end Tame

end ValueFlow
