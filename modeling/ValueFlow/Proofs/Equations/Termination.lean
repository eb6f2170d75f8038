import Mathlib.Data.DFinsupp.WellFounded
import Mathlib.Data.Fintype.Powerset
import Mathlib.Data.List.Perm.Subperm
import ValueFlow.Proofs.Equations.Growth

/-!
# The solver comes to rest

A work list that refills itself need not run dry. It does if values cannot grow
for ever and only finitely many queries are read and pushed to. Nothing else is
asked of the right-hand sides: they may be anything but monotone, push to
queries they have read, to themselves too, and fail.

What matters is that **a query is queued only when the table grows**: a new
query gets a value, or a value held gets larger. So a step that does not let the
table grow leaves the work list one shorter. The table cannot grow for ever: what
room it has left is a value for each of finitely many queries, in an order in
which growing is descending and "no value yet" is the top. Failures take no room
and queue nothing, so they need no measure of their own.
-/

namespace ValueFlow

open ValueFlow.Lattice (Le)
open Moment (resting running)
open Relation (ReflTransGen)

/-- Values cannot grow for ever: there is no infinite ascending chain. -/
def Lattice.Noetherian (V : Type) [Lattice V] : Prop :=
  ∀ f : Nat → V, ¬ ∀ n, Le (f n) (f (n + 1)) ∧ ¬ Le (f (n + 1)) (f n)

lemma Lattice.Noetherian.wellFounded {V : Type} [Lattice V] (h : Noetherian V) :
    WellFounded fun a b : V => Le b a ∧ ¬ Le a b :=
  wellFounded_iff_isEmpty_descending_chain.mpr ⟨fun chain => h chain.1 chain.2⟩

/-- Sets over a finite universe cannot grow for ever. -/
lemma PowerSet.noetherian {α : Type} [DecidableEq α] [Fingerprint α] [Finite α] :
    Lattice.Noetherian (PowerSet α) := by
  intro f hf
  have hmono : StrictMono fun n => {a | a ∈ f n} := strictMono_nat_of_lt_succ fun n =>
    ⟨PowerSet.le_iff.mp (hf n).1, fun hsub => (hf n).2 (PowerSet.le_iff.mpr hsub)⟩
  exact not_injective_infinite_finite _ hmono.injective

namespace Rhs

variable {Q V E N T α : Type}

/-- Whatever it is answered, the program ends, and it reads and pushes only at
queries of `D`. -/
def Confined (D : Q → Prop) : Rhs Q V E N T α → Prop
  | .done _ => True
  | .fail _ => True
  | .diverge => False
  | .read q next => D q ∧ ∀ v, (next v).Confined D
  | .push q _ next => D q ∧ next.Confined D
  | .note _ next => next.Confined D
  | .number _ next => ∀ i, (next i).Confined D

end Rhs

def Law.confined {Q V E T : Type} [Lattice V] (D : Q → Prop) : Law Q V E T where
  query := D
  held _ _ := True
  given _ _ := True
  error _ := True
  thing _ := True
  bottom _ := trivial
  absorb _ _ _ _ _ := trivial

lemma Rhs.Confined.keeps {Q V E N T : Type} [Lattice V] {D D' : Q → Prop}
    {p : Rhs Q V E N T V} (h : p.Confined D) (hD : ∀ q, D q → D' q) (q : Q) :
    p.Keeps (.confined D') ((Law.confined D' : Law Q V E T).held q) := by
  induction p with
  | done | fail => trivial
  | diverge => exact h.elim
  | read r next ih => exact ⟨hD r h.1, fun v _ => ih v (h.2 v)⟩
  | push r v next ih => exact ⟨hD r h.1, trivial, ih h.2⟩
  | note n next ih => exact ih h
  | number t next ih => exact ⟨trivial, fun i => ih i (h i)⟩

namespace Solver

variable {Q V E N T : Type}

/-! ## The room that a table has left -/

section Room

variable [Lattice V] [LawfulLattice V]

/-- Values in the order of growth, upside down: what has grown is smaller. -/
local instance descending : Preorder V where
  le a b := Le b a
  le_refl := LawfulLattice.le_refl
  le_trans _ _ _ hab hbc := LawfulLattice.le_trans hbc hab

/-- What is left for the query with number `i` to grow, at most: everything if it
has no value yet. -/
def room (s : Solver Q V E N T) (i : Nat) : WithTop V := (s.cells[i]?).map Cell.value

/-- What a solver may still do: first comes the room left, then the length of the
work list. -/
def potential (s : Solver Q V E N T) : Lex ((Nat → WithTop V) × Nat) :=
  toLex (s.room, s.worklist.toList.length)

variable {s t : Solver Q V E N T} {f : Nat → Cell V E N → Cell V E N}

omit [Lattice V] [LawfulLattice V] in
lemma room_of_maps (hmap : Maps s f t)
    (hf : ∀ i c, (f i c).value = c.value) : t.room = s.room := by
  funext i
  unfold room
  rw [hmap i, Option.map_map]
  congr 1
  funext c
  exact hf i c

/-- A table that has grown has less room, if one value is really larger. -/
lemma room_lt (hst : Grows s t) {i : Nat} {d : Cell V E N} (hd : t.cells[i]? = some d)
    (hnot : ∀ c, s.cells[i]? = some c → ¬ Le d.value c.value) : t.room < s.room := by
  have hle : ∀ j, t.room j ≤ s.room j := by
    intro j
    unfold room
    cases hc : s.cells[j]? with
    | none => exact le_top
    | some c =>
      obtain ⟨d', hd', hle, -⟩ := hst.cells j c hc
      rw [hd']
      exact WithTop.coe_le_coe.mpr hle
  refine Pi.lt_def.mpr ⟨hle, i, lt_of_le_not_ge (hle i) ?_⟩
  unfold room
  rw [hd]
  cases hc : s.cells[i]? with
  | none => exact not_le_of_gt (WithTop.coe_lt_top _)
  | some c => exact fun h => hnot c hc (WithTop.coe_le_coe.mp h)

lemma potential_lt_of_room_lt (h : t.room < s.room) : t.potential < s.potential :=
  Prod.Lex.toLex_lt_toLex.mpr (Or.inl h)

def rank (n : Nat) (s : Solver Q V E N T) : Lex ((Fin n → WithTop V) × Nat) :=
  toLex (fun i => s.room i, s.worklist.toList.length)

/-- The cells beyond the bound have nothing to lose. -/
lemma rank_lt {n : Nat} (h : t.potential < s.potential) (hsize : t.cells.size ≤ n) :
    t.rank n < s.rank n := by
  rcases Prod.Lex.toLex_lt_toLex.mp h with hroom | ⟨hroom, hlen⟩
  · obtain ⟨hle, i, hi⟩ := Pi.lt_def.mp hroom
    have hin : i < n := by
      by_contra hout
      have htop : t.room i = ⊤ := by
        unfold room
        rw [Array.getElem?_eq_none (by omega)]
        rfl
      exact not_top_lt (htop.symm.trans_lt hi)
    exact Prod.Lex.toLex_lt_toLex.mpr (Or.inl (Pi.lt_def.mpr ⟨fun j => hle j, ⟨i, hin⟩, hi⟩))
  · exact Prod.Lex.toLex_lt_toLex.mpr (Or.inr ⟨funext fun j => congrFun hroom j, hlen⟩)

lemma rank_wf (h : Lattice.Noetherian V) (n : Nat) :
    WellFounded fun t s : Solver Q V E N T => t.rank n < s.rank n := by
  have : WellFoundedLT V := ⟨h.wellFounded⟩
  exact InvImage.wf (rank n) wellFounded_lt

/-! ## What the operations do to it -/

lemma potential_le_of_maps (hmap : Maps s f t)
    (hf : ∀ i c, (f i c).value = c.value)
    (hlen : t.worklist.toList.length ≤ s.worklist.toList.length) : t.potential ≤ s.potential :=
  Prod.Lex.toLex_le_toLex.mpr (Or.inr ⟨room_of_maps hmap hf, hlen⟩)

lemma potential_addReader (s : Solver Q V E N T) (k i : Nat) :
    (s.addReader k i).potential ≤ s.potential := by
  refine potential_le_of_maps (maps_addReader s k i) (fun j c => ?_) .refl
  split <;> rfl

lemma potential_fail (s : Solver Q V E N T) (i : Nat) (e : E) :
    (s.fail i e).potential ≤ s.potential := by
  obtain ⟨marked, hmarks, -⟩ := spread_marks e (s.readCount + 1) [i] s
  have hlist : (s.fail i e).worklist = s.worklist := hmarks.worklist
  exact potential_le_of_maps hmarks.cells (fun _ _ => rfl) (by rw [hlist])

/-- Taking a query off the work list is what the work list pays with. -/
lemma potential_dequeue {i : Nat} {w : Fifo Nat} (hpop : s.worklist.pop? = some (i, w)) :
    (s.dequeue i w).potential < s.potential := by
  refine Prod.Lex.toLex_lt_toLex.mpr (Or.inr ⟨room_of_maps (maps_dequeue s i w) fun j c => ?_, ?_⟩)
  · split <;> rfl
  · rw [Fifo.toList_of_pop?_eq_some hpop]
    exact Nat.lt_succ_self _

variable [Fingerprint T]

lemma Quiet.potential (h : Quiet s t) : t.potential ≤ s.potential := by
  obtain ⟨f, hmap, hf⟩ := h.cells
  exact potential_le_of_maps hmap (fun i c => (hf i c).1) h.worklist.length_eq.le

variable [Fingerprint Q]

lemma potential_enroll (hs : s.Coherent) (q : Q) (v : V) :
    (s.enroll q v).potential < s.potential := by
  refine potential_lt_of_room_lt (room_lt (evolves_enroll hs q v).grows (i := s.queries.size)
    ((cells_enroll hs q v _).trans (if_pos rfl)) fun c hc => ?_)
  have hlt := (Array.getElem?_eq_some_iff.mp hc).1
  rw [hs.sized] at hlt
  exact absurd hlt (Nat.lt_irrefl _)

lemma potential_absorb (hs : s.Coherent) (i : Nat) (v : V) :
    (s.absorb i v).2.potential ≤ s.potential := by
  rcases absorb_cases s i v with hsame | ⟨c, hc, hnot, -⟩
  · rw [hsame]
  · obtain ⟨-, hevolves, hbelow⟩ := absorb_spec hs i v
    obtain ⟨d, hd, hle⟩ := hbelow c hc
    refine (potential_lt_of_room_lt (room_lt hevolves.grows hd fun c' hc' hdc => ?_)).le
    cases hc.symm.trans hc'
    exact hnot (LawfulLattice.le_trans hle hdc)

variable [DecidableEq Q]

lemma potential_touch (hs : s.Coherent) (q : Q) : (s.touch q).2.potential ≤ s.potential := by
  unfold touch
  split
  · exact le_refl _
  · exact (potential_enroll hs q _).le

lemma potential_pushFact (hs : s.Coherent) (q : Q) (v : V) :
    (s.pushFact q v).2.potential ≤ s.potential := by
  rcases pushFact_cases s q v with hsame | ⟨-, hnew⟩ | ⟨i, c, -, -, -, hgrew⟩
  · rw [hsame]
  · rw [hnew]
    exact (potential_enroll hs q v).le
  · rw [hgrew]
    exact potential_absorb hs i v

variable [DecidableEq N] [DecidableEq T] {rhs : Q → Rhs Q V E N T V} {m m' : Moment Q V E N T}

/-- **What does not let the table grow queues nothing.** -/
theorem potential_move (h : Move rhs m [] m') (hm : Sane rhs m) :
    m'.solver.potential ≤ m.solver.potential := by
  cases h with
  | reorder hperm => exact (quiet_reorder _ hperm).potential
  | forget s => exact (quiet_dropReports s).potential
  | name s t | number s i t next => exact (quiet_numberThing s t).potential
  | skip hpop h => exact (potential_dequeue hpop).le
  | @start s i w q v hpop hok hq =>
    exact (quiet_opened _ i).potential.trans (potential_dequeue hpop).le
  | @read s i q next v h => exact (potential_addReader _ _ i).trans (potential_touch hm.1 q)
  | @readFailed s i q next e h =>
    exact (potential_fail _ i e).trans ((potential_addReader _ _ i).trans (potential_touch hm.1 q))
  | push s i q v next => exact potential_pushFact hm.1 q v
  | note s i n next => exact (quiet_report s i n).potential
  | finish s i v => exact potential_absorb hm.1 i v
  | abort s i e => exact potential_fail s i e

lemma potential_inner (h : ReflTransGen (InnerMove rhs) m m') (hm : Sane rhs m) :
    m'.solver.potential ≤ m.solver.potential := by
  induction h using ReflTransGen.head_induction_on with
  | refl => exact le_refl _
  | head hmove _ ih => exact (ih (sane_move hmove.move hm)).trans (potential_move hmove.move hm)

/-- **A step lets the table grow or shortens the work list.** -/
theorem potential_step (hs : Sane rhs (resting s)) (h : s.step rhs = .moved t) :
    t.potential < s.potential := by
  obtain ⟨i, w, hpop, ⟨-, rfl⟩ | ⟨v, q, hok, hq, hinner⟩⟩ := step_begins h
  · exact potential_dequeue hpop
  · calc t.potential
        ≤ ((s.dequeue i w).opened i).potential :=
          potential_inner hinner (sane_start tracks_true hs hpop hok hq)
      _ ≤ (s.dequeue i w).potential := (quiet_opened _ i).potential
      _ < s.potential := potential_dequeue hpop

/-- The same in terms of the table: a step that does not shorten the work list gives a
value that was not there before. -/
lemma grown_or_shorter (hs : Sane rhs (resting s)) (h : s.step rhs = .moved t) :
    (∃ (i : Nat) (d : Cell V E N), t.cells[i]? = some d ∧
        ∀ c : Cell V E N, s.cells[i]? = some c → ¬ Le d.value c.value) ∨
      t.worklist.toList.length < s.worklist.toList.length := by
  rcases Prod.Lex.toLex_lt_toLex.mp (potential_step hs h) with hroom | ⟨-, hlen⟩
  · obtain ⟨-, i, hi⟩ := Pi.lt_def.mp hroom
    replace hi : t.room i < s.room i := hi
    unfold room at hi
    left
    cases hd : t.cells[i]? with
    | none =>
      rw [hd] at hi
      exact absurd hi not_top_lt
    | some d =>
      refine ⟨i, d, hd, fun c hc hle => ?_⟩
      rw [hd, hc] at hi
      exact (lt_iff_le_not_ge.mp hi).2 (WithTop.coe_le_coe.mpr hle)
  · exact .inr hlen

/-! ## Finitely many queries -/

omit [LawfulLattice V] [DecidableEq Q] [DecidableEq N] [DecidableEq T] in
/-- A table without a query outside `L` has at most as many cells as `L` has
entries. -/
lemma size_le_of_kept {L : List Q} (hs : s.Coherent) (h : s.Kept (.confined (· ∈ L))) :
    s.cells.size ≤ L.length := by
  have hsub : s.queries.toList ⊆ L := by
    intro q hq
    obtain ⟨i, hi⟩ := Numbering.mem_toList_iff.mp hq
    obtain ⟨c, hc⟩ := hs.exists_cell hi
    exact (h i q c hi hc).1
  rw [hs.sized]
  exact (List.subperm_of_subset hs.queries.nodup hsub).length_le

end Room

/-! ## Draining -/

/-- Draining `s` takes `n` steps and leaves `t`: an allowance of fewer steps runs
out, and any other will do. -/
def Drains [DecidableEq Q] [Fingerprint Q] [Lattice V] [DecidableEq N] [DecidableEq T]
    [Fingerprint T] (rhs : Q → Rhs Q V E N T V) (s : Solver Q V E N T) (n : Nat)
    (t : Solver Q V E N T) : Prop :=
  ∀ fuel, s.drain rhs fuel = if n ≤ fuel then some t else none

section Draining

variable [DecidableEq Q] [Fingerprint Q] [Lattice V] [DecidableEq N] [DecidableEq T]
  [Fingerprint T] {rhs : Q → Rhs Q V E N T V} {s t u : Solver Q V E N T} {D : Q → Prop}

lemma drains_of_settled (h : s.worklist.toList = []) : Drains rhs s 0 s :=
  fun fuel => (drain_of_settled h fuel).trans (if_pos fuel.zero_le).symm

lemma Drains.of_step {n : Nat} (hstep : s.step rhs = .moved t) (h : Drains rhs t n u) :
    Drains rhs s (n + 1) u := by
  intro fuel
  cases fuel with
  | zero =>
    have hbusy : s.isStable ≠ true := by
      intro hstable
      obtain ⟨i, w, hpop, -⟩ := step_begins hstep
      rw [Fifo.pop?_eq_none_iff.mpr (isStable_iff.mp hstable)] at hpop
      cases hpop
    simp [drain, hbusy]
  | succ fuel => simp only [drain, hstep, h fuel, Nat.succ_le_succ_iff]

lemma execute_ne_diverged {p : Rhs Q V E N T V} (hp : p.Confined D) (i : Nat)
    (s : Solver Q V E N T) : (execute i p s).1 ≠ .diverged := by
  induction p generalizing s with
  | done | fail => simp [execute]
  | diverge => exact hp.elim
  | read q next ih =>
    unfold execute
    dsimp only
    split
    · simp
    · exact ih _ (hp.2 _) _
  | push q v next ih => exact ih hp.2 _
  | note n next ih => exact ih hp _
  | number t next ih => exact ih _ (hp _) _

/-- A step of right-hand sides that end does not get lost in one of them. -/
lemma step_ne_diverged (hrhs : ∀ q, s.Touched q → (rhs q).Confined D) :
    s.step rhs ≠ .diverged := by
  rcases step_cases rhs s with ⟨-, hstep⟩ | ⟨i, w, -, ⟨v, q, -, hq, hstep⟩ | ⟨-, hstep⟩⟩
  · simp [hstep]
  · rw [hstep]
    rcases evaluate_cases rhs (s.dequeue i w) i q with
      ⟨_, _, _, heval⟩ | ⟨_, _, _, heval⟩ | ⟨hlost, -⟩
    · simp [heval]
    · simp [heval]
    · exact absurd hlost (execute_ne_diverged (hrhs q ⟨i, hq⟩) i _)
  · simp [hstep]

variable [LawfulLattice V]

/-- **Draining ends**, wherever it starts: the queries in the table and those of
`D` are all that it ever comes to. -/
theorem exists_drains (hnoeth : Lattice.Noetherian V) {D : List Q}
    (hrhs : ∀ q, (rhs q).Confined (· ∈ D)) (hs : Sane rhs (resting s)) :
    ∃ n t, Drains rhs s n t := by
  let L : List Q := s.queries.toList ++ D
  have hkeeps : ∀ q, (rhs q).Keeps (.confined (· ∈ L)) fun _ => True :=
    fun q => (hrhs q).keeps (fun _ => List.mem_append_right _) q
  have hkept : s.Kept (.confined (· ∈ L)) := fun i q c hq _ =>
    ⟨List.mem_append_left _ (Numbering.mem_toList_iff.mpr ⟨i, hq⟩), trivial, fun _ _ => trivial⟩
  clear_value L
  induction s using (rank_wf hnoeth L.length).induction with
  | _ s ih =>
  cases hstep : s.step rhs with
  | settled => exact ⟨0, s, drains_of_settled (toList_of_step_settled hstep)⟩
  | diverged => exact absurd hstep (step_ne_diverged fun q _ => hrhs q)
  | moved t =>
    obtain ⟨hsane, hkept'⟩ := keptAt_course (fun q _ => hkeeps q) (fun _ _ _ => trivial)
      (course_step hstep) hs hkept
    have hlt := rank_lt (potential_step hs hstep) (size_le_of_kept hsane.coherent hkept')
    obtain ⟨n, u, hdrains⟩ := ih t hlt hsane hkept'
    exact ⟨n + 1, u, hdrains.of_step hstep⟩

lemma exists_serve (hnoeth : Lattice.Noetherian V) {D : List Q}
    (hrhs : ∀ q, (rhs q).Confined (· ∈ D)) (hs : Sane rhs (resting s)) (call : Call Q V) :
    ∃ n t, Sane rhs (resting t) ∧
      ∀ fuel, serve rhs fuel s call = if n ≤ fuel then some t else none := by
  cases call with
  | ask q =>
    have hasked : Sane rhs (resting (s.touch q).2) := sane_move (.ask s q) hs
    obtain ⟨n, t, hdrains⟩ := exists_drains hnoeth hrhs hasked
    have hdrain : (s.touch q).2.drain rhs n = some t := (hdrains n).trans (if_pos n.le_refl)
    exact ⟨n, t, (trail_drain hdrain).keeps sane_move hasked, hdrains⟩
  | tell q v => exact ⟨0, _, sane_move (.tell s q v) hs, fun fuel => (if_pos fuel.zero_le).symm⟩

/-- Serving calls one after another ends: the allowance has to do for each drain
by itself. -/
lemma exists_serveAll (hnoeth : Lattice.Noetherian V) {D : List Q}
    (hrhs : ∀ q, (rhs q).Confined (· ∈ D)) (hs : Sane rhs (resting s)) (calls : List (Call Q V)) :
    ∃ n t, ∀ fuel, calls.foldlM (serve rhs fuel) s = if n ≤ fuel then some t else none := by
  induction calls generalizing s with
  | nil => exact ⟨0, s, fun fuel => (if_pos fuel.zero_le).symm⟩
  | cons call calls ih =>
    obtain ⟨n, t, ht, hfirst⟩ := exists_serve hnoeth hrhs hs call
    obtain ⟨m, u, hrest⟩ := ih ht
    refine ⟨max n m, u, fun fuel => ?_⟩
    rw [List.foldlM_cons, hfirst fuel]
    by_cases hn : n ≤ fuel
    · simp [hn, hrest fuel]
    · simp [hn]

/-- **The solver comes to rest.** Let values not grow for ever, and let the
right-hand sides end and stay within finitely many queries, whatever else they
do. Then

* from every state that is reached, in whatever order queries were taken up,
  draining ends;
* so does a question, after any calls: it is answered if the allowance has room
  for the steps of its drain;
* any sequence of calls can be served. -/
theorem drain_ends (hnoeth : Lattice.Noetherian V) {D : List Q}
    (hrhs : ∀ q, (rhs q).Confined (· ∈ D)) :
    (∀ {calls : List (Call Q V)} {s : Solver Q V E N T},
      Trail rhs (resting empty) calls (resting s) → ∃ n t, Drains rhs s n t) ∧
    (∀ {calls : List (Call Q V)} {s : Solver Q V E N T}, Served rhs calls s →
      ∀ q, ∃ n t, Drains rhs (s.touch q).2 n t ∧
        s.valueOf rhs q = if n ≤ ample then some (t.current (s.touch q).1, t) else none) ∧
    ∀ calls : List (Call Q V), ∃ n s, Served rhs calls s ∧
      ∀ fuel, calls.foldlM (serve rhs fuel) empty = if n ≤ fuel then some s else none := by
  refine ⟨fun h => exists_drains hnoeth hrhs (sane_of_trail h), ?_, ?_⟩
  · intro calls s h q
    obtain ⟨n, t, hdrains⟩ :=
      exists_drains hnoeth hrhs (sane_move (.ask s q) (sane_of_trail h.trail))
    refine ⟨n, t, hdrains, ?_⟩
    unfold valueOf
    dsimp only
    rw [hdrains ample]
    split <;> rfl
  · intro calls
    obtain ⟨n, s, hserve⟩ := exists_serveAll hnoeth hrhs sane_empty calls
    have hlast : calls.foldlM (serve rhs n) empty = some s := (hserve n).trans (if_pos n.le_refl)
    exact ⟨n, s, Served.fresh.append hlast, hserve⟩

end Draining

instance {n : Nat} : Fingerprint (Fin n) := ⟨fun i => i⟩

/-- Equations that go round and are not monotone: query 0 pushes to itself what
makes query 1 hold 1, and takes back its own result when it does. Query 2 then
fails, and so does every query from 3 on, which reads it. -/
def churn : Nat → Rhs Nat (PowerSet (Fin 3)) String Empty Empty (PowerSet (Fin 3))
  | 0 => .read 1 fun v => .push 0 (.singleton 2) (.done (if 1 ∈ v then .empty else .singleton 0))
  | 1 => .read 0 fun v => .done (if 2 ∈ v then .singleton 1 else .empty)
  | 2 => .read 0 fun v => if 2 ∈ v then .fail "two" else .done .empty
  | _ => .read 2 .done

lemma churn_confined (q : Nat) : (churn q).Confined (· ∈ [0, 1, 2]) := by
  unfold churn
  split
  · simp [Rhs.Confined]
  · simp [Rhs.Confined]
  · refine ⟨by simp, fun v => ?_⟩
    dsimp only
    split <;> trivial
  · simp [Rhs.Confined]

theorem drain_ends_churn :
    Lattice.Noetherian (PowerSet (Fin 3)) ∧ (∀ q, (churn q).Confined (· ∈ [0, 1, 2])) ∧
    ∃ n s, Served churn [.ask 5, .tell 7 (.singleton 1), .ask 0] s ∧
      (∀ fuel, [.ask 5, .tell 7 (.singleton 1), .ask 0].foldlM (serve churn fuel) empty =
        if n ≤ fuel then some s else none) ∧ 5 ≤ n ∧
      (∃ m t, Drains churn s m t) ∧
      ∃ m t, Drains churn (s.touch 7).2 m t ∧
        s.valueOf churn 7 = if m ≤ ample then some (t.current (s.touch 7).1, t) else none := by
  have hends := drain_ends PowerSet.noetherian churn_confined
  obtain ⟨n, s, hserved, hall⟩ := hends.2.2 [.ask 5, .tell 7 (.singleton 1), .ask 0]
  refine ⟨PowerSet.noetherian, churn_confined, n, s, hserved, hall, ?_, hends.1 hserved.trail,
    hends.2.1 hserved 7⟩
  -- an allowance of four steps is too small
  have hfour : [.ask 5, .tell 7 (.singleton 1), .ask 0].foldlM (serve churn 4) empty = none := by
    rw [← Option.isNone_iff_eq_none]
    decide +kernel
  by_contra hlt
  rw [hall 4, if_pos (by omega)] at hfour
  cases hfour

end Solver

end ValueFlow
