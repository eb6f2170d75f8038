import ValueFlow.Proofs.Equations.LeastSolution

/-!
# Facts are never lost

The values of a table only grow, whether or not the right-hand sides are
monotone: an evaluation may well come to less than the one before, but its
result is joined to what is there. Failures change no value.

To speak of answers, a `Dialogue` records each call together with the reply to it.
-/

namespace ValueFlow

open ValueFlow.Lattice (Le)
open Moment (resting running)

namespace Solver

variable {Q V E N T : Type}

/-! ## Values grow from moment to moment -/

section Trail

variable [DecidableEq Q] [Fingerprint Q] [Lattice V] [LawfulLattice V] [DecidableEq N]
  [DecidableEq T] [Fingerprint T] {rhs : Q → Rhs Q V E N T V} {m m' : Moment Q V E N T}
  {calls before : List (Call Q V)}

omit [LawfulLattice V] [DecidableEq N] [DecidableEq T] in
lemma Grows.cached {s t : Solver Q V E N T} (h : Grows s t) (ht : t.Coherent) {q : Q} {v : V}
    (hv : s.cached q = some v) : ∃ v', t.cached q = some v' ∧ Le v v' := by
  obtain ⟨i, c, hi, hc, rfl⟩ := exists_of_cached hv
  obtain ⟨d, hd, hle, -⟩ := h.cells i c hc
  exact ⟨d.value, cached_eq ht (h.queries i q hi) hd, hle⟩

/-- **From one moment to every later one, the value of every query grows.** -/
theorem cached_grows (hm : Sane rhs m) (h : Trail rhs m calls m') {q : Q} {v : V}
    (hv : m.solver.cached q = some v) : ∃ v', m'.solver.cached q = some v' ∧ Le v v' :=
  (grows_trail h hm).cached (Sane.coherent (h.keeps sane_move hm)) hv

end Trail

/-! ## What a push reports -/

section PushFact

variable [Lattice V]

/-- A value that is absorbed changes nothing, or it is not yet below the one
held. -/
lemma absorb_cases (s : Solver Q V E N T) (i : Nat) (v : V) :
    s.absorb i v = (false, s) ∨
      ∃ c, s.cells[i]? = some c ∧ ¬ Le v c.value ∧ (s.absorb i v).1 = true := by
  unfold absorb
  split
  · next c hc =>
    unfold Lattice.absorb
    split
    · next joined hgrew =>
      refine Or.inr ⟨c, hc, ?_, rfl⟩
      intro hle
      rw [if_neg (Bool.eq_false_iff.mp hle)] at hgrew
      cases hgrew
    · exact Or.inl rfl
  · exact Or.inl rfl

variable [DecidableEq Q] [Fingerprint Q]

/-- What a push does: nothing, or it starts a new query, or it joins a fact that
is not yet below the value held. -/
lemma pushFact_cases (s : Solver Q V E N T) (q : Q) (v : V) :
    s.pushFact q v = (false, s) ∨
    (s.queries.find? q = none ∧ s.pushFact q v = (true, s.enroll q v)) ∨
    ∃ i c, s.queries.find? q = some i ∧ s.cells[i]? = some c ∧ ¬ Le v c.value ∧
      s.pushFact q v = (true, (s.absorb i v).2) := by
  unfold pushFact
  split
  · next hq => exact Or.inr (Or.inl ⟨hq, rfl⟩)
  · next i hi =>
    split
    · exact Or.inl rfl
    · rcases absorb_cases s i v with hsame | ⟨c, hc, hnot, hflag⟩
      · exact Or.inl hsame
      · exact Or.inr (Or.inr ⟨i, c, hi, hc, hnot, Prod.ext hflag rfl⟩)

variable [LawfulLattice V] [Fingerprint T]

/-- **A push reports `true` exactly if the table changed.** -/
theorem pushFact_eq_true_iff {s : Solver Q V E N T} (hs : s.Coherent) (q : Q) (v : V) :
    (s.pushFact q v).1 = true ↔ (s.pushFact q v).2.cached ≠ s.cached := by
  rcases pushFact_cases s q v with hsame | ⟨hq, hnew⟩ | ⟨i, c, hi, hc, hnot, hgrew⟩
  · simp [hsame]
  · -- the query had no value before
    have hget : (s.enroll q v).queries.get? s.queries.size = some q := by
      simp [enroll, Numbering.get?_append]
    have hcell := (cells_enroll hs q v s.queries.size).trans (if_pos rfl)
    have hafter := cached_eq (coherent_enroll hs hq v) hget hcell
    have hbefore : s.cached q = none := by simp [cached, hq]
    rw [hnew]
    refine ⟨fun _ heq => ?_, fun _ => rfl⟩
    rw [heq, hbefore] at hafter
    cases hafter
  · -- the fact is below the value held now, and was not below the one before
    have hget := Numbering.get?_of_find? hi
    obtain ⟨hcoherent, -, hbelow⟩ := absorb_spec hs i v
    obtain ⟨d, hd, hle⟩ := hbelow c hc
    have hafter := cached_eq hcoherent (by rw [queries_absorb]; exact hget) hd
    rw [hgrew]
    refine ⟨fun _ heq => ?_, fun _ => rfl⟩
    rw [heq, cached_eq hs hget hc, Option.some.injEq] at hafter
    rw [hafter] at hnot
    exact hnot hle

end PushFact

/-! ## Calls with their replies -/

inductive Exchange (Q V E : Type)
  | asked (query : Q) (answer : Except E V)
  | told (query : Q) (value : V) (changed : Bool)

namespace Exchange

def call : Exchange Q V E → Call Q V
  | .asked q _ => .ask q
  | .told q v _ => .tell q v

def answerTo? [DecidableEq Q] (q : Q) : Exchange Q V E → Option V
  | .asked p (.ok v) => if p = q then some v else none
  | _ => none

end Exchange

/-- The values with which the question `q` was answered, in order. -/
def answersTo [DecidableEq Q] (q : Q) (log : List (Exchange Q V E)) : List V :=
  log.filterMap (Exchange.answerTo? q)

variable [DecidableEq Q] [Fingerprint Q] [Lattice V] [DecidableEq N] [DecidableEq T]
  [Fingerprint T] {rhs : Q → Rhs Q V E N T V} {log : List (Exchange Q V E)}
  {s t : Solver Q V E N T} {q : Q}

/-- A solver that was fresh and has served calls with the replies recorded. Each
drain came to its end. -/
inductive Dialogue (rhs : Q → Rhs Q V E N T V) :
    List (Exchange Q V E) → Solver Q V E N T → Prop
  | fresh : Dialogue rhs [] empty
  | asked {log : List (Exchange Q V E)} {s t : Solver Q V E N T} {q : Q} {fuel : Nat}
      (h : Dialogue rhs log s) (hdrain : (s.touch q).2.drain rhs fuel = some t) :
      Dialogue rhs (log ++ [.asked q (t.current (s.touch q).1)]) t
  | told {log : List (Exchange Q V E)} {s : Solver Q V E N T} {q : Q} {v : V}
      (h : Dialogue rhs log s) :
      Dialogue rhs (log ++ [.told q v (s.pushFact q v).1]) (s.pushFact q v).2

/-- Serves one call, with an allowance of steps, and records the reply. -/
def exchange (rhs : Q → Rhs Q V E N T V) (fuel : Nat) :
    List (Exchange Q V E) × Solver Q V E N T → Call Q V →
      Option (List (Exchange Q V E) × Solver Q V E N T)
  | (log, s), .ask q => do
    let t ← (s.touch q).2.drain rhs fuel
    return (log ++ [.asked q (t.current (s.touch q).1)], t)
  | (log, s), .tell q v => some (log ++ [.told q v (s.pushFact q v).1], (s.pushFact q v).2)

lemma Dialogue.append {fuel : Nat} {later : List (Call Q V)} {log' : List (Exchange Q V E)}
    (h : Dialogue rhs log s) (hlater : later.foldlM (exchange rhs fuel) (log, s) = some (log', t)) :
    Dialogue rhs log' t := by
  induction later generalizing log s with
  | nil =>
    cases hlater
    exact h
  | cons call later ih =>
    rw [List.foldlM_cons] at hlater
    obtain ⟨⟨log₁, u⟩, hu, hrest⟩ := Option.bind_eq_some_iff.mp hlater
    refine ih ?_ hrest
    cases call with
    | ask q =>
      obtain ⟨u', hdrain, hu⟩ := Option.bind_eq_some_iff.mp hu
      cases hu
      exact h.asked hdrain
    | tell q v =>
      cases hu
      exact h.told

lemma Dialogue.served (h : Dialogue rhs log s) : Served rhs (log.map Exchange.call) s := by
  induction h with
  | fresh => exact .fresh
  | asked _ hdrain ih =>
    rw [List.map_append]
    exact ih.asked hdrain
  | told _ ih =>
    rw [List.map_append]
    exact ih.told

lemma Dialogue.sane [LawfulLattice V] (h : Dialogue rhs log s) : Sane rhs (resting s) :=
  sane_of_trail h.served.trail

/-- Draining after a question answers it from the table. -/
lemma current_of_drain [LawfulLattice V] (hs : Sane rhs (resting s)) {fuel : Nat}
    (hdrain : (s.touch q).2.drain rhs fuel = some t) :
    t.current (s.touch q).1 = t.answer q ∧ t.Touched q := by
  have hasked := sane_move (Move.ask s q) hs
  obtain ⟨-, -, hget⟩ := touch_spec hs.1 q
  have hkept := (grows_trail (trail_drain hdrain) hasked).queries _ q hget
  exact ⟨(answer_eq ((trail_drain hdrain).keeps sane_move hasked).1 hkept).symm, _, hkept⟩

omit [DecidableEq N] [DecidableEq T] in
lemma cached_of_answer (hs : s.Coherent) (hq : s.Touched q) {v : V}
    (hv : s.answer q = .ok v) : s.cached q = some v ∧ s.failure q = none := by
  obtain ⟨i, hi⟩ := hq
  obtain ⟨c, hc⟩ := hs.exists_cell hi
  rw [answer_eq hs hi, current_eq_ok_iff hc] at hv
  obtain ⟨hok, rfl⟩ := hv
  exact ⟨cached_eq hs hi hc, (failure_eq hs hi hc).trans hok⟩

lemma Dialogue.last_asked {a : Except E V} (h : Dialogue rhs (log ++ [.asked q a]) t) :
    ∃ s fuel, Dialogue rhs log s ∧ (s.touch q).2.drain rhs fuel = some t ∧
      a = t.current (s.touch q).1 := by
  generalize hall : log ++ [.asked q a] = all at h
  cases h with
  | fresh => simp at hall
  | asked h hdrain =>
    obtain ⟨rfl, hlast⟩ := List.append_inj' hall rfl
    cases hlast
    exact ⟨_, _, h, hdrain, rfl⟩
  | told =>
    obtain ⟨-, hlast⟩ := List.append_inj' hall rfl
    cases hlast

variable [LawfulLattice V]

/-- What was told is held ever after. -/
lemma Dialogue.holds (h : Dialogue rhs log s) {v : V} {changed : Bool}
    (hv : .told q v changed ∈ log) : s.Holds q v :=
  holds_of_trail h.served.trail (List.mem_map.mpr ⟨_, hv, rfl⟩)

/-- The table holds at least what the earlier answers were. -/
lemma Dialogue.answers_le (h : Dialogue rhs log s) {v : V} (hv : v ∈ answersTo q log) :
    ∃ v', s.cached q = some v' ∧ Le v v' := by
  induction h with
  | fresh => cases hv
  | @asked log s t p fuel h hdrain ih =>
    have htrail := (Move.ask s p).trail.trans (trail_drain hdrain)
    rw [answersTo, List.filterMap_append, List.mem_append] at hv
    rcases hv with hv | hv
    · obtain ⟨u, hu, hle⟩ := ih hv
      obtain ⟨u', hu', hle'⟩ := cached_grows h.sane htrail hu
      exact ⟨u', hu', LawfulLattice.le_trans hle hle'⟩
    · -- the answer just given is the value held
      obtain ⟨hcurrent, hp⟩ := current_of_drain h.sane hdrain
      rw [hcurrent] at hv
      cases hanswer : t.answer p with
      | error e => simp [hanswer, Exchange.answerTo?] at hv
      | ok u =>
        obtain ⟨rfl, rfl⟩ : p = q ∧ u = v := by
          simpa [hanswer, Exchange.answerTo?, and_comm, eq_comm] using hv
        have hcached := (cached_of_answer (htrail.keeps sane_move h.sane).1 hp hanswer).1
        exact ⟨u, hcached, LawfulLattice.le_refl u⟩
  | @told log s p u h ih =>
    have hold : v ∈ answersTo q log := by simpa [answersTo, Exchange.answerTo?] using hv
    obtain ⟨w, hw, hle⟩ := ih hold
    obtain ⟨w', hw', hle'⟩ := cached_grows h.sane (Move.tell s p u).trail hw
    exact ⟨w', hw', LawfulLattice.le_trans hle hle'⟩

omit [DecidableEq Q] [Fingerprint Q] [DecidableEq N] [DecidableEq T] [Fingerprint T] in
lemma foldl_join_le {v b : V} {vs : List V} (hv : Le v b) (hvs : ∀ a ∈ vs, Le a b) :
    Le (vs.foldl Lattice.join v) b := by
  induction vs generalizing v with
  | nil => exact hv
  | cons a vs ih =>
    obtain ⟨ha, hrest⟩ := List.forall_mem_cons.mp hvs
    exact ih (LawfulLattice.join_le hv ha) hrest

/-- **Facts are never lost.** For any equations, monotone or not, and any calls:

* from one moment to every later one, the value of every query grows;
* a push reports `true` exactly if it changed the table;
* unless the query has failed, an answer that comes after a fact was pushed to
  its query is above the join of the fact and all the earlier answers. -/
theorem facts_never_lost :
    (∀ {before later : List (Call Q V)} {m m' : Moment Q V E N T},
      Trail rhs (resting empty) before m → Trail rhs m later m' →
      ∀ q v, m.solver.cached q = some v → ∃ v', m'.solver.cached q = some v' ∧ Le v v') ∧
    (∀ {calls : List (Call Q V)} {m : Moment Q V E N T}, Trail rhs (resting empty) calls m →
      ∀ q v, (m.solver.pushFact q v).1 = true ↔
        (m.solver.pushFact q v).2.cached ≠ m.solver.cached) ∧
    (∀ {log : List (Exchange Q V E)} {q : Q} {a : Except E V} {t : Solver Q V E N T},
      Dialogue rhs (log ++ [.asked q a]) t → t.failure q = none →
      ∀ v changed, .told q v changed ∈ log →
        ∃ b, a = .ok b ∧ Le ((answersTo q log).foldl Lattice.join v) b) := by
  refine ⟨fun h h' q v hv => cached_grows (sane_of_trail h) h' hv,
    fun h q v => pushFact_eq_true_iff (sane_of_trail h).coherent q v, ?_⟩
  intro log q a t h hok v changed htold
  obtain ⟨s, fuel, hs, hdrain, rfl⟩ := h.last_asked
  obtain ⟨hcurrent, hq⟩ := current_of_drain hs.sane hdrain
  have ht := h.sane.1
  have hcached := cached_of_touched ht hq
  refine ⟨t.assignment q, hcurrent.trans (answer_of_touched ht hok hq), foldl_join_le ?_ ?_⟩
  · obtain ⟨k, c, hk, hc, hbelow⟩ := h.holds (List.mem_append_left _ htold)
    have hvalue := Option.some.inj ((cached_eq ht hk hc).symm.trans hcached)
    rw [← hvalue]
    exact hbelow ((failure_eq ht hk hc).symm.trans hok)
  · intro b hb
    obtain ⟨b', hb', hle⟩ := h.answers_le (q := q) (by
      rw [answersTo, List.filterMap_append]
      exact List.mem_append_left _ hb)
    rw [hcached] at hb'
    cases hb'
    exact hle

/-- A query that changes its mind: its result is another one once 5 has been told
to the query it reads. -/
def fickle : Nat → Rhs Nat (PowerSet Nat) String Empty Empty (PowerSet Nat)
  | 0 => .read 1 fun v => .done (if 5 ∈ v then .singleton 2 else .singleton 1)
  | _ => .done .empty

theorem facts_never_lost_fickle :
    ∃ log a t b, Dialogue fickle (log ++ [.asked 0 a]) t ∧ t.failure 0 = none ∧
      .told 0 (.singleton 9) true ∈ log ∧
      (answersTo 0 log).map (·.same (.singleton 1)) = [true] ∧ a = .ok b ∧
      Le ((answersTo 0 log).foldl Lattice.join (.singleton 9)) b ∧
      b.same (.ofList [1, 2, 9]) = true := by
  -- between the two questions one fact changes the result, and the other is joined to it
  obtain ⟨⟨log, s⟩, hlog, hanswers, hchanged, t, hdrain, hfailure, hfinal⟩ :
      ∃ a ∈ [.ask 0, .tell 1 (.singleton 5)].foldlM (exchange fickle 20) ([], empty),
        (answersTo 0 a.1).map (·.same (.singleton 1)) = [true] ∧
        (a.2.pushFact 0 (.singleton 9)).1 = true ∧
        ∃ t ∈ ((a.2.pushFact 0 (.singleton 9)).2.touch 0).2.drain fickle 20, t.failure 0 = none ∧
          (t.current ((a.2.pushFact 0 (.singleton 9)).2.touch 0).1).toOption.any
            (·.same (.ofList [1, 2, 9])) = true := by
    decide +kernel
  have hbefore := (Dialogue.fresh.append hlog).told (q := 0) (v := .singleton 9)
  have hdialogue := hbefore.asked (q := 0) hdrain
  rw [hchanged] at hdialogue
  have htold : .told 0 (.singleton 9) true ∈ log ++ [.told 0 (.singleton 9) true] :=
    List.mem_append_right _ (List.mem_singleton.mpr rfl)
  obtain ⟨b, hb, hle⟩ := facts_never_lost.2.2 hdialogue hfailure _ _ htold
  rw [hb] at hfinal
  have hsame : answersTo 0 (log ++ [.told 0 (.singleton 9) true]) = answersTo 0 log := by
    simp [answersTo, Exchange.answerTo?]
  refine ⟨_, _, t, b, hdialogue, hfailure, htold, ?_, hb, hle, hfinal⟩
  rw [hsame]
  exact hanswers

end Solver

end ValueFlow
