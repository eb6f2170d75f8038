import ValueFlow.Proofs.Equations.LeastSolution
import ValueFlow.Proofs.Flow.Keeps
import ValueFlow.Session

/-!
# Settled sessions

A session that is only asked settles after every question: nothing is left to
evaluate. Then the rule of every query that has an answer can be run again on
the table, and all it asks for and all it tells is already there.
-/

namespace ValueFlow

open Moment (resting)

namespace Solver

variable {Q V E N T : Type} [DecidableEq Q] [Fingerprint Q] [Lattice V] [DecidableEq N]
  [DecidableEq T] [Fingerprint T] {rhs : Q → Rhs Q V E N T V} {s : Solver Q V E N T} {q : Q} {v : V}

/-- In a settled solver the value of a touched query is there at once. -/
lemma valueOf_of_cached (hs : s.Coherent) (h : s.worklist.toList = [])
    (hv : s.cached q = some v) (hok : s.failure q = none) :
    s.valueOf rhs q = some (.ok v, s) := by
  obtain ⟨i, c, hi, hc, rfl⟩ := exists_of_cached hv
  have hfind := (Numbering.find?_eq_some_iff hs.queries).mpr hi
  have hcurrent : s.current i = .ok c.value :=
    (current_eq_ok_iff hc).mpr ⟨(failure_eq hs hi hc).symm.trans hok, rfl⟩
  simp [valueOf, touch, hfind, drain_of_settled h, hcurrent]

omit [DecidableEq Q] [Fingerprint Q] [DecidableEq N] [DecidableEq T] [Fingerprint T] in
/-- A value that nobody has read yet leaves nothing to evaluate again. -/
lemma worklist_absorb_of_unread {i : Nat} {c : Cell V E N} (hc : s.cells[i]? = some c)
    (hunread : c.readers = .empty) (v : V) : (s.absorb i v).2.worklist = s.worklist := by
  unfold absorb
  rw [hc]
  dsimp only
  split
  · have hcell : (s.modifyCell i ({ · with value := (Lattice.absorb c.value v).1 })).cells[i]? =
        some { c with value := (Lattice.absorb c.value v).1 } := by
      rw [(maps_modifyCell s i _).get hc, if_pos rfl]
    simp_all [enqueueReaders, PowerSet.empty, modifyCell]
  · rfl

lemma evaluate_of_done (hv : rhs q = .done v) (s : Solver Q V E N T) (i : Nat) :
    s.evaluate rhs i q = .moved ((s.opened i).absorb i v).2 := by
  unfold evaluate
  rw [hv]
  rfl

/-- A new query whose right-hand side asks for nothing takes one step. -/
lemma step_enroll_of_done (hs : s.Coherent) (h : s.worklist.toList = [])
    (hv : rhs q = .done v) :
    ∃ t, (s.enroll q Lattice.bottom).step rhs = .moved t ∧ t.worklist.toList = [] := by
  have hcell := cells_enroll hs q Lattice.bottom s.queries.size
  rw [if_pos rfl] at hcell
  have hlist : (s.enroll q Lattice.bottom).worklist.toList = [s.queries.size] := by simp [enroll, h]
  obtain ⟨hpop, -⟩ | ⟨i, w, hpop, hcases⟩ := step_cases rhs (s.enroll q Lattice.bottom)
  · rw [Fifo.pop?_eq_none_iff, hlist] at hpop
    cases hpop
  have hpopped := Fifo.toList_of_pop?_eq_some hpop
  rw [hlist] at hpopped
  obtain ⟨rfl, hrest⟩ := List.cons.inj hpopped
  have hget : (s.enroll q Lattice.bottom).queries.get? s.queries.size = some q := by
    simp [enroll, Numbering.get?_append]
  obtain ⟨_, p, -, hp, hstep⟩ | ⟨hno, -⟩ := hcases
  · cases hget.symm.trans hp
    obtain ⟨f, hmap, hf⟩ := (quiet_opened ((s.enroll q Lattice.bottom).dequeue s.queries.size w)
      s.queries.size).cells
    have hopened := hmap.get ((maps_dequeue _ s.queries.size w).get hcell)
    refine ⟨_, hstep.trans (evaluate_of_done hv _ _), ?_⟩
    rw [worklist_absorb_of_unread hopened ((hf _ _).2.2.1.trans (by rw [if_pos rfl]))]
    exact hrest.symm
  · simp [current, hcell, hget] at hno

/-- In a settled solver a query whose right-hand side asks for nothing is solved
at once. -/
lemma valueOf_of_done (hs : s.Coherent) (h : s.worklist.toList = [])
    (hv : rhs q = .done v) : ∃ a t, s.valueOf rhs q = some (a, t) := by
  suffices hdrain : ∃ t, (s.touch q).2.drain rhs ample = some t by
    obtain ⟨t, ht⟩ := hdrain
    exact ⟨t.current (s.touch q).1, t, by simp [valueOf, ht]⟩
  unfold touch
  cases s.queries.find? q with
  | some i => exact ⟨s, drain_of_settled h _⟩
  | none =>
    obtain ⟨t, hstep, ht⟩ := step_enroll_of_done hs h hv
    have hample : ample = (ample - 1) + 1 := by decide
    rw [hample, drain, hstep]
    exact ⟨t, drain_of_settled ht _⟩

omit [Lattice V] [DecidableEq N] [DecidableEq T] [Fingerprint T] in
/-- Whether no query of the table has failed can be tested. -/
lemma failure_eq_none_of_all (h : s.queries.toList.all (fun q => (s.failure q).isNone) = true)
    (q : Q) : s.failure q = none := by
  cases hfind : s.queries.find? q with
  | none => simp [failure, hfind]
  | some i =>
    have hmem : q ∈ s.queries.toList := by
      rw [Numbering.toList, Array.mem_toList_iff]
      exact Array.mem_of_getElem? (Numbering.get?_of_find? hfind)
    exact Option.isNone_iff_eq_none.mp (List.all_eq_true.mp h q hmem)

/-- In a settled solver the whole right-hand side of a query makes requests that the
table supports, and comes to a part of the answer. -/
lemma supports_solve {w : World} {s : FlowSolver} (hs : Sane w.equation (resting s))
    (hempty : s.worklist.toList = []) {q : Query} {set : ConfigSet} (hset : s.cached q = some set)
    (hok : s.failure q = none) :
    ∃ part, Rule.Comes s.Supports ⟨w, []⟩ (Rule.solve w.depthLimit q) part ∧ ∀ c ∈ part, c ∈ set := by
  obtain ⟨es, v, hrun, -, hle, hsupports⟩ := replay_of_sane hs hempty hset hok
  exact ⟨v, ⟨es, hrun, hsupports⟩, PowerSet.le_iff.mp hle⟩

end Solver

/-- What the rule of a query comes to is part of what the whole right-hand side does. -/
lemma Rule.Comes.answer_of_solve {P : Request → Prop} {s : Setting} {q : Query}
    {set : ConfigSet} {depth : Nat} (h : Comes P s (solve depth q) set) :
    ∃ own, Comes P s (answer (meaning depth) q.kind q.config) own ∧ ∀ c ∈ own, c ∈ set := by
  obtain ⟨own, hown, hrest⟩ := h.bind
  refine ⟨own, hown, fun c hc => ?_⟩
  split at hrest
  · rw [← hrest.pure]
    exact hc
  · -- what the refinements add is joined to it
    obtain ⟨configs, -, hrest⟩ := hrest.bind
    obtain ⟨refined, -, hrest⟩ := hrest.bind
    rw [← hrest.pure]
    exact PowerSet.mem_union.mpr (.inl hc)

namespace Session

variable {q : Query} {set : ConfigSet} {t : Session} {queries : List Query}

/-- The session has come from nothing along a trail on the world `w`; the list holds
what it was asked and told, in order. Whatever was queued may have been evaluated in
any order, environments may be named and reports may be taken at any time. -/
structure Run (w : World) (calls : List (Call Query ConfigSet)) (s : Session) : Prop where
  world_eq : s.world = w
  trail : Trail w.equation (resting .empty) calls (resting s.solver)

/-- The session was only asked, and has nothing left to evaluate. -/
structure Reached (w : World) (asked : List Query) (s : Session) : Prop extends
    Run w (asked.map .ask) s where
  settled : s.solver.worklist.toList = []

/-- Asks queries one after the other. -/
def askAll (s : Session) (queries : List Query) : Option Session :=
  queries.foldlM (fun s q => (s.solve q).map (·.2)) s

/-- The query has the answer `set`, and asking it again changes nothing. -/
def Solved (s : Session) (q : Query) (set : ConfigSet) : Prop := s.solve q = some (.ok set, s)

lemma Solved.unique {s : Session} {set' : ConfigSet} (h : s.Solved q set) (h' : s.Solved q set') :
    set = set' := by
  unfold Solved at h h'
  rw [h] at h'
  cases h'
  rfl

/-- What a settled session has for a request of a rule: the answer read, and
whatever was told. Only the origins of a name can be missing. -/
def Grants (s : Session) : Rule.Request → Prop
  | .read q set => s.Solved q set
  | .push q facts => q.kind ≠ .bind → ∃ set, s.Solved q set ∧ ∀ c ∈ facts, c ∈ set
  | .note _ => True
  | .number env i => s.solver.things.find? env = some i

/-- What a rule comes to on the table of a session. -/
def result {α : Type} (s : Session) (r : Rule α) : Option α :=
  match ((r ⟨s.world, []⟩).replay s.solver.answer s.solver.numberOf).2 with
  | .value a => some a
  | _ => none

/-! ## Reached sessions settle -/

variable {w : World} {asked : List Query} {s : Session} {result : Except AnalysisError ConfigSet}

lemma solve_eq_some :
    s.solve q = some (result, t) ↔
      s.solver.valueOf s.world.equation q = some (result, t.solver) ∧ t.world = s.world := by
  cases hvalue : s.solver.valueOf s.world.equation q with
  | none => simp [solve, hvalue]
  | some found =>
    obtain ⟨a, u⟩ := found
    obtain ⟨world, solver⟩ := t
    simp only [solve, hvalue]
    constructor
    · intro h
      cases h
      exact ⟨rfl, rfl⟩
    · rintro ⟨h, rfl⟩
      cases h
      rfl

namespace Run

variable {calls : List (Call Query ConfigSet)}

lemma start (w : World) : Run w [] (start w) := ⟨rfl, (Move.name .empty Env.root).trail⟩

variable (h : Run w calls s)

include h

lemma sane : Solver.Sane w.equation (resting s.solver) := Solver.sane_of_trail h.trail

lemma known (env : Env) : Run w calls (s.known env) := ⟨h.world_eq, h.trail.move (.name _ env)⟩

lemma takeDiagnostics : Run w calls s.takeDiagnostics.2 :=
  ⟨h.world_eq, h.trail.move (.forget _)⟩

lemma tell (q : Query) (facts : ConfigSet) :
    Run w (calls ++ [.tell q facts]) (s.tell q facts).2 :=
  ⟨h.world_eq, .snoc h.trail (.tell _ q facts)⟩

/-- Asking settles a session, and the answer is the table's. -/
lemma solve (hsolve : s.solve q = some (result, t)) :
    Run w (calls ++ [.ask q]) t ∧ t.solver.worklist.toList = [] ∧ t.solver.Touched q ∧
      result = t.solver.answer q := by
  obtain ⟨hvalue, hworld⟩ := solve_eq_some.mp hsolve
  rw [h.world_eq] at hvalue
  obtain ⟨htrail, hrest⟩ := Solver.valueOf_spec h.sane hvalue
  exact ⟨⟨hworld.trans h.world_eq, h.trail.trans htrail⟩, hrest⟩

end Run

lemma Reached.known (h : Reached w asked s) (env : Env) : Reached w asked (s.known env) :=
  ⟨h.toRun.known env, h.settled⟩

lemma Reached.solve (h : Reached w asked s) (hsolve : s.solve q = some (result, t)) :
    Reached w (asked ++ [q]) t := by
  obtain ⟨hrun, hempty, -⟩ := Run.solve h.toRun hsolve
  exact ⟨by rwa [List.map_append], hempty⟩

lemma Reached.askAll (h : Reached w asked s) (hask : s.askAll queries = some t) :
    Reached w (asked ++ queries) t := by
  induction queries generalizing asked s with
  | nil =>
    cases hask
    rwa [List.append_nil]
  | cons q queries ih =>
    obtain ⟨u, hu, hrest⟩ := Option.bind_eq_some_iff.mp hask
    obtain ⟨⟨result, _⟩, hsolve, rfl⟩ := Option.map_eq_some_iff.mp hu
    rw [List.append_cons]
    exact ih (h.solve hsolve) hrest

lemma Reached.start (w : World) : Reached w [] (start w) := ⟨.start w, rfl⟩

lemma reached_of_askAll (h : (start w).askAll queries = some t) : Reached w queries t :=
  (Reached.start w).askAll h

/-- A test that a session about a program passes once it has answered some queries. -/
lemma exists_reached (sources : Sources) (bound : Nat)
    (queries : Program → List Query) (test : Program → Session → Prop)
    [∀ p s, Decidable (test p s)]
    (h : (Program.build sources).toOption.any (fun p => decide (∃ s ∈
      (start ⟨p, .standard, bound, []⟩).askAll (queries p), test p s)) = true) :
    ∃ p s, Program.build sources = .ok p ∧ World.Sound ⟨p, .standard, bound, []⟩ ∧
      Reached ⟨p, .standard, bound, []⟩ (queries p) s ∧ test p s := by
  obtain ⟨p, hbuild, s, hs, htest⟩ := Program.exists_of_test sources _ h
  exact ⟨p, s, hbuild, .of_build hbuild, reached_of_askAll hs, htest⟩

variable (h : Reached w asked s)

include h

lemma Reached.touched (hq : q ∈ asked) : s.solver.Touched q :=
  Solver.touched_of_trail h.trail (List.mem_map_of_mem hq)

lemma Reached.solved_iff :
    s.Solved q set ↔ s.solver.cached q = some set ∧ s.solver.failure q = none := by
  have hcoherent := h.sane.1
  constructor
  · intro hsolve
    obtain ⟨-, -, ⟨i, hi⟩, hanswer⟩ := h.toRun.solve hsolve
    obtain ⟨c, hc⟩ := hcoherent.exists_cell hi
    rw [Solver.answer_eq hcoherent hi, eq_comm, Solver.current_eq_ok_iff hc] at hanswer
    obtain ⟨hok, rfl⟩ := hanswer
    exact ⟨Solver.cached_eq hcoherent hi hc, (Solver.failure_eq hcoherent hi hc).trans hok⟩
  · rintro ⟨hcached, hok⟩
    exact solve_eq_some.mpr ⟨Solver.valueOf_of_cached hcoherent h.settled hcached hok, rfl⟩

/-- Asking again gives the same answer. -/
lemma Reached.solve_again
    (hsolve : s.solve q = some (result, t)) : t.solve q = some (result, t) := by
  have ht := h.solve hsolve
  obtain ⟨-, -, ⟨i, hi⟩, rfl⟩ := h.toRun.solve hsolve
  have hfind := (Numbering.find?_eq_some_iff ht.sane.1.queries).mpr hi
  refine solve_eq_some.mpr ⟨?_, rfl⟩
  simp [Solver.valueOf, Solver.touch, hfind, Solver.drain_of_settled ht.settled,
    Solver.answer_eq ht.sane.1 hi]

/-- Whatever was asked has the answer that the table holds, unless it asks for the
origins of a name without declaration. -/
lemma Reached.solved_assignment (hw : w.Sound) (hq : q ∈ asked)
    (hanswerable : q.Answerable w) : s.Solved q (s.solver.assignment q) :=
  h.solved_iff.mpr ⟨Solver.cached_of_touched h.sane.1 (h.touched hq),
    hw.failure_eq_none h.trail hanswerable⟩

lemma Reached.exists_solved (hw : w.Sound) (hq : q ∈ asked)
    (hanswerable : q.Answerable w) : ∃ set, s.Solved q set :=
  ⟨_, h.solved_assignment hw hq hanswerable⟩

/-- Whatever is not about the origins of a name has not failed. -/
lemma Reached.failure_eq_none (hw : w.Sound) (hkind : q.kind ≠ .bind) :
    s.solver.failure q = none :=
  hw.failure_eq_none h.trail fun hbind => absurd hbind hkind

/-- The whole right-hand side of a solved query, run on the table, makes requests
that the table supports and comes to a part of the answer. -/
lemma Reached.supports_solve (hq : s.Solved q set) :
    ∃ part, Rule.Comes s.solver.Supports ⟨w, []⟩ (Rule.solve w.depthLimit q) part ∧
      ∀ c ∈ part, c ∈ set := by
  obtain ⟨hcached, hfailure⟩ := h.solved_iff.mp hq
  exact Solver.supports_solve h.sane h.settled hcached hfailure

section

variable (hok : ∀ q, q.kind ≠ .bind → s.solver.failure q = none)

include hok

lemma Reached.grants {e : Rule.Request} (he : s.solver.Supports e) : s.Grants e := by
  cases e with
  | read q set => exact h.solved_iff.mpr he
  | push q facts =>
    intro hkind
    obtain ⟨set, hcached, hle⟩ := he (hok q hkind)
    exact ⟨set, h.solved_iff.mpr ⟨hcached, hok q hkind⟩, PowerSet.le_iff.mp hle⟩
  | note n => trivial
  | number env i => exact he

/-- The whole right-hand side of a solved query comes to a part of its answer
on the table. -/
lemma Reached.comes_solve (hq : s.Solved q set) :
    ∃ part, Rule.Comes s.Grants ⟨w, []⟩ (Rule.solve w.depthLimit q) part ∧ ∀ c ∈ part, c ∈ set := by
  obtain ⟨part, ⟨es, hrun, hsupports⟩, hsub⟩ := h.supports_solve hq
  exact ⟨part, ⟨es, hrun, fun e he => h.grants hok (hsupports e he)⟩, hsub⟩

lemma Reached.comes_answer (hq : s.Solved q set) :
    ∃ own, Rule.Comes s.Grants ⟨w, []⟩ (Rule.answer (Rule.meaning s.world.depthLimit) q.kind q.config)
      own ∧ ∀ c ∈ own, c ∈ set := by
  rw [h.world_eq]
  obtain ⟨part, hsolve, hpart⟩ := h.comes_solve hok hq
  obtain ⟨own, hown, hsub⟩ := hsolve.answer_of_solve
  exact ⟨own, hown, fun c hc => hpart c (hsub c hc)⟩

end

lemma Reached.comes (hw : w.Sound) (hq : s.Solved q set) :
    ∃ own, Rule.Comes s.Grants ⟨w, []⟩ (Rule.answer (Rule.meaning s.world.depthLimit) q.kind q.config)
      own ∧ ∀ c ∈ own, c ∈ set :=
  h.comes_answer (fun _ => h.failure_eq_none hw) hq

lemma Reached.result_eq {α : Type} {r : Rule α} {a : α}
    (hr : Rule.Comes s.Grants ⟨w, []⟩ r a) : s.result r = some a := by
  obtain ⟨es, hrun, hes⟩ := hr
  have hagrees : ∀ e ∈ es, e.Agrees s.solver.answer s.solver.numberOf := by
    intro e he
    have hgranted := hes e he
    cases e with
    | read q set => exact Solver.Supports.agrees h.sane.1 (h.solved_iff.mp hgranted)
    | push | note => trivial
    | number env i => exact Solver.Supports.agrees h.sane.1 hgranted
  rw [result, h.world_eq, Rhs.replay_eq_of_run hrun hagrees]

end Session

end ValueFlow
