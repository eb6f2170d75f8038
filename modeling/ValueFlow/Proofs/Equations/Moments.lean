import Mathlib.Logic.Relation
import ValueFlow.Proofs.Equations.Failure

/-!
# A solver from moment to moment

A solver at work is either at rest or in the middle of an evaluation, with
part of a right-hand side still to run. `Move` says what may happen next. Each
request of a right-hand side is one move, so a property kept by every move
holds *at every moment*, also while an evaluation is under way.

The moves allow more than the solver does. Outside calls may come whenever the
solver rests, whether or not the work list is empty, and the work list may be
put into any order (`Move.reorder`). What is proved about all trails therefore
holds whatever order the queries are queued in.
-/

namespace ValueFlow

/-- A call from outside: to solve a query, or to push a fact. -/
inductive Call (Q V : Type)
  | ask (query : Q)
  | tell (query : Q) (value : V)

/-- A solver at rest, or evaluating the query with a given number. -/
inductive Moment (Q V E N T : Type)
  | resting (solver : Solver Q V E N T)
  | running (reader : Nat) (rest : Rhs Q V E N T V) (solver : Solver Q V E N T)

def Moment.solver {Q V E N T : Type} : Moment Q V E N T → Solver Q V E N T
  | .resting s => s
  | .running _ _ s => s

open Moment (resting running)
open Relation (ReflTransGen)

variable {Q V E N T : Type} [DecidableEq Q] [Fingerprint Q] [Lattice V] [DecidableEq N]
  [DecidableEq T] [Fingerprint T]

/-- What may happen next, with the call from outside if it is one. -/
inductive Move (rhs : Q → Rhs Q V E N T V) :
    Moment Q V E N T → List (Call Q V) → Moment Q V E N T → Prop
  | ask (s : Solver Q V E N T) (q : Q) : Move rhs (resting s) [.ask q] (resting (s.touch q).2)
  | tell (s : Solver Q V E N T) (q : Q) (v : V) :
      Move rhs (resting s) [.tell q v] (resting (s.pushFact q v).2)
  /-- The queries on the work list may come in any order. -/
  | reorder {s : Solver Q V E N T} {w : Fifo Nat} (h : w.toList.Perm s.worklist.toList) :
      Move rhs (resting s) [] (resting { s with worklist := w })
  | forget (s : Solver Q V E N T) : Move rhs (resting s) [] (resting s.dropReports)
  | name (s : Solver Q V E N T) (t : T) : Move rhs (resting s) [] (resting (s.numberThing t).2)
  /-- A queued query that has failed is passed over. -/
  | skip {s : Solver Q V E N T} {i : Nat} {w : Fifo Nat} (hpop : s.worklist.pop? = some (i, w))
      (h : (∃ e, s.current i = .error e) ∨ s.queries.get? i = none) :
      Move rhs (resting s) [] (resting (s.dequeue i w))
  | start {s : Solver Q V E N T} {i : Nat} {w : Fifo Nat} {q : Q} {v : V}
      (hpop : s.worklist.pop? = some (i, w)) (hok : s.current i = .ok v)
      (hq : s.queries.get? i = some q) :
      Move rhs (resting s) [] (running i (rhs q) ((s.dequeue i w).opened i))
  | read {s : Solver Q V E N T} {i : Nat} {q : Q} {next : V → Rhs Q V E N T V} {v : V}
      (h : (s.touch q).2.current (s.touch q).1 = .ok v) :
      Move rhs (running i (.read q next) s) []
        (running i (next v) ((s.touch q).2.addReader (s.touch q).1 i))
  | readFailed {s : Solver Q V E N T} {i : Nat} {q : Q} {next : V → Rhs Q V E N T V} {e : E}
      (h : (s.touch q).2.current (s.touch q).1 = .error e) :
      Move rhs (running i (.read q next) s) []
        (resting (((s.touch q).2.addReader (s.touch q).1 i).fail i e))
  | push (s : Solver Q V E N T) (i : Nat) (q : Q) (v : V) (next : Rhs Q V E N T V) :
      Move rhs (running i (.push q v next) s) [] (running i next (s.pushFact q v).2)
  | note (s : Solver Q V E N T) (i : Nat) (n : N) (next : Rhs Q V E N T V) :
      Move rhs (running i (.note n next) s) [] (running i next (s.report i n))
  | number (s : Solver Q V E N T) (i : Nat) (t : T) (next : Nat → Rhs Q V E N T V) :
      Move rhs (running i (.number t next) s) []
        (running i (next (s.numberThing t).1) (s.numberThing t).2)
  | finish (s : Solver Q V E N T) (i : Nat) (v : V) :
      Move rhs (running i (.done v) s) [] (resting (s.absorb i v).2)
  | abort (s : Solver Q V E N T) (i : Nat) (e : E) :
      Move rhs (running i (.fail e) s) [] (resting (s.fail i e))

/-- A sequence of moves, with all the calls made from outside. -/
inductive Trail (rhs : Q → Rhs Q V E N T V) (m : Moment Q V E N T) :
    List (Call Q V) → Moment Q V E N T → Prop
  | rest : Trail rhs m [] m
  | snoc {m' m'' : Moment Q V E N T} {calls last : List (Call Q V)}
      (h : Trail rhs m calls m') (hmove : Move rhs m' last m'') : Trail rhs m (calls ++ last) m''

variable {rhs : Q → Rhs Q V E N T V} {calls : List (Call Q V)}

lemma Move.trail {m m' : Moment Q V E N T} (h : Move rhs m calls m') :
    Trail rhs m calls m' := .snoc .rest h

lemma Trail.trans {m m' m'' : Moment Q V E N T} {later : List (Call Q V)}
    (h : Trail rhs m calls m') (h' : Trail rhs m' later m'') : Trail rhs m (calls ++ later) m'' := by
  induction h' with
  | rest =>
    rw [List.append_nil]
    exact h
  | snoc _ hmove ih =>
    rw [← List.append_assoc]
    exact .snoc ih hmove

lemma Trail.move {m m' m'' : Moment Q V E N T} (h : Trail rhs m calls m')
    (hmove : Move rhs m' [] m'') : Trail rhs m calls m'' := by
  rw [← calls.append_nil]
  exact .snoc h hmove

/-- A property that every move keeps holds along every trail. -/
lemma Trail.keeps {P : Moment Q V E N T → Prop} {m m' : Moment Q V E N T}
    (h : Trail rhs m calls m')
    (hmove : ∀ {m₁ m₂ : Moment Q V E N T} {last : List (Call Q V)},
      Move rhs m₁ last m₂ → P m₁ → P m₂) (hm : P m) : P m' := by
  induction h with
  | rest => exact hm
  | snoc _ hlast ih => exact hmove hlast ih

/-! ## The solver runs along trails -/

/-- What the evaluation under way is about to have numbered. -/
def Moment.pending? : Moment Q V E N T → Option T
  | .running _ (.number t _) _ => some t
  | _ => none

/-- A move that the solver makes by itself. It numbers nothing but what an
evaluation asks for. -/
structure OwnMove (rhs : Q → Rhs Q V E N T V) (m m' : Moment Q V E N T) : Prop where
  move : Move rhs m [] m'
  things : ∀ t ∈ m'.solver.things.toList, t ∈ m.solver.things.toList ∨ m.pending? = some t

/-- What the solver does by itself, from one moment to another. -/
abbrev Course (rhs : Q → Rhs Q V E N T V) : Moment Q V E N T → Moment Q V E N T → Prop :=
  Relation.ReflTransGen (OwnMove rhs)

/-- A move within an evaluation. -/
structure InnerMove (rhs : Q → Rhs Q V E N T V) (m m' : Moment Q V E N T) : Prop extends
    OwnMove rhs m m' where
  inside : ∃ i p s, m = running i p s

lemma OwnMove.of_things {m m' : Moment Q V E N T} (h : Move rhs m [] m')
    (hthings : m'.solver.things = m.solver.things) : OwnMove rhs m m' :=
  ⟨h, fun _ ht => .inl (hthings ▸ ht)⟩

lemma InnerMove.of_things {i : Nat} {p : Rhs Q V E N T V} {s : Solver Q V E N T}
    {m : Moment Q V E N T} (h : Move rhs (running i p s) [] m)
    (hthings : m.solver.things = s.things) : InnerMove rhs (running i p s) m :=
  ⟨.of_things h hthings, i, p, s, rfl⟩

lemma Course.trail {m m' : Moment Q V E N T} (h : Course rhs m m') : Trail rhs m [] m' := by
  induction h with
  | refl => exact .rest
  | tail _ hmove ih => exact .snoc ih hmove.move

namespace Solver

variable {fuel : Nat} {s : Solver Q V E N T} {t : Solver Q V E N T}

/-- An evaluation is a sequence of moves. -/
lemma inner_execute (i : Nat) (p : Rhs Q V E N T V) (s : Solver Q V E N T) :
    (∀ v t, execute i p s = (.value v, t) →
      ReflTransGen (InnerMove rhs) (running i p s) (running i (.done v) t)) ∧
    (∀ e t, execute i p s = (.failed e, t) →
      ReflTransGen (InnerMove rhs) (running i p s) (resting (t.fail i e))) := by
  induction p generalizing s with
  | done a =>
    constructor
    · intro v t h
      cases h
      exact .refl
    · intro e t h
      cases h
  | fail e =>
    constructor
    · intro v t h
      cases h
    · intro e t h
      cases h
      exact .single (.of_things (.abort s i _) (things_fail s i _))
  | diverge =>
    constructor
    · intro v t h
      cases h
    · intro e t h
      cases h
  | read q next ih =>
    -- recording the reader changes no value, so the value read is the one held before
    have hcurrent : ((s.touch q).2.addReader (s.touch q).1 i).current (s.touch q).1 =
        (s.touch q).2.current (s.touch q).1 := by
      refine current_of_maps (maps_addReader _ _ i) fun c => ?_
      rw [if_pos rfl]
      exact ⟨rfl, rfl⟩
    have hthings : ((s.touch q).2.addReader (s.touch q).1 i).things = s.things :=
      things_of_frame (frame_touch s q)
    simp only [execute, hcurrent]
    cases hread : (s.touch q).2.current (s.touch q).1 with
    | error e =>
      constructor
      · intro v t h
        cases h
      · intro e' t h
        cases h
        exact .single (.of_things (.readFailed hread) ((things_fail _ i _).trans hthings))
    | ok w =>
      obtain ⟨hvalue, hfailed⟩ := ih w ((s.touch q).2.addReader (s.touch q).1 i)
      have hmove : InnerMove rhs (running i (.read q next) s) _ := .of_things (.read hread) hthings
      exact ⟨fun v t h => .head hmove (hvalue v t h), fun e t h => .head hmove (hfailed e t h)⟩
  | push q v next ih =>
    obtain ⟨hvalue, hfailed⟩ := ih (s.pushFact q v).2
    have hmove : InnerMove rhs (running i (.push q v next) s) _ :=
      .of_things (.push s i q v next) (things_of_frame (frame_pushFact s q v))
    exact ⟨fun v t h => .head hmove (hvalue v t h), fun e t h => .head hmove (hfailed e t h)⟩
  | note n next ih =>
    obtain ⟨hvalue, hfailed⟩ := ih (s.report i n)
    have hmove : InnerMove rhs (running i (.note n next) s) _ :=
      .of_things (.note s i n next) (congrArg (·.2.1) (frame_report s i n))
    exact ⟨fun v t h => .head hmove (hvalue v t h), fun e t h => .head hmove (hfailed e t h)⟩
  | number t next ih =>
    obtain ⟨hvalue, hfailed⟩ := ih (s.numberThing t).1 (s.numberThing t).2
    have hmove : InnerMove rhs (running i (.number t next) s) _ :=
      ⟨⟨.number s i t next, fun u hu => (Numbering.mem_of_mem_number hu).imp_right
        (congrArg some ·.symm)⟩, _, _, _, rfl⟩
    exact ⟨fun v t h => .head hmove (hvalue v t h), fun e t h => .head hmove (hfailed e t h)⟩

/-- What a step does: nothing, evaluate the first query, or pass over it. -/
lemma step_cases (rhs : Q → Rhs Q V E N T V) (s : Solver Q V E N T) :
    (s.worklist.pop? = none ∧ s.step rhs = .settled) ∨
    ∃ i w, s.worklist.pop? = some (i, w) ∧
      ((∃ v q, s.current i = .ok v ∧ s.queries.get? i = some q ∧
          s.step rhs = (s.dequeue i w).evaluate rhs i q) ∨
        (((∃ e, s.current i = .error e) ∨ s.queries.get? i = none) ∧
          s.step rhs = .moved (s.dequeue i w))) := by
  cases hpop : s.worklist.pop? with
  | none => exact Or.inl ⟨rfl, by rw [step, hpop]⟩
  | some first =>
    obtain ⟨i, w⟩ := first
    have hcurrent : (s.dequeue i w).current i = s.current i := by
      refine current_of_maps (maps_dequeue s i w) fun c => ?_
      rw [if_pos rfl]
      exact ⟨rfl, rfl⟩
    unfold dequeue at hcurrent ⊢
    refine Or.inr ⟨i, w, rfl, ?_⟩
    cases hcur : s.current i with
    | error e =>
      rw [hcur] at hcurrent
      exact Or.inr ⟨Or.inl ⟨e, rfl⟩, by simp only [step, hpop, hcurrent]⟩
    | ok v =>
      rw [hcur] at hcurrent
      cases hq : s.queries.get? i with
      | none => exact Or.inr ⟨Or.inr rfl, by simp only [step, hpop, hcurrent, queries_modifyCell, hq]⟩
      | some q =>
        exact Or.inl ⟨v, q, rfl, rfl, by simp only [step, hpop, hcurrent, queries_modifyCell, hq]⟩

/-- How an evaluation ends. -/
lemma evaluate_cases (rhs : Q → Rhs Q V E N T V) (s : Solver Q V E N T) (i : Nat) (q : Q) :
    (∃ v t, execute i (rhs q) (s.opened i) = (.value v, t) ∧
      s.evaluate rhs i q = .moved (t.absorb i v).2) ∨
    (∃ e t, execute i (rhs q) (s.opened i) = (.failed e, t) ∧
      s.evaluate rhs i q = .moved (t.fail i e)) ∨
    ((execute i (rhs q) (s.opened i)).1 = .diverged ∧ s.evaluate rhs i q = .diverged) := by
  rcases hexec : execute i (rhs q) (s.opened i) with ⟨verdict, t⟩
  unfold opened at hexec
  cases verdict with
  | value v => exact Or.inl ⟨v, t, rfl, by simp only [evaluate, hexec]⟩
  | failed e => exact Or.inr (Or.inl ⟨e, t, rfl, by simp only [evaluate, hexec]⟩)
  | diverged => exact Or.inr (Or.inr ⟨rfl, by simp only [evaluate, hexec]⟩)

/-- A step takes a query off the work list, and then it passes over it or runs its
right-hand side. -/
lemma step_begins (h : s.step rhs = .moved t) :
    ∃ i w, s.worklist.pop? = some (i, w) ∧
      ((((∃ e, s.current i = .error e) ∨ s.queries.get? i = none) ∧ t = s.dequeue i w) ∨
        ∃ v q, s.current i = .ok v ∧ s.queries.get? i = some q ∧
          ReflTransGen (InnerMove rhs) (running i (rhs q) ((s.dequeue i w).opened i))
            (resting t)) := by
  rcases step_cases rhs s with ⟨-, hstep⟩ | ⟨i, w, hpop, ⟨v, q, hok, hq, hstep⟩ | ⟨hno, hstep⟩⟩
  · rw [hstep] at h
    cases h
  · refine ⟨i, w, hpop, .inr ⟨v, q, hok, hq, ?_⟩⟩
    rw [hstep] at h
    rcases evaluate_cases rhs (s.dequeue i w) i q with
      ⟨v, t', hexec, heval⟩ | ⟨e, t', hexec, heval⟩ | ⟨-, heval⟩
    · rw [heval] at h
      cases h
      refine ((inner_execute i (rhs q) _).1 v t' hexec).tail ?_
      exact (.of_things (.finish t' i v) (congrArg (·.2.1) (frame_absorb t' i v)))
    · rw [heval] at h
      cases h
      exact (inner_execute i (rhs q) _).2 e t' hexec
    · rw [heval] at h
      cases h
  · rw [hstep] at h
    cases h
    exact ⟨i, w, hpop, .inl ⟨hno, rfl⟩⟩

lemma course_step (h : s.step rhs = .moved t) :
    Course rhs (resting s) (resting t) := by
  obtain ⟨i, w, hpop, ⟨hno, rfl⟩ | ⟨v, q, hok, hq, hinner⟩⟩ := step_begins h
  · exact .single (.of_things (.skip hpop hno) rfl)
  · exact .head (.of_things (.start hpop hok hq) rfl)
      (ReflTransGen.mono (fun _ _ h => h.toOwnMove) _ _ hinner)

lemma toList_of_step_settled (h : s.step rhs = .settled) :
    s.worklist.toList = [] := by
  rcases step_cases rhs s with ⟨hpop, -⟩ | ⟨i, w, -, ⟨v, q, -, -, hstep⟩ | ⟨-, hstep⟩⟩
  · exact Fifo.pop?_eq_none_iff.mp hpop
  · rw [hstep] at h
    rcases evaluate_cases rhs (s.dequeue i w) i q with
      ⟨_, _, _, heval⟩ | ⟨_, _, _, heval⟩ | ⟨_, heval⟩
    all_goals
      rw [heval] at h
      cases h
  · rw [hstep] at h
    cases h

lemma drain_keeps {P : Solver Q V E N T → Prop}
    (hstep : ∀ {s t : Solver Q V E N T}, s.step rhs = .moved t → P s → P t)
    (h : s.drain rhs fuel = some t) (hs : P s) : P t := by
  induction fuel generalizing s with
  | zero =>
    unfold drain at h
    split at h
    · cases h
      exact hs
    · cases h
  | succ fuel ih =>
    unfold drain at h
    split at h
    · cases h
      exact hs
    · next s' hmoved => exact ih h (hstep hmoved hs)
    · cases h

lemma course_drain (h : s.drain rhs fuel = some t) :
    Course rhs (resting s) (resting t) :=
  drain_keeps (P := fun u => Course rhs (resting s) (resting u))
    (fun hstep hu => hu.trans (course_step hstep)) h .refl

lemma trail_drain (h : s.drain rhs fuel = some t) :
    Trail rhs (resting s) [] (resting t) :=
  (course_drain h).trail

omit [DecidableEq Q] [Fingerprint Q] [Lattice V] [DecidableEq N] [DecidableEq T] [Fingerprint T] in
lemma isStable_iff : s.isStable = true ↔ s.worklist.toList = [] := by
  simp [isStable, Fifo.isEmpty, Fifo.toList]

lemma toList_of_drain (h : s.drain rhs fuel = some t) :
    t.worklist.toList = [] := by
  induction fuel generalizing s with
  | zero =>
    unfold drain at h
    split at h
    · next hstable =>
      cases h
      exact isStable_iff.mp hstable
    · cases h
  | succ fuel ih =>
    unfold drain at h
    split at h
    · next hstep =>
      cases h
      exact toList_of_step_settled hstep
    · exact ih h
    · cases h

/-- With nothing queued a drain ends at once. -/
lemma drain_of_settled (h : s.worklist.toList = []) (fuel : Nat) :
    s.drain rhs fuel = some s := by
  cases fuel with
  | zero => simp [drain, isStable_iff.mpr h]
  | succ fuel =>
    rcases step_cases rhs s with ⟨-, hstep⟩ | ⟨i, w, hpop, -⟩
    · simp [drain, hstep]
    · rw [Fifo.pop?_eq_none_iff.mpr h] at hpop
      cases hpop

inductive Served (rhs : Q → Rhs Q V E N T V) : List (Call Q V) → Solver Q V E N T → Prop
  | fresh : Served rhs [] empty
  | asked {calls : List (Call Q V)} {s t : Solver Q V E N T} {q : Q} {fuel : Nat}
      (h : Served rhs calls s) (hdrain : (s.touch q).2.drain rhs fuel = some t) :
      Served rhs (calls ++ [.ask q]) t
  | told {calls : List (Call Q V)} {s : Solver Q V E N T} {q : Q} {v : V}
      (h : Served rhs calls s) : Served rhs (calls ++ [.tell q v]) (s.pushFact q v).2

lemma Served.trail {calls : List (Call Q V)} (h : Served rhs calls s) :
    Trail rhs (resting empty) calls (resting s) := by
  induction h with
  | fresh => exact .rest
  | asked _ hdrain ih => exact ih.trans ((Move.ask _ _).trail.trans (trail_drain hdrain))
  | told _ ih => exact ih.trans (Move.tell _ _ _).trail

def serve (rhs : Q → Rhs Q V E N T V) (fuel : Nat) (s : Solver Q V E N T) :
    Call Q V → Option (Solver Q V E N T)
  | .ask q => (s.touch q).2.drain rhs fuel
  | .tell q v => some (s.pushFact q v).2

lemma Served.append {calls later : List (Call Q V)}
    (h : Served rhs calls s) (hlater : later.foldlM (serve rhs fuel) s = some t) :
    Served rhs (calls ++ later) t := by
  induction later generalizing calls s with
  | nil =>
    cases hlater
    rw [List.append_nil]
    exact h
  | cons call later ih =>
    rw [List.foldlM_cons] at hlater
    obtain ⟨u, hu, hrest⟩ := Option.bind_eq_some_iff.mp hlater
    rw [List.append_cons]
    refine ih ?_ hrest
    cases call with
    | ask q => exact h.asked hu
    | tell q v =>
      cases hu
      exact h.told

end Solver

end ValueFlow
