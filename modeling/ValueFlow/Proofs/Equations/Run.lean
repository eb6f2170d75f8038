import Mathlib.Tactic.Lemma
import ValueFlow.Equations.Solver

/-!
# Runs of right-hand sides

A right-hand side is a tree of requests. A *run* follows one path through it:
`p.Run es p'` says that `p`, making the requests of `es` and getting the
answers recorded there, has become `p'`. Nothing is said about where the
answers come from. A solver answers from a table that changes while the run
goes on; a *replay* answers from a table that stands still (`Rhs.replay`).
-/

namespace ValueFlow

/-- One request with its answer. -/
inductive Event (Q V N T : Type)
  | read (query : Q) (value : V)
  | push (query : Q) (value : V)
  | note (report : N)
  | number (thing : T) (index : Nat)

namespace Rhs

variable {Q V E N T α β : Type} {es : List (Event Q V N T)} {fs : List (Event Q V N T)}
  {p : Rhs Q V E N T α} {f : α → Rhs Q V E N T β}

/-- `p` has become `p'` after the requests and answers of `es`. -/
inductive Run : Rhs Q V E N T α → List (Event Q V N T) → Rhs Q V E N T α → Prop
  | stop (p : Rhs Q V E N T α) : Run p [] p
  | read {q : Q} {next : V → Rhs Q V E N T α} {v : V} {es : List (Event Q V N T)}
      {p : Rhs Q V E N T α} (h : Run (next v) es p) : Run (.read q next) (.read q v :: es) p
  | push {q : Q} {v : V} {next : Rhs Q V E N T α} {es : List (Event Q V N T)}
      {p : Rhs Q V E N T α} (h : Run next es p) : Run (.push q v next) (.push q v :: es) p
  | note {n : N} {next : Rhs Q V E N T α} {es : List (Event Q V N T)}
      {p : Rhs Q V E N T α} (h : Run next es p) : Run (.note n next) (.note n :: es) p
  | number {t : T} {next : Nat → Rhs Q V E N T α} {i : Nat} {es : List (Event Q V N T)}
      {p : Rhs Q V E N T α} (h : Run (next i) es p) : Run (.number t next) (.number t i :: es) p

lemma Run.trans {p₁ p₂ p₃ : Rhs Q V E N T α} (h₁ : Run p₁ es p₂) (h₂ : Run p₂ fs p₃) :
    Run p₁ (es ++ fs) p₃ := by
  induction h₁ with
  | stop p => exact h₂
  | read _ ih => exact .read (ih h₂)
  | push _ ih => exact .push (ih h₂)
  | note _ ih => exact .note (ih h₂)
  | number _ ih => exact .number (ih h₂)

/-- A program that has ended makes no more requests. -/
lemma run_done {a b : α} (h : Run (.done a : Rhs Q V E N T α) es (.done b)) :
    es = [] ∧ a = b := by
  cases h
  exact ⟨rfl, rfl⟩

/-- A finished run of a sequence is a finished run of each of its parts. -/
lemma run_bind {b : β} (h : Run (p.bind f) es (.done b)) :
    ∃ es₁ es₂ a, es = es₁ ++ es₂ ∧ Run p es₁ (.done a) ∧ Run (f a) es₂ (.done b) := by
  induction p generalizing es with
  | done a => exact ⟨[], es, a, rfl, .stop _, h⟩
  | fail | diverge => cases h
  | read q next ih =>
    cases h with
    | read h =>
      obtain ⟨es₁, es₂, a, rfl, h₁, h₂⟩ := ih _ h
      exact ⟨_ :: es₁, es₂, a, rfl, .read h₁, h₂⟩
  | push q v next ih =>
    cases h with
    | push h =>
      obtain ⟨es₁, es₂, a, rfl, h₁, h₂⟩ := ih h
      exact ⟨_ :: es₁, es₂, a, rfl, .push h₁, h₂⟩
  | note n next ih =>
    cases h with
    | note h =>
      obtain ⟨es₁, es₂, a, rfl, h₁, h₂⟩ := ih h
      exact ⟨_ :: es₁, es₂, a, rfl, .note h₁, h₂⟩
  | number t next ih =>
    cases h with
    | number h =>
      obtain ⟨es₁, es₂, a, rfl, h₁, h₂⟩ := ih _ h
      exact ⟨_ :: es₁, es₂, a, rfl, .number h₁, h₂⟩

/-- A finished run goes on with what comes after. -/
lemma Run.bind {a : α} {p' : Rhs Q V E N T β} (h : Run p es (.done a)) (hf : Run (f a) fs p') :
    Run (p.bind f) (es ++ fs) p' := by
  generalize hend : Rhs.done a = last at h
  induction h with
  | stop p =>
    subst hend
    exact hf
  | read _ ih => exact .read (ih hend)
  | push _ ih => exact .push (ih hend)
  | note _ ih => exact .note (ih hend)
  | number _ ih => exact .number (ih hend)

/-! ## Replaying against a table -/

/-- Runs a program against a table that stands still. The pushes are recorded
and have no effect. Reading a query that failed ends the replay. -/
def replay (answer : Q → Except E V) (number : T → Nat) :
    Rhs Q V E N T α → List (Event Q V N T) × Verdict E α
  | .done a => ([], .value a)
  | .fail e => ([], .failed e)
  | .diverge => ([], .diverged)
  | .read q next =>
    match answer q with
    | .error e => ([], .failed e)
    | .ok v =>
      let (es, verdict) := (next v).replay answer number
      (.read q v :: es, verdict)
  | .push q v next =>
    let (es, verdict) := next.replay answer number
    (.push q v :: es, verdict)
  | .note n next =>
    let (es, verdict) := next.replay answer number
    (.note n :: es, verdict)
  | .number t next =>
    let (es, verdict) := (next (number t)).replay answer number
    (.number t (number t) :: es, verdict)

end Rhs

/-- The event has the answer that the table gives. -/
def Event.Agrees {Q V E N T : Type} (answer : Q → Except E V) (number : T → Nat) :
    Event Q V N T → Prop
  | .read q v => answer q = .ok v
  | .number t i => number t = i
  | .push _ _ => True
  | .note _ => True

namespace Rhs

variable {Q V E N T α : Type} {answer : Q → Except E V} {number : T → Nat} {p : Rhs Q V E N T α}
  {es : List (Event Q V N T)}

lemma replay_eq_of_run {a : α} (h : Run p es (.done a)) (hes : ∀ e ∈ es, e.Agrees answer number) :
    p.replay answer number = (es, .value a) := by
  induction es generalizing p with
  | nil =>
    cases h
    rfl
  | cons e es ih =>
    obtain ⟨he, hrest⟩ := List.forall_mem_cons.mp hes
    cases h with
    | read h =>
      have hq : answer _ = .ok _ := he
      rw [replay, hq]
      simp only [ih h hrest]
    | push h | note h => simp only [replay, ih h hrest]
    | number h =>
      have ht : number _ = _ := he
      subst ht
      simp only [replay, ih h hrest]

lemma run_of_replay {a : α} (h : p.replay answer number = (es, .value a)) :
    Run p es (.done a) ∧ ∀ e ∈ es, e.Agrees answer number := by
  induction p generalizing es with
  | done b =>
    cases h
    exact ⟨.stop _, fun _ he => absurd he List.not_mem_nil⟩
  | fail | diverge => cases h
  | read q next ih =>
    rw [replay] at h
    split at h
    · cases h
    · next v hv =>
      obtain ⟨rfl, hverdict⟩ := Prod.mk.inj h
      obtain ⟨hrun, hes⟩ := ih v (Prod.ext rfl hverdict)
      exact ⟨.read hrun, List.forall_mem_cons.mpr ⟨hv, hes⟩⟩
  | push q v next ih =>
    obtain ⟨rfl, hverdict⟩ := Prod.mk.inj h
    obtain ⟨hrun, hes⟩ := ih (Prod.ext rfl hverdict)
    exact ⟨.push hrun, List.forall_mem_cons.mpr ⟨trivial, hes⟩⟩
  | note n next ih =>
    obtain ⟨rfl, hverdict⟩ := Prod.mk.inj h
    obtain ⟨hrun, hes⟩ := ih (Prod.ext rfl hverdict)
    exact ⟨.note hrun, List.forall_mem_cons.mpr ⟨trivial, hes⟩⟩
  | number t next ih =>
    obtain ⟨rfl, hverdict⟩ := Prod.mk.inj h
    obtain ⟨hrun, hes⟩ := ih _ (Prod.ext rfl hverdict)
    exact ⟨.number hrun, List.forall_mem_cons.mpr ⟨rfl, hes⟩⟩

end Rhs

end ValueFlow
