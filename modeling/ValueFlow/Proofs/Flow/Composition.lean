import ValueFlow.Proofs.Flow.Hindsight

/-!
# Composed values

Some expressions only pass on what their operands evaluate to.

Nothing is lost, since the rule of a solved query comes to a part of its answer.
That nothing is added needs more: an evaluation is also answered for the
refinements of its environment. What is found there comes from operands under a
refined environment, and the operands have been answered for the same
refinement.
-/

namespace ValueFlow

/-- The expressions that an expression takes its values from. -/
def Form.alternatives? : Form NodeId → Option (List NodeId)
  | .conditional _ consequent alternative => some [consequent, alternative]
  | .logical _ lhs rhs => some [lhs, rhs]
  | .assign .plain _ value => some [value]
  | .assign (.logical _) target value => some [target, value]
  | _ => none

/-! ## The rules -/

namespace Rule

variable {perform : Meaning} {n : NodeId} {env : Env} {ms : List NodeId} {P : Request → Prop}
  {s : Setting} {set : ConfigSet}

/-- The set has the values of these configurations, as they were read, and no more. -/
structure Collects (P : Request → Prop) (configs : Config → Prop) (set : ConfigSet) : Prop where
  every : ∀ o, configs o → ∃ part, P (.read ⟨.evaluate, o⟩ part) ∧ ∀ c ∈ part, c ∈ set
  only : ∀ c ∈ set, ∃ o part, configs o ∧ P (.read ⟨.evaluate, o⟩ part) ∧ c ∈ part

lemma Comes.either {first second : NodeId} (h : Comes P s (either first second env) set) :
    Collects P (fun o => ∃ m ∈ [first, second], o = .ofNode m env) set := by
  obtain ⟨found, hfound, h⟩ := h.bind
  obtain ⟨others, hothers, h⟩ := h.bind
  cases h.pure
  constructor
  · rintro _ ⟨m, hm, rfl⟩
    obtain rfl | hm := List.mem_cons.mp hm
    · exact ⟨found, hfound.ask, fun c hc => PowerSet.mem_union.mpr (.inl hc)⟩
    · cases List.mem_singleton.mp hm
      exact ⟨others, hothers.ask, fun c hc => PowerSet.mem_union.mpr (.inr hc)⟩
  · intro c hc
    obtain hc | hc := PowerSet.mem_union.mp hc
    · exact ⟨_, found, ⟨first, .head _, rfl⟩, hfound.ask, hc⟩
    · exact ⟨_, others, ⟨second, .tail _ (.head _), rfl⟩, hothers.ask, hc⟩

lemma Comes.alternatives (h : Comes P s (evaluateNode perform n env) set)
    (hms : (s.world.arena.form n).alternatives? = some ms) :
    Collects P (fun o => ∃ m ∈ ms, o = .ofNode m env) set := by
  unfold evaluateNode at h
  rw [comes_bind_formOf] at h
  unfold Form.alternatives? at hms
  split at hms
  · next hform =>
    cases hms
    rw [hform] at h
    exact h.either
  · next hform =>
    cases hms
    rw [hform] at h
    exact h.either
  · next value hform =>
    cases hms
    rw [hform] at h
    refine ⟨?_, fun c hc => ⟨_, set, ⟨value, .head _, rfl⟩, h.ask, hc⟩⟩
    rintro _ ⟨m, hm, rfl⟩
    cases List.mem_singleton.mp hm
    exact ⟨set, h.ask, fun c hc => hc⟩
  · next hform =>
    cases hms
    rw [hform] at h
    exact h.either
  · exact nomatch hms

lemma Comes.origins {name : Symbol} (h : Comes P s (evaluateNode perform n env) set)
    (hform : s.world.arena.form n = .identifier name)
    (hsymbol : (s.world.program.scopes.symbolAt n).isSome = true) :
    ∃ origins, P (.read ⟨.bind, .ofNode n env⟩ origins) ∧ Collects P (· ∈ origins) set := by
  unfold evaluateNode at h
  rw [comes_bind_formOf, hform] at h
  change Comes P s (nameValues n env) set at h
  unfold nameValues at h
  rw [comes_bind_scopes, if_pos hsymbol] at h
  obtain ⟨origins, horigins, h⟩ := h.bind
  refine ⟨origins, horigins.ask, fun o ho => ?_, fun c hc => ?_⟩
  · obtain ⟨part, hpart, hsub⟩ := h.unionOver ho
    exact ⟨part, hpart.ask, hsub⟩
  · obtain ⟨o, ho, part, hpart, hc⟩ := h.exists_of_mem_unionOver hc
    exact ⟨o, part, ho, hpart.ask, hc⟩

end Rule

namespace Session

variable {w : World} {asked : List Query} {s : Session}

/-! ## Values -/

/-- What an evaluation may hold: the session has it in the end for one of the
operands, or for one of the origins. -/
structure Composed (s : Session) (n : NodeId) (env : Env) (c : Config) : Prop where
  alternative : ∀ ms, (s.world.program.arena.form n).alternatives? = some ms →
    ∃ m ∈ ms, s.Has ⟨.evaluate, .ofNode m env⟩ c
  origin : ∀ name, s.world.program.arena.form n = .identifier name →
    (s.world.program.scopes.symbolAt n).isSome = true →
    ∃ o, s.Has ⟨.bind, .ofNode n env⟩ o ∧ s.Has ⟨.evaluate, o⟩ c

section Settled

variable (h : Reached w asked s) (hok : ∀ q, s.solver.failure q = none) {n : NodeId} {env : Env}
  {set : ConfigSet} (hset : s.Solved ⟨.evaluate, .ofNode n env⟩ set)
include h hok hset

/-- The operands of a solved evaluation are solved, and their values are among
its own. -/
lemma Reached.solved_alternatives {ms : List NodeId}
    (hms : (w.arena.form n).alternatives? = some ms) :
    ∀ m ∈ ms, ∃ part, s.Solved ⟨.evaluate, .ofNode m env⟩ part ∧ ∀ c ∈ part, c ∈ set := by
  obtain ⟨own, hown, hsub⟩ := h.comes_answer (fun q _ => hok q) hset
  intro m hm
  obtain ⟨part, hpart, hpartsub⟩ := (Rule.Comes.alternatives hown hms).every _ ⟨m, hm, rfl⟩
  exact ⟨part, hpart, fun c hc => hsub c (hpartsub c hc)⟩

/-- The origins of a solved name are solved, and their values are among its
own. -/
lemma Reached.solved_origins {name : Symbol}
    (hform : w.arena.form n = .identifier name)
    (hsymbol : (w.program.scopes.symbolAt n).isSome = true) :
    ∃ origins, s.Solved ⟨.bind, .ofNode n env⟩ origins ∧
      ∀ o ∈ origins, ∃ part, s.Solved ⟨.evaluate, o⟩ part ∧ ∀ c ∈ part, c ∈ set := by
  obtain ⟨own, hown, hsub⟩ := h.comes_answer (fun q _ => hok q) hset
  obtain ⟨origins, horigins, hparts⟩ := Rule.Comes.origins hown hform hsymbol
  refine ⟨origins, horigins, fun o ho => ?_⟩
  obtain ⟨part, hpart, hpartsub⟩ := hparts.every o ho
  exact ⟨part, hpart, fun c hc => hsub c (hpartsub c hc)⟩

end Settled

/-- What is found for a refinement comes from operands and origins under the refined
environment, and these have been answered for the same refinement. -/
lemma Reached.composed (h : Reached w asked s) (hbuilt : w.program.Built)
    (hok : ∀ q, s.solver.failure q = none) {n : NodeId} {env : Env} {set : ConfigSet}
    (hset : s.Solved ⟨.evaluate, .ofNode n env⟩ set) {c : Config} (hc : c ∈ set) :
    s.Composed n env c := by
  obtain ⟨⟨cursor, env'⟩, own, hchain, hown, hc⟩ :=
    h.early_of_answer hbuilt (by decide) hset c hc
  obtain rfl : cursor = .node n := Config.cursor_of_refined hchain
  refine ⟨fun ms hms => ?_, fun name hform hsymbol => ?_⟩
  · rw [h.world_eq] at hms
    obtain ⟨_, read, ⟨m, hm, rfl⟩, hread, hc⟩ := (Rule.Comes.alternatives hown hms).only c hc
    obtain ⟨part, hpart, -⟩ := h.solved_alternatives hok hset hms m hm
    have hrefined := Config.refined_at_cursor hchain (.node m)
    exact ⟨m, hm, part, hpart,
      h.mem_of_refined (by decide) hpart hrefined ((hread c hc).2 (hok _))⟩
  · rw [h.world_eq] at hform hsymbol
    obtain ⟨found, hfound, hparts⟩ := Rule.Comes.origins hown hform hsymbol
    obtain ⟨o, read, ho, hread, hc⟩ := hparts.only c hc
    obtain ⟨origins, horigins, -⟩ := h.solved_origins hok hset hform hsymbol
    have ho := h.mem_of_refined (by decide) horigins hchain ((hfound o ho).2 (hok _))
    exact ⟨o, ⟨origins, horigins, ho⟩, (hread c hc).2 (hok _)⟩

/-- **The values of an expression are those of its operands.** In a settled
session without failures, a solved evaluation of a conditional, a logical
operator, a plain or a logical assignment has exactly the values of its
operands, and that of a declared name has exactly the values of its origins; all
of them are solved under the same environment. -/
theorem evaluate_compositional {sources : Sources} {p : Program}
    (hbuild : Program.build sources = .ok p) {catalogue : Catalogue} {bound : Nat}
    {targets : List NodeId} (h : Reached ⟨p, catalogue, bound, targets⟩ asked s)
    (hok    : ∀ q, s.solver.failure q = none) {n : NodeId} {env : Env} {set : ConfigSet}
    (hset   : s.Solved ⟨.evaluate, .ofNode n env⟩ set) :
    (∀ ms, (p.arena.form n).alternatives? = some ms →
      (∀ m ∈ ms, ∃ part, s.Solved ⟨.evaluate, .ofNode m env⟩ part) ∧
        ∀ c, c ∈ set ↔ ∃ m ∈ ms, s.Has ⟨.evaluate, .ofNode m env⟩ c) ∧
    ∀ name, p.arena.form n = .identifier name → (p.scopes.symbolAt n).isSome = true →
      ∃ origins, s.Solved ⟨.bind, .ofNode n env⟩ origins ∧
        (∀ o ∈ origins, ∃ part, s.Solved ⟨.evaluate, o⟩ part) ∧
        ∀ c, c ∈ set ↔ ∃ o ∈ origins, s.Has ⟨.evaluate, o⟩ c := by
  have hworld := h.world_eq
  have hcomposed : ∀ c ∈ set, s.Composed n env c := fun c hc =>
    h.composed (Program.built_of_build hbuild) hok hset hc
  refine ⟨fun ms hms => ?_, fun name hform hsymbol => ?_⟩
  · have hparts := h.solved_alternatives hok hset hms
    refine ⟨fun m hm => ?_, fun c => ⟨fun hc => ?_, ?_⟩⟩
    · obtain ⟨part, hpart, -⟩ := hparts m hm
      exact ⟨part, hpart⟩
    · exact (hcomposed c hc).alternative ms (by rw [hworld]; exact hms)
    · rintro ⟨m, hm, hc⟩
      obtain ⟨part, hpart, hsub⟩ := hparts m hm
      exact hsub c (hpart.has_iff.mp hc)
  · obtain ⟨origins, horigins, hparts⟩ := h.solved_origins hok hset hform hsymbol
    refine ⟨origins, horigins, fun o ho => ?_, fun c => ⟨fun hc => ?_, ?_⟩⟩
    · obtain ⟨part, hpart, -⟩ := hparts o ho
      exact ⟨part, hpart⟩
    · obtain ⟨o, ho, hc⟩ := (hcomposed c hc).origin name (by rw [hworld]; exact hform)
        (by rw [hworld]; exact hsymbol)
      exact ⟨o, horigins.has_iff.mp ho, hc⟩
    · rintro ⟨o, ho, hc⟩
      obtain ⟨part, hpart, hsub⟩ := hparts o ho
      exact hsub c (hpart.has_iff.mp hc)

def firstChoice : Sources :=
  [("main", "function pick(flag, x) \x7b let y; return y ||= flag ? x : 0; \x7d\n" ++
    "pick(true, 1);\npick(false, 2);")]

/-- The two calls, what is returned, and the variable that keeps it; the latter
where nothing is known about calls. -/
def firstChoiceQueries (p : Program) : List Query :=
  [⟨.evaluate, .ofNode 18 .root⟩, ⟨.evaluate, .ofNode 23 .root⟩,
    ⟨.evaluate, .ofNode 11 (p.arena.openEnv 11)⟩, ⟨.evaluate, .ofNode 6 (p.arena.openEnv 11)⟩]

theorem evaluate_compositional_choice :
    ∃ p s set kept origins, Program.build firstChoice = .ok p ∧
      Reached ⟨p, .standard, 1, []⟩ (firstChoiceQueries p) s ∧ (∀ q, s.solver.failure q = none) ∧
      p.arena.form 11 = .assign (.logical .or) 6 10 ∧
      s.Solved ⟨.evaluate, .ofNode 11 (p.arena.openEnv 11)⟩ set ∧
      (∀ c, c ∈ set ↔ ∃ m ∈ [6, 10], s.Has ⟨.evaluate, .ofNode m (p.arena.openEnv 11)⟩ c) ∧
      s.Solved ⟨.evaluate, .ofNode 6 (p.arena.openEnv 11)⟩ kept ∧
      s.Solved ⟨.bind, .ofNode 6 (p.arena.openEnv 11)⟩ origins ∧
      ∀ c, c ∈ kept ↔ ∃ o ∈ origins, s.Has ⟨.evaluate, o⟩ c := by
  obtain ⟨p, s, hbuild, -, hs, hassign, hname, hsymbol, hok⟩ :=
    exists_reached firstChoice 1 firstChoiceQueries (fun p s =>
      p.arena.form 11 = .assign (.logical .or) 6 10 ∧ p.arena.form 6 = .identifier 3 ∧
      (p.scopes.symbolAt 6).isSome = true ∧
      s.solver.queries.toList.all (fun q => (s.solver.failure q).isNone) = true) (by decide +kernel)
  have hok := Solver.failure_eq_none_of_all hok
  have hsolved : ∀ q ∈ firstChoiceQueries p, s.Solved q (s.solver.assignment q) := fun q hq =>
    hs.solved_iff.mpr ⟨Solver.cached_of_touched hs.sane.1 (hs.touched hq), hok q⟩
  have hset := hsolved ⟨.evaluate, .ofNode 11 (p.arena.openEnv 11)⟩ (by simp [firstChoiceQueries])
  have hkept := hsolved ⟨.evaluate, .ofNode 6 (p.arena.openEnv 11)⟩ (by simp [firstChoiceQueries])
  obtain ⟨-, hvalues⟩ :=
    (evaluate_compositional hbuild hs hok hset).1 [6, 10] (by rw [hassign]; rfl)
  obtain ⟨origins, horigins, -, hnames⟩ :=
    (evaluate_compositional hbuild hs hok hkept).2 3 hname hsymbol
  exact ⟨p, s, _, _, origins, hbuild, hs, hok, hassign, hset, hvalues, hkept, horigins, hnames⟩

end Session

end ValueFlow
