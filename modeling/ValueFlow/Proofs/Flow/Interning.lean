import ValueFlow.Proofs.Flow.Callers
import ValueFlow.Proofs.Registry

/-!
# The bound on call strings

Contexts are made in many places: where a call is entered, where a call is taken
off a context, where a context of any caller is replaced, and from outside. None
of them makes one with more call sites than the bound of the session.

A session numbers the environments that it comes to know. The registry of a
session numbers contexts as well: each call string after its tail, and each
environment after its contexts.
-/

namespace ValueFlow

/-! ## Registries -/

namespace Registry

/-- A registry with at most `bound` call sites in each context. -/
structure Within (bound : Nat) (r : Registry) : Prop where
  sound : r.Sound
  depth : ∀ i < r.contexts.size, (r.contexts.context i).depth ≤ bound

namespace Within

variable {bound k : Nat} {r r' : Registry} {e : Env}

lemma initial : Registry.initial.Within bound where
  sound := sound_initial
  depth i hi := by
    have hdepth : ∀ i < ContextArena.initial.size, (ContextArena.initial.context i).depth = 0 := by
      decide +kernel
    exact hdepth i hi ▸ Nat.zero_le bound

/-- A call string within the bound adds only such. -/
lemma withContexts (h : r.Within bound) {made : Nat × ContextArena} {c : Context}
    (hmade : r.contexts.Makes made c) (hc : c.depth ≤ bound) :
    (r.withContexts made).2.Within bound := by
  obtain ⟨hsound, hkeeps⟩ := h.sound.withContexts hmade
  refine ⟨hsound, fun i hi => ?_⟩
  obtain hold | hnew := hmade.short i hi
  · rw [hkeeps.views i hold]
    exact h.depth i hold
  · exact Nat.le_trans hnew hc

lemma push (h : r.Within bound) {site head i : Nat}
    (hpush : r.act? (.push site head bound) = some (i, r')) : r'.Within bound := by
  unfold act? at hpush
  split at hpush
  · next hhead =>
    cases hpush
    exact h.withContexts (h.sound.contexts.makes_push (hhead head (.head _)) site bound)
      (Context.depth_push_le site _ bound)
  · cases hpush

lemma intern (h : r.Within bound) {ids : List Nat}
    (hintern : r.act? (.intern ids) = some (k, r')) : r'.Within bound := by
  obtain ⟨hsound, -⟩ := h.sound.act hintern
  unfold act? at hintern
  split at hintern
  · obtain ⟨_, -, hr⟩ := Option.map_eq_some_iff.mp hintern
    cases hr
    exact ⟨hsound, h.depth⟩
  · cases hintern

/-- An environment is numbered after the call strings of its contexts. -/
lemma env (h : r.Within bound) (he : e.All (·.depth ≤ bound)) :
    (r.env e).2.Within bound ∧ (r.env e).2.env? (r.env e).1 = some e := by
  obtain ⟨hsound, hkeeps, hids, hviews, hshort⟩ := h.sound.contexts.ofContexts he
  obtain ⟨hcanonical, -, hget⟩ :=
    Numbering.number_spec h.sound.envs (r.contexts.ofContexts e.toList).1
  refine ⟨⟨⟨hsound, hcanonical, fun k ids hk => ?_⟩, fun i hi => ?_⟩, ?_⟩
  · obtain hk | ⟨-, rfl⟩ := Numbering.get?_of_number hk
    · obtain ⟨hne, hknown⟩ := h.sound.known k ids hk
      exact ⟨hne, fun i hi => hkeeps.lt_size (hknown i hi)⟩
    · refine ⟨fun hnil => ?_, hids⟩
      rw [hnil] at hviews
      cases hviews
  · obtain hold | hnew := hshort i hi
    · exact h.sound.contexts.context_of_extends hsound hkeeps hold ▸ h.depth i hold
    · exact hnew
  · exact Option.bind_eq_some_iff.mpr ⟨_, hget, congrArg Env.ofList? hviews⟩

lemma env? (h : r.Within bound) (he : r.env? k = some e) : e.All (·.depth ≤ bound) := by
  obtain ⟨ids, hids, he⟩ := Option.bind_eq_some_iff.mp he
  intro c hc
  rw [Env.toList_of_ofList? he] at hc
  obtain ⟨i, hi, rfl⟩ := List.mem_map.mp hc
  exact h.depth i ((h.sound.known k ids hids).2 i hi)

end Within

end Registry

/-! ## Sessions -/

def Region.short (w : World) : Region w where
  __ := Region.bounded w
  calls _ _ := True
  entered _ _ _ := trivial
  widen _ _ _ _ := trivial

namespace Session

/-- A session with the registry of what is made for it. From outside, points of
the program are looked up, calls are entered from numbered contexts within the bound, and
environments are put together from numbered contexts; questions and facts are about
numbered environments. An environment that the session has come to know may be
numbered at any time, with the call strings of its contexts. -/
inductive Operated (w : World) : Session → Registry → Prop
  | start : Operated w (start w) (Registry.initial.env .root).2
  | topLevel {s : Session} {r : Registry} (h : Operated w s r) (n : NodeId) :
      Operated w (s.topLevel n).2 (r.env (s.topLevel n).1.env).2
  | push {s : Session} {r r' : Registry} (h : Operated w s r) {site : NodeId} {head i : Nat}
      (hpush : r.act? (.push site head s.world.bound) = some (i, r')) : Operated w s r'
  | env {s : Session} {r r' : Registry} (h : Operated w s r) {ids : List Nat} {k : Nat} {env : Env}
      (hintern : r.act? (.intern ids) = some (k, r')) (henv : r'.env? k = some env) :
      Operated w (s.known env) r'
  | named {s : Session} {r : Registry} (h : Operated w s r) {env : Env}
      (henv : env ∈ s.solver.things.toList) : Operated w s (r.env env).2
  | takeDiagnostics {s : Session} {r : Registry} (h : Operated w s r) :
      Operated w s.takeDiagnostics.2 r
  | solve {s t : Session} {r : Registry} {q : Query} {result : Except AnalysisError ConfigSet}
      (h : Operated w s r) {k : Nat} (hq : r.env? k = some q.config.env)
      (hsolve : s.solve q = some (result, t)) : Operated w t r
  | tell {s : Session} {r : Registry} (h : Operated w s r) {q : Query} {facts : ConfigSet} {k : Nat}
      (hq : r.env? k = some q.config.env) (hfacts : ∀ c ∈ facts, ∃ k, r.env? k = some c.env) :
      Operated w (s.tell q facts).2 r

variable {w : World} {s t : Session} {r : Registry}

/-- The session was asked and told about contexts within the bound only, and knows
no other ones. -/
structure Short (w : World) (s : Session) : Prop where
  run : ∃ calls, Run w calls s ∧ ∀ call ∈ calls, (Region.short w).Allows call
  things : ∀ env ∈ s.solver.things.toList, env.All (·.depth ≤ w.bound)

namespace Short

lemma placed {c : Config} (h : c.env.All (·.depth ≤ w.bound)) :
    c.Placed (Region.short w).node (Region.short w).context :=
  ⟨fun _ _ => trivial, h⟩

lemma known (h : Short w s) {env : Env} (henv : env.All (·.depth ≤ w.bound)) :
    Short w (s.known env) := by
  obtain ⟨calls, hrun, hcalls⟩ := h.run
  refine ⟨⟨calls, hrun.known env, hcalls⟩, fun e he => ?_⟩
  obtain he | rfl := Numbering.mem_of_mem_number he
  · exact h.things e he
  · exact henv

/-- No rule makes a context beyond the bound. -/
lemma solve (hbuilt : w.program.Built) (h : Short w s) {q : Query}
    (hq : q.config.env.All (·.depth ≤ w.bound)) {result : Except AnalysisError ConfigSet}
    (hsolve : s.solve q = some (result, t)) : Short w t := by
  obtain ⟨calls, hrun, hcalls⟩ := h.run
  have hask : (Region.short w).Allows (.ask q) := placed hq
  refine ⟨⟨_, (hrun.solve hsolve).1, ?_⟩, ?_⟩
  · simpa [or_imp, forall_and] using ⟨hcalls, hask⟩
  -- all rules keep to the bound, so what is named on the way does too
  · obtain ⟨hvalue, -⟩ := solve_eq_some.mp hsolve
    rw [hrun.world_eq] at hvalue
    exact Solver.things_of_valueOf (L := (Region.short w).law)
      (fun _ hq => Region.keeps_equation hbuilt hq) (fun _ _ hv => hv) hvalue
      hrun.sane (Region.kept_of_trail hbuilt hrun.trail hcalls) hask h.things

lemma tell (h : Short w s) {q : Query} (hq : q.config.env.All (·.depth ≤ w.bound))
    {facts : ConfigSet} (hfacts : ∀ c ∈ facts, c.env.All (·.depth ≤ w.bound)) :
    Short w (s.tell q facts).2 := by
  obtain ⟨calls, hrun, hcalls⟩ := h.run
  have htell : (Region.short w).Allows (.tell q facts) :=
    ⟨placed hq, fun c hc => ⟨placed (hfacts c hc), fun _ => trivial⟩⟩
  refine ⟨⟨_, hrun.tell q facts, ?_⟩, fun env henv => h.things env ?_⟩
  · simpa [or_imp, forall_and] using ⟨hcalls, htell⟩
  · rwa [← Solver.things_of_frame (Solver.frame_pushFact s.solver q facts)]

lemma start (w : World) : Short w (start w) := by
  refine ⟨⟨[], .start w, fun _ hcall => absurd hcall List.not_mem_nil⟩, fun env henv => ?_⟩
  obtain henv | rfl := Numbering.mem_of_mem_number henv
  · cases henv
  · exact fun c hc => (Env.made_root w.bound c hc).depth_le

end Short

/-- Every operation keeps the registry and the session within the bound. -/
lemma Operated.within (hbuilt : w.program.Built) (h : Operated w s r) :
    r.Within w.bound ∧ Short w s := by
  induction h with
  | start =>
    have hroot : Env.root.All (·.depth ≤ w.bound) := fun c hc =>
      (Env.made_root w.bound c hc).depth_le
    exact ⟨(Registry.Within.initial.env hroot).1, .start w⟩
  | @topLevel s r _ n ih =>
    obtain ⟨hr, hs⟩ := ih
    have hopen : (s.world.arena.openEnv n).All (·.depth ≤ w.bound) := fun c hc =>
      (Arena.made_openEnv _ n w.bound c hc).depth_le
    exact ⟨(hr.env hopen).1, hs.known hopen⟩
  | push _ hpush ih =>
    obtain ⟨hr, hs⟩ := ih
    obtain ⟨calls, hrun, -⟩ := hs.run
    rw [hrun.world_eq] at hpush
    exact ⟨hr.push hpush, hs⟩
  | env _ hintern henv ih =>
    have hr := ih.1.intern hintern
    exact ⟨hr, ih.2.known (hr.env? henv)⟩
  | named _ henv ih => exact ⟨(ih.1.env (ih.2.things _ henv)).1, ih.2⟩
  | takeDiagnostics _ ih =>
    obtain ⟨hr, hs⟩ := ih
    obtain ⟨calls, hrun, hcalls⟩ := hs.run
    exact ⟨hr, ⟨calls, hrun.takeDiagnostics, hcalls⟩, hs.things⟩
  | solve _ hq hsolve ih => exact ⟨ih.1, ih.2.solve hbuilt (ih.1.env? hq) hsolve⟩
  | tell _ hq hfacts ih =>
    refine ⟨ih.1, ih.2.tell (ih.1.env? hq) fun c hc => ?_⟩
    obtain ⟨k, hk⟩ := hfacts c hc
    exact ih.1.env? hk

end Session

end ValueFlow
