import ValueFlow.Proofs.Flow.Calls
import ValueFlow.Proofs.Flow.Refinement
import ValueFlow.Proofs.Flow.Regions

/-!
# Callers

Which calls enter the body of a function under a context. Every call on record
fits the context: from there the context is one inside. That rests on the bound
being kept by all contexts, since a call may be found by taking the last site
off a context, which can be undone only if nothing was cut off.

The calls on record are complete for a context that stands for any caller, as
far as the session has evaluated the calls (`callers_complete_of_evaluated`).
They need not be complete before: what is searched for is where the function
flows to, and that search does not follow a function into a parameter with a
default (`defaulted_parameter_hides_caller`).
-/

namespace ValueFlow

open Moment (resting)

/-! ## Contexts within the bound -/

namespace Context

/-- The contexts that a session can be asked about: the ones where nothing is
known about calls, and calls entered from them. -/
inductive Made (bound : Nat) : Context → Prop
  | stackBottom : Made bound .stackBottom
  | question (function : NodeId) : Made bound (.question function)
  | push (site : NodeId) {head : Context} (h : Made bound head) : Made bound (.push site head bound)

lemma Made.depth_le {bound : Nat} {c : Context} (h : Made bound c) : c.depth ≤ bound := by
  cases h with
  | stackBottom | question => exact Nat.zero_le bound
  | push site h => exact depth_push_le site _ bound

/-- A call is never an unknown caller. -/
lemma push_ne_question (site : NodeId) (head : Context) (bound : Nat) (function : NodeId) :
    push site head bound ≠ .question function := by
  unfold push frame truncate
  split
  · exact fun h => nomatch (Context.mk.inj h).1
  · exact fun h => nomatch (Context.mk.inj h).2

end Context

lemma Env.made_root (bound : Nat) : Env.root.All (Context.Made bound) := by
  intro c hc
  cases List.mem_singleton.mp hc
  exact .stackBottom

lemma Arena.made_openEnv (a : Arena) (n : NodeId) (bound : Nat) :
    (a.openEnv n).All (Context.Made bound) :=
  (Env.made_root bound).fit fun f _ => .question f

/-- The contexts within the bound, and the calls that they can be reached by. -/
def Region.bounded (w : World) : Region w where
  node _ := True
  context c := c.depth ≤ w.bound
  calls head c := c.Enters w head
  inside _ _ := trivial
  bottom := Nat.zero_le _
  question _ _ := Nat.zero_le _
  caller _ _ := trivial
  push site head _ _ := Context.depth_push_le site head w.bound
  tail _ _ _ h := Nat.le_of_succ_le h
  entered _ _ h := h
  widen := by
    rintro head f c ⟨call, hcall, -⟩
    exact ⟨call, hcall, fun _ => Context.refines_question _ f⟩

namespace Rule

variable {P : Request → Prop} {s : Setting} {perform : Meaning} {found : List Target}
  {callee : NodeId}

lemma Comes.valueTargets {f : NodeId} {outer : Env}
    (h : Comes P s (valueTargets callee (.ofNode f outer)) found)
    (hf : s.world.arena.isFunction f = true) : found = [.function (.ofNode f outer)] := by
  change Comes P s (do
    if (← arena).isFunction f then return [.function (.ofNode f outer)]
    _ : Rule (List Target)) found at h
  rw [comes_bind_arena, if_pos hf] at h
  exact h.pure.symm

/-- A callee that is no access invokes what its values are, and nothing else. -/
lemma Comes.targets_of_values {env : Env}
    (h : Comes P s (Rule.calleeTargets perform callee env) found)
    (hcallee : ∀ object property optional,
      s.world.arena.form callee ≠ .member object property optional) :
    ∃ values, P (.read ⟨.evaluate, .ofNode callee env⟩ values) ∧
      (∀ value ∈ values, ∃ part, Comes P s (Rule.valueTargets callee value) part ∧
        ∀ t ∈ part, t ∈ found) ∧
      ∀ t ∈ found, ∃ value ∈ values, ∃ part, Comes P s (Rule.valueTargets callee value) part ∧
        t ∈ part := by
  unfold Rule.calleeTargets at h
  rw [comes_bind_formOf] at h
  split at h
  · next hform => exact absurd hform (hcallee _ _ _)
  obtain ⟨values, hvalues, h⟩ := h.bind
  obtain ⟨targets, htargets, h⟩ := h.bind
  cases h.pure
  obtain ⟨items, hitems, htargets⟩ := htargets.bind
  obtain ⟨-, hevery, honly⟩ := Comes.gather (fun _ _ _ => List.mem_append) htargets
  refine ⟨values, hvalues.ask, fun value hvalue => ?_, fun t ht => ?_⟩
  · obtain ⟨part, hpart, hsub⟩ := hevery value ((hitems.inOrder value).mpr hvalue)
    exact ⟨part, hpart, fun t ht => mem_firstOccurrences.mpr (hsub t ht)⟩
  · obtain ⟨value, hvalue, hpart⟩ :=
      (honly t (mem_firstOccurrences.mp ht)).resolve_left List.not_mem_nil
    exact ⟨value, (hitems.inOrder value).mp hvalue, hpart⟩

/-- A callee that is no access invokes the functions that it evaluates to. -/
lemma Comes.calleeTargets {env : Env}
    (h : Comes P s (calleeTargets perform callee env) found) (hcallee : ∀ object property optional,
      s.world.arena.form callee ≠ .member object property optional) :
    ∃ values, P (.read ⟨.evaluate, .ofNode callee env⟩ values) ∧
      ∀ f outer, .ofNode f outer ∈ values → s.world.arena.isFunction f = true →
        .function (.ofNode f outer) ∈ found := by
  obtain ⟨values, hvalues, hevery, -⟩ := h.targets_of_values hcallee
  refine ⟨values, hvalues, fun f outer hf hfunction => ?_⟩
  obtain ⟨part, hpart, hsub⟩ := hevery _ hf
  exact hsub _ (hpart.valueTargets hfunction ▸ List.mem_singleton.mpr rfl)

end Rule

namespace Session

variable {w : World} {asked : List Query} {s : Session}

/-! ## Calls on record -/

/-- **Every call on record fits the context.** Whatever was asked with contexts
that a session makes, at every moment, also in the midst of further questions:
what the table has as a caller of a body is a call, or the arguments of one, and
the context of the body is one of those that it leads to. -/
theorem callers_match_context {sources : Sources} {p : Program}
    (hbuild : Program.build sources = .ok p) {catalogue : Catalogue} {bound : Nat}
    {targets : List NodeId} {more : List Query}
    {m : Moment Query ConfigSet AnalysisError Diagnostic Env}
    (h      : Reached ⟨p, catalogue, bound, targets⟩ asked s)
    (hm     : Trail (World.equation ⟨p, catalogue, bound, targets⟩) (resting s.solver)
                (more.map .ask) m)
    (hmade  : ∀ q ∈ asked ++ more, q.config.env.All (Context.Made bound))
    {config c : Config} {set : ConfigSet}
    (hset   : m.solver.cached ⟨.callers, config⟩ = some set) (hc : c ∈ set) :
    ∃ call, (c.cursor = .node call ∨ ∃ position, c.cursor = .arguments call position) ∧
      (Context.push call c.env.head bound).refines config.env.head = true := by
  have htrail := h.trail.trans hm
  rw [← List.map_append] at htrail
  have hkept := Region.kept_of_trail (R := Region.bounded _) (Program.built_of_build hbuild) htrail
    fun call hcall => by
      obtain ⟨q, hq, rfl⟩ := List.mem_map.mp hcall
      exact ⟨fun _ _ => trivial, fun c hc => (hmade q hq c hc).depth_le⟩
  obtain ⟨i, d, hi, hd, rfl⟩ := Solver.exists_of_cached hset
  obtain ⟨hplace, hheld, -⟩ := hkept i _ d hi hd
  obtain ⟨call, hcall, hrefines⟩ := (hheld c hc).caller rfl
  refine ⟨call, ?_, hrefines hplace.env.head⟩
  obtain ⟨cursor, env⟩ := c
  cases cursor with
  | node n =>
    cases hcall
    exact .inl rfl
  | arguments n position =>
    cases hcall
    exact .inr ⟨position, rfl⟩
  | pick | external => exact nomatch hcall

def selfCall : Sources := [("main", "function loop(n) \x7b loop(n); \x7d\nloop(0);")]

/-- The callers of the body that is entered from the inner call, which itself is
reached without a caller. -/
def selfCallers : Query := ⟨.callers, .ofNode 7 (Env.root.cons (.push 4 .stackBottom 1))⟩

theorem callers_match_context_self :
    ∃ p s set, Program.build selfCall = .ok p ∧
      Reached ⟨p, .standard, 1, []⟩ [⟨.callers, .ofNode 7 (p.arena.openEnv 6)⟩, selfCallers] s ∧
      s.solver.cached selfCallers = some set ∧ .ofNode 4 (Env.root.cons .stackBottom) ∈ set ∧
      ∃ call, ((Cursor.node 4) = .node call ∨ ∃ position, Cursor.node 4 = .arguments call position) ∧
        (Context.push call .stackBottom 1).refines (.push 4 .stackBottom 1) = true := by
  obtain ⟨p, s, hbuild, -, hs, hmem⟩ :=
    exists_reached selfCall 1 (fun p => [⟨.callers, .ofNode 7 (p.arena.openEnv 6)⟩, selfCallers])
      (fun _ s => .ofNode 4 (Env.root.cons .stackBottom) ∈ s.solver.assignment selfCallers)
      (by decide +kernel)
  have hset := Solver.cached_of_touched hs.sane.1
    (hs.touched (List.mem_cons_of_mem _ (List.mem_singleton.mpr rfl)))
  refine ⟨p, s, _, hbuild, hs, hset, hmem, ?_⟩
  refine callers_match_context (m := resting s.solver) hbuild hs
    (show Trail _ _ (List.map _ []) _ from .rest) (fun q hq => ?_) hset hmem
  obtain rfl | rfl : q = ⟨.callers, .ofNode 7 (p.arena.openEnv 6)⟩ ∨ q = selfCallers := by
    simpa using hq
  · exact p.arena.made_openEnv 6 1
  · exact (Env.made_root 1).cons (.push 4 .stackBottom)

/-! ## Evaluated calls -/

/-- What a call has entered is a refinement of the body under any caller. -/
lemma Reached.mem_callers_of_apply (h : Reached w asked s) {f call : NodeId} {env outer : Env}
    {part set : ConfigSet}
    (happly : Rule.Comes s.Grants ⟨w, []⟩ (Rule.apply (.ofNode f outer) call env) part)
    (hset : s.Solved ⟨.callers, .ofNode f (outer.cons (.question f))⟩ set) :
    .ofNode call env ∈ set := by
  obtain ⟨hcallers, hentered, -⟩ := happly.apply
  obtain ⟨callers, hcallers, hcall⟩ := hcallers nofun
  obtain ⟨entered, hentered, hbody⟩ := hentered nofun
  have hself : ∀ c : Config, c ∈ PowerSet.singleton c := fun _ => PowerSet.mem_singleton.mpr rfl
  have hfact := hbody _ (hself (.ofNode f (outer.cons (.push call env.head w.bound))))
  have hrefines : (Config.ofNode f (outer.cons (.question f))).Refines s.Has
      (.ofNode f (outer.cons (.push call env.head w.bound))) :=
    ⟨0, f, outer, .ofNode f (outer.cons (.push call env.head w.bound)), _, rfl,
      ⟨entered, hentered, hfact⟩, Context.push_ne_question _ _ _ _, rfl, rfl⟩
  obtain ⟨refined, hrefined, hsub⟩ := h.solved_of_refines
    (by decide : QueryKind.callers ≠ .entered) hset hrefines
  rw [hrefined.unique hcallers] at hsub
  exact hsub _ (hcall _ (hself (.ofNode call env)))

/-- **Every evaluated call is on record.** Once a session has evaluated a call,
the callers of the body of a function under any caller include the call, for
every function that the call may invoke; and for a callee that is no access
these are all functions that it evaluates to. -/
theorem callers_complete_of_evaluated {sources : Sources} {p : Program}
    (hbuild : Program.build sources = .ok p) {bound : Nat} {targets : List NodeId}
    (h      : Reached ⟨p, .standard, bound, targets⟩ asked s)
    {call callee : NodeId} {arguments : List NodeId} {optional : Bool} {env : Env}
    (hform  : p.arena.form call = .call callee arguments optional)
    (hasked : ⟨.evaluate, .ofNode call env⟩ ∈ asked) :
    ∃ found, s.result (Rule.meaning s.world.depthLimit (.targets callee env)) = some found ∧
      (∀ f outer, .function (.ofNode f outer) ∈ found → ∀ set,
        s.Solved ⟨.callers, .ofNode f (outer.cons (.question f))⟩ set → .ofNode call env ∈ set) ∧
      ((∀ object property optional, p.arena.form callee ≠ .member object property optional) →
        ∀ values, s.Solved ⟨.evaluate, .ofNode callee env⟩ values → ∀ f outer,
          .ofNode f outer ∈ values → p.arena.isFunction f = true →
            .function (.ofNode f outer) ∈ found) := by
  have hw : World.Sound ⟨p, .standard, bound, targets⟩ := .of_build hbuild
  obtain ⟨result, hresult⟩ := h.exists_solved hw hasked nofun
  obtain ⟨own, hown, -⟩ := h.comes hw hresult
  change Rule.Comes s.Grants _ (Rule.evaluateNode _ call env) own at hown
  unfold Rule.evaluateNode at hown
  rw [Rule.comes_bind_formOf, hform] at hown
  obtain ⟨found, hfound, hcalls⟩ := hown.callValues
  refine ⟨found, h.result_eq hfound, fun f outer hf set hset => ?_, fun hcallee values hvalues => ?_⟩
  · obtain ⟨part, happly, -⟩ := hcalls f outer hf
    exact h.mem_callers_of_apply happly hset
  · obtain ⟨depth, hdepth⟩ := s.world.exists_depthLimit
    rw [hdepth] at hfound
    obtain ⟨read, hread, hmem⟩ := Rule.Comes.calleeTargets hfound hcallee
    rw [hvalues.unique hread]
    exact hmem

def defaultedCallback : Sources :=
  [("main", "function g() \x7b\x7d\nfunction h(cb = 0) \x7b cb(); \x7d\nh(g);")]

/-- The call inside of the function, its callee, and the callers of what is
passed; all where nothing is known about calls. -/
def callbackQueries (p : Program) : List Query :=
  [⟨.evaluate, .ofNode 8 (p.arena.openEnv 8)⟩, ⟨.evaluate, .ofNode 7 (p.arena.openEnv 8)⟩,
    ⟨.callers, .ofNode 2 (p.arena.openEnv 1)⟩]

theorem callers_complete_of_evaluated_defaulted :
    ∃ p s set, Program.build defaultedCallback = .ok p ∧
      p.arena.form 8 = .call 7 [] false ∧
      Reached ⟨p, .standard, 1, []⟩ (callbackQueries p) s ∧
      s.Solved ⟨.callers, .ofNode 2 (p.arena.openEnv 1)⟩ set ∧
      .ofNode 8 (p.arena.openEnv 8) ∈ set := by
  obtain ⟨p, s, hbuild, hw, hs, hcall, hcallee, hfunction, hopen, hvalue⟩ :=
    exists_reached defaultedCallback 1 callbackQueries (fun p s =>
      p.arena.form 8 = .call 7 [] false ∧ p.arena.form 7 = .identifier 2 ∧
      p.arena.isFunction 2 = true ∧ p.arena.openEnv 1 = Env.root.cons (.question 2) ∧
      .ofNode 2 .root ∈ s.solver.assignment ⟨.evaluate, .ofNode 7 (p.arena.openEnv 8)⟩)
      (by decide +kernel)
  have hset := hs.solved_assignment (q := ⟨.callers, .ofNode 2 (p.arena.openEnv 1)⟩) hw
    (by simp [callbackQueries]) nofun
  have hvalues := hs.solved_assignment (q := ⟨.evaluate, .ofNode 7 (p.arena.openEnv 8)⟩) hw
    (by simp [callbackQueries]) nofun
  obtain ⟨found, -, hcallers, htargets⟩ := callers_complete_of_evaluated hbuild hs hcall (.head _)
  have hfound := htargets (by simp [hcallee]) _ hvalues 2 .root hvalue hfunction
  exact ⟨p, s, _, hbuild, hcall, hs, hset, hcallers 2 .root hfound _ (hopen ▸ hset)⟩

/-- A function is not found in a parameter with a default. The callee there
evaluates to it, but a session that is asked for its callers at once has none. -/
theorem defaulted_parameter_hides_caller :
    ∃ p s s' values set, Program.build defaultedCallback = .ok p ∧
      p.arena.form 8 = .call 7 [] false ∧ p.arena.isFunction 2 = true ∧
      Reached ⟨p, .standard, 1, []⟩ [⟨.evaluate, .ofNode 7 (p.arena.openEnv 7)⟩] s ∧
      s.Solved ⟨.evaluate, .ofNode 7 (p.arena.openEnv 7)⟩ values ∧ .ofNode 2 .root ∈ values ∧
      Reached ⟨p, .standard, 1, []⟩ [⟨.callers, .ofNode 2 (p.arena.openEnv 1)⟩] s' ∧
      s'.Solved ⟨.callers, .ofNode 2 (p.arena.openEnv 1)⟩ set ∧ ∀ c ∈ set, c.node? ≠ some 8 := by
  obtain ⟨p, s, hbuild, hw, hs, hcall, hfunction, hvalue, s', hask', hnone⟩ :=
    exists_reached defaultedCallback 1 (fun p => [⟨.evaluate, .ofNode 7 (p.arena.openEnv 7)⟩])
      (fun p s => p.arena.form 8 = .call 7 [] false ∧ p.arena.isFunction 2 = true ∧
        .ofNode 2 .root ∈ s.solver.assignment ⟨.evaluate, .ofNode 7 (p.arena.openEnv 7)⟩ ∧
        ∃ s' ∈ (start ⟨p, .standard, 1, []⟩).askAll [⟨.callers, .ofNode 2 (p.arena.openEnv 1)⟩],
          (s'.solver.assignment ⟨.callers, .ofNode 2 (p.arena.openEnv 1)⟩).elems = [])
      (by decide +kernel)
  have hs' := reached_of_askAll hask'
  refine ⟨p, s, s', _, _, hbuild, hcall, hfunction, hs,
    hs.solved_assignment hw (List.mem_singleton.mpr rfl) nofun, hvalue, hs',
    hs'.solved_assignment hw (List.mem_singleton.mpr rfl) nofun, fun c hc => ?_⟩
  rw [PowerSet.mem_def, hnone] at hc
  exact nomatch hc

end Session

end ValueFlow
