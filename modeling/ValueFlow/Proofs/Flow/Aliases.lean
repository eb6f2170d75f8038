import ValueFlow.Proofs.Flow.Hindsight

/-!
# Aliases and calls

The expressions that a value flows to are its aliases. A call invokes the value if
its callee is one of them. Both are questions of their own, answered for refined
environments at different times; once a session has settled they agree.
-/

namespace ValueFlow

/-! ## The rule of invoking calls -/

lemma Arena.mem_calls_of_callees {a : Arena} {aliases : ConfigSet} {d : Config} :
    d ∈ (PowerSet.ofList (aliases.elems.filterMap fun ref => do
        let call ← a.calleeOf? (← ref.node?)
        return .ofNode call ref.env) : ConfigSet) ↔
      ∃ n env call, .ofNode n env ∈ aliases ∧ a.calleeOf? n = some call ∧ d = .ofNode call env := by
  rw [PowerSet.mem_ofList, List.mem_filterMap]
  constructor
  · rintro ⟨⟨cursor, env⟩, href, hd⟩
    obtain ⟨n, hn, hd⟩ := Option.bind_eq_some_iff.mp hd
    obtain ⟨call, hcall, hd⟩ := Option.bind_eq_some_iff.mp hd
    cases hd
    cases cursor with
    | node m =>
      cases hn
      exact ⟨n, env, call, href, hcall, rfl⟩
    | _ => cases hn
  · rintro ⟨n, env, call, href, hcall, rfl⟩
    refine ⟨_, href, ?_⟩
    rw [Config.node?, Config.ofNode, Cursor.node?]
    simp [hcall]

/-- The rule finds exactly the calls of the aliases that it reads. -/
lemma Rule.Comes.applied {config : Config} {P : Request → Prop} {s : Setting} {set : ConfigSet}
    (h : Comes P s (applied config) set) :
    ∃ aliases, P (.read ⟨.traced, config⟩ aliases) ∧
      ∀ d, d ∈ set ↔ ∃ n env call, .ofNode n env ∈ aliases ∧
        s.world.arena.calleeOf? n = some call ∧ d = .ofNode call env := by
  unfold Rule.applied at h
  rw [comes_bind_arena] at h
  obtain ⟨aliases, haliases, h⟩ := h.bind
  refine ⟨aliases, haliases.ask, fun d => ?_⟩
  rw [← h.pure]
  exact Arena.mem_calls_of_callees

/-! ## Calls of aliases -/

namespace Session

variable {w : World} {asked : List Query} {s : Session} {config : Config} {calls : ConfigSet}

def CallsAlias (s : Session) (config d : Config) : Prop :=
  ∃ n env call, s.Has ⟨.traced, config⟩ (.ofNode n env) ∧
    s.world.program.arena.calleeOf? n = some call ∧ d = .ofNode call env

lemma Reached.solved_traced (h : Reached w asked s) (hok : ∀ q, s.solver.failure q = none)
    (hcalls : s.Solved ⟨.applied, config⟩ calls) :
    ∃ aliases, s.Solved ⟨.traced, config⟩ aliases ∧
      ∀ n env call, .ofNode n env ∈ aliases → w.arena.calleeOf? n = some call →
        .ofNode call env ∈ calls := by
  obtain ⟨own, hown, hsub⟩ := h.comes_answer (fun q _ => hok q) hcalls
  obtain ⟨aliases, haliases, hmem⟩ := Rule.Comes.applied hown
  exact ⟨aliases, haliases, fun n env call hn hcall =>
    hsub _ ((hmem _).mpr ⟨n, env, call, hn, hcall, rfl⟩)⟩

/-- The calls that a session has found are calls of the aliases it has in the end. -/
lemma Reached.callsAlias (h : Reached w asked s) (hbuilt : s.world.program.Built)
    (hok : ∀ q, s.solver.failure q = none) (hcalls : s.Solved ⟨.applied, config⟩ calls) :
    ∀ d ∈ calls, s.CallsAlias config d := by
  obtain rfl := h.world_eq
  intro d hd
  -- the call was found for some refinement, of which the aliases have been found too
  obtain ⟨refined, own, hchain, hown, hd⟩ := h.early_of_answer hbuilt (by decide) hcalls d hd
  obtain ⟨part, hpart, hmem⟩ := Rule.Comes.applied hown
  obtain ⟨n, env, call, hn, hcall, rfl⟩ := (hmem d).mp hd
  obtain ⟨aliases, haliases, -⟩ := h.solved_traced hok hcalls
  have halias := h.mem_of_refined (by decide) haliases hchain ((hpart _ hn).2 (hok _))
  exact ⟨n, env, call, ⟨aliases, haliases, halias⟩, hcall, rfl⟩

/-- **The calls that invoke a value are those whose callee is an alias of it.** In a
settled session without failures, once the calls are solved for a configuration, so
are the aliases, and the calls are exactly those of an aliased callee, under the
environment of the alias. -/
theorem applied_agrees_with_traced {sources : Sources} {p : Program}
    (hbuild : Program.build sources = .ok p) {catalogue : Catalogue} {bound : Nat}
    {targets : List NodeId} (h : Reached ⟨p, catalogue, bound, targets⟩ asked s)
    (hok    : ∀ q, s.solver.failure q = none) {config : Config} {calls : ConfigSet}
    (hcalls : s.Solved ⟨.applied, config⟩ calls) :
    ∃ aliases, s.Solved ⟨.traced, config⟩ aliases ∧
      ∀ d, d ∈ calls ↔ ∃ n env call, .ofNode n env ∈ aliases ∧
        p.arena.calleeOf? n = some call ∧ d = .ofNode call env := by
  have hworld := h.world_eq
  obtain ⟨aliases, haliases, hmem⟩ := h.solved_traced hok hcalls
  refine ⟨aliases, haliases, fun d => ⟨fun hd => ?_, ?_⟩⟩
  · have hbuilt : s.world.program.Built := hworld ▸ Program.built_of_build hbuild
    obtain ⟨n, env, call, hn, hcall, rfl⟩ := h.callsAlias hbuilt hok hcalls d hd
    rw [hworld] at hcall
    exact ⟨n, env, call, haliases.has_iff.mp hn, hcall, rfl⟩
  · rintro ⟨n, env, call, hn, hcall, rfl⟩
    exact hmem n env call hn hcall

def forwarding : Sources :=
  [("main", "function run(cb) \x7b const f = cb; return f(1); \x7d\n" ++
    "function id(x) \x7b return x; \x7d\nrun(id);")]

def forwarded (p : Program) : Config := .ofNode 3 (p.arena.openEnv 3)

/-- The call of the parameter is found under the context of `run(id)` only when that
call is evaluated, after the question about the parameter was answered. -/
theorem applied_agrees_with_traced_forwarding :
    ∃ p s calls aliases, Program.build forwarding = .ok p ∧
      Reached ⟨p, .standard, 1, []⟩
        [⟨.applied, forwarded p⟩, ⟨.evaluate, .ofNode 20 .root⟩] s ∧
      (∀ q, s.solver.failure q = none) ∧ s.Solved ⟨.applied, forwarded p⟩ calls ∧
      .ofNode 8 (Env.root.cons (.push 20 .stackBottom 1)) ∈ calls ∧
      s.Solved ⟨.traced, forwarded p⟩ aliases ∧
      ∀ d, d ∈ calls ↔ ∃ n env call, .ofNode n env ∈ aliases ∧
        p.arena.calleeOf? n = some call ∧ d = .ofNode call env := by
  obtain ⟨p, s, hbuild, -, hs, hmem, hfailures⟩ :=
    exists_reached forwarding 1
      (fun p => [⟨.applied, forwarded p⟩, ⟨.evaluate, .ofNode 20 .root⟩]) (fun p s =>
      .ofNode 8 (Env.root.cons (.push 20 .stackBottom 1)) ∈
        s.solver.assignment ⟨.applied, forwarded p⟩ ∧
      s.solver.queries.toList.all (fun q => (s.solver.failure q).isNone) = true) (by decide +kernel)
  have hok := Solver.failure_eq_none_of_all hfailures
  have hcalls : s.Solved ⟨.applied, forwarded p⟩ _ := hs.solved_iff.mpr
    ⟨Solver.cached_of_touched hs.sane.1 (hs.touched List.mem_cons_self), hok _⟩
  obtain ⟨aliases, haliases, hiff⟩ := applied_agrees_with_traced hbuild hs hok hcalls
  exact ⟨p, s, _, aliases, hbuild, hs, hok, hcalls, hmem, haliases, hiff⟩

end Session

end ValueFlow
