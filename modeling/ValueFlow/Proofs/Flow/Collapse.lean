import ValueFlow.Proofs.Flow.Callers
import ValueFlow.Proofs.Flow.Hindsight

/-!
# Calls without contexts

At module level there is nothing to refine, so once a session has settled the values
of a call are exactly what its callees return under the context of the call. With the
bound `0` that context is the same for every call, `Context.limit`. Two calls of the
same functions then have the same values: their call sites collapse.

This is about the answers of one table (`first_call_answered_before_second`).
-/

namespace ValueFlow

lemma Context.push_zero (site : NodeId) (head : Context) : push site head 0 = limit := rfl

-- calls at different sites, from different callers
example : Context.push 3 .stackBottom 0 = Context.push 8 (.question 1) 0 := by decide +kernel

/-! ## The rule of a call -/

namespace Rule

variable {P : Request → Prop} {s : Setting} {depth : Nat} {call callee : NodeId} {env : Env}
  {set : ConfigSet} (h : Comes P s (Rule.callValues (meaning (depth + 1)) call callee env) set)
  (hcallee : ∀ object property optional,
    s.world.arena.form callee ≠ .member object property optional)
include h hcallee

/-- Every function that the callee evaluates to is called, and what it returns under
the context of the call is part of the result. -/
lemma Comes.returned_values :
    ∃ callees, P (.read ⟨.evaluate, .ofNode callee env⟩ callees) ∧
      ∀ f outer, .ofNode f outer ∈ callees → s.world.arena.isFunction f = true →
        ¬ (s.world.arena.form f).flags?.any (·.isAsync) →
          ∀ r ∈ s.world.arena.returnedValues f, ∃ part,
            P (.read ⟨.evaluate, .ofNode r (outer.cons (.push call env.head s.world.bound))⟩ part) ∧
              ∀ c ∈ part, c ∈ set := by
  obtain ⟨found, hfound, hcalls⟩ := h.callValues
  obtain ⟨callees, hcallees, hmem⟩ := Comes.calleeTargets hfound hcallee
  refine ⟨callees, hcallees, fun f outer hf hfunction hasync r hr => ?_⟩
  obtain ⟨own, happly, hsub⟩ := hcalls f outer (hmem f outer hf hfunction)
  obtain ⟨part, hpart, hpartsub⟩ := (happly.apply.2.2 hasync).returns hr
  exact ⟨part, hpart, fun c hc => hsub c (hpartsub c hc)⟩

/-- A call of functions that are not `async` results in what they return. -/
lemma Comes.exists_of_mem_callValues :
    ∃ callees, P (.read ⟨.evaluate, .ofNode callee env⟩ callees) ∧
      ((∀ value ∈ callees, ∃ f outer, value = .ofNode f outer ∧ s.world.arena.isFunction f = true ∧
        ¬ (s.world.arena.form f).flags?.any (·.isAsync)) →
      ∀ c ∈ set, ∃ f outer r part, .ofNode f outer ∈ callees ∧
        r ∈ s.world.arena.returnedValues f ∧
        P (.read ⟨.evaluate, .ofNode r (outer.cons (.push call env.head s.world.bound))⟩ part) ∧
        c ∈ part) := by
  obtain ⟨targets, htargets, h⟩ := h.bind
  obtain ⟨callees, hcallees, -, honly⟩ := Comes.targets_of_values htargets hcallee
  refine ⟨callees, hcallees, fun hfunctions c hc => ?_⟩
  obtain ⟨target, htarget, own, happly, hc⟩ := h.exists_of_mem_unionOf hc
  obtain ⟨value, hvalue, found, hfound, htarget⟩ := honly target htarget
  obtain ⟨f, outer, rfl, hf, hasync⟩ := hfunctions value hvalue
  rw [hfound.valueTargets hf, List.mem_singleton] at htarget
  subst htarget
  obtain ⟨r, hr, part, hpart, hc⟩ := (Comes.apply happly).2.2 hasync |>.exists_of_mem_returns hc
  exact ⟨f, outer, r, part, hvalue, hr, hpart, hc⟩

end Rule

/-! ## Calls at module level -/

namespace Session

variable {w : World} {asked : List Query} {s : Session} {call callee : NodeId}
  {arguments : List NodeId} {optional : Bool} {set : ConfigSet}

/-- The callee evaluates at module level to functions that are not `async`, and to
nothing else. -/
def CallsFunctions (s : Session) (callee : NodeId) : Prop :=
  ∀ value, s.Has ⟨.evaluate, .ofNode callee .root⟩ value → ∃ f outer, value = .ofNode f outer ∧
    s.world.program.arena.isFunction f = true ∧
    ¬ (s.world.program.arena.form f).flags?.any (·.isAsync)

/-- One of the functions that the callee evaluates to at module level returns `c` under
the context. -/
def Returns (s : Session) (callee : NodeId) (context : Context) (c : Config) : Prop :=
  ∃ f outer r, s.Has ⟨.evaluate, .ofNode callee .root⟩ (.ofNode f outer) ∧
    r ∈ s.world.program.arena.returnedValues f ∧
    s.Has ⟨.evaluate, .ofNode r (outer.cons context)⟩ c

section Call

variable (h : Reached w asked s)
  (hform   : s.world.arena.form call = .call callee arguments optional)
  (hcallee : ∀ object property optional,
    s.world.arena.form callee ≠ .member object property optional)
  (hset    : s.Solved ⟨.evaluate, .ofNode call .root⟩ set)
  (hcalls  : s.CallsFunctions callee)
include h hform hcallee hset

lemma Reached.solved_returned :
    (∃ callees, s.Solved ⟨.evaluate, .ofNode callee .root⟩ callees) ∧
      (s.CallsFunctions callee → ∀ f outer, s.Has ⟨.evaluate, .ofNode callee .root⟩ (.ofNode f outer) →
        ∀ r ∈ s.world.arena.returnedValues f, ∃ part,
          s.Solved ⟨.evaluate, .ofNode r
            (outer.cons (.push call .stackBottom s.world.bound))⟩ part ∧ ∀ c ∈ part, c ∈ set) := by
  obtain rfl := h.world_eq
  obtain ⟨whole, hsolve, hwhole⟩ := h.supports_solve hset
  obtain ⟨own, hown, hsolve⟩ := hsolve.bind
  have hsub : ∀ c ∈ own, c ∈ set := fun c hc => hwhole c <| by
    obtain ⟨configs, -, hsolve⟩ := Rule.Comes.bind hsolve
    obtain ⟨refined, -, hsolve⟩ := hsolve.bind
    rw [← hsolve.pure]
    exact PowerSet.mem_union.mpr (.inl hc)
  change Rule.Comes _ _ (Rule.evaluateNode _ call .root) own at hown
  unfold Rule.evaluateNode at hown
  obtain ⟨depth, hdepth⟩ := s.world.exists_depthLimit
  rw [Rule.comes_bind_formOf, hform, hdepth] at hown
  obtain ⟨callees, hcallees, hreturned⟩ := Rule.Comes.returned_values hown hcallee
  have hsolved := h.solved_iff.mpr hcallees
  refine ⟨⟨callees, hsolved⟩, fun hcalls f outer hhas r hr => ?_⟩
  obtain ⟨f', outer', heq, hfunction, hasync⟩ := hcalls _ hhas
  cases heq
  obtain ⟨part, hpart, hpartsub⟩ :=
    hreturned f outer (hsolved.has_iff.mp hhas) hfunction hasync r hr
  exact ⟨part, h.solved_iff.mpr hpart, fun c hc => hsub c (hpartsub c hc)⟩

include hcalls

/-- **The values of a call at module level** are exactly what its callees return under
the context of the call. -/
theorem Reached.mem_call_iff (hbuilt : s.world.program.Built) {c : Config} :
    c ∈ set ↔ s.Returns callee (.push call .stackBottom s.world.bound) c := by
  obtain ⟨⟨callees, hcallees⟩, hreturned⟩ := h.solved_returned hform hcallee hset
  constructor
  · intro hc
    -- there is nothing to refine at module level
    obtain ⟨refined, own, hchain, hown, hc⟩ :=
      h.early_of_answer (h.world_eq ▸ hbuilt) (by decide) hset c hc
    obtain rfl : refined = .ofNode call .root := by
      obtain heq | ⟨_, hrefines, -⟩ := hchain.cases_head
      · exact heq.symm
      · exact absurd rfl hrefines.env_ne_root
    obtain rfl := h.world_eq
    change Rule.Comes _ _ (Rule.evaluateNode _ call .root) own at hown
    unfold Rule.evaluateNode at hown
    obtain ⟨depth, hdepth⟩ := s.world.exists_depthLimit
    rw [Rule.comes_bind_formOf, hform, hdepth] at hown
    obtain ⟨read, hread, hvalues⟩ := Rule.Comes.exists_of_mem_callValues hown hcallee
    have hhas : ∀ value ∈ read, s.Has ⟨.evaluate, .ofNode callee .root⟩ value := fun value hvalue =>
      (hread value hvalue).2 (h.solved_iff.mp hcallees).2
    obtain ⟨f, outer, r, part, hf, hr, hpart, hc⟩ :=
      hvalues (fun value hvalue => hcalls value (hhas value hvalue)) c hc
    obtain ⟨values, hsolved, -⟩ := hreturned hcalls f outer (hhas _ hf) r hr
    exact ⟨f, outer, r, hhas _ hf, hr, (hpart c hc).2 (h.solved_iff.mp hsolved).2⟩
  · rintro ⟨f, outer, r, hf, hr, hc⟩
    obtain ⟨part, hpart, hsub⟩ := hreturned hcalls f outer hf r hr
    exact hsub c (hpart.has_iff.mp hc)

end Call

/-- **Without contexts call sites collapse.** Let a session with the bound `0` have
evaluated two calls at module level, whose callees are names that evaluate to the same
configurations, all of them functions that are not `async`. Then the calls have the
same values. They do have answers, unless the catalogue has more than one builtin for
a shape and that is an error. -/
theorem call_sites_collapse {sources : Sources} {p : Program}
    (hbuild : Program.build sources = .ok p) {catalogue : Catalogue} {targets : List NodeId}
    (h : Reached ⟨p, catalogue, 0, targets⟩ asked s) {call' callee' : NodeId}
    {arguments' : List NodeId} {optional' : Bool} {name name' : Symbol}
    (hform   : p.arena.form call = .call callee arguments optional)
    (hform'  : p.arena.form call' = .call callee' arguments' optional')
    (hname   : p.arena.form callee = .identifier name)
    (hname'  : p.arena.form callee' = .identifier name')
    (hasked  : ⟨.evaluate, .ofNode call .root⟩ ∈ asked)
    (hasked' : ⟨.evaluate, .ofNode call' .root⟩ ∈ asked)
    (hsame   : ∀ c, s.Has ⟨.evaluate, .ofNode callee .root⟩ c ↔
      s.Has ⟨.evaluate, .ofNode callee' .root⟩ c)
    (hcalls  : ∀ c, s.Has ⟨.evaluate, .ofNode callee .root⟩ c → ∃ f outer, c = .ofNode f outer ∧
      p.arena.isFunction f = true ∧ ¬ (p.arena.form f).flags?.any (·.isAsync)) :
    ((∀ shape, (catalogue.lookup shape).length ≤ 1) → ∃ set set',
      s.Solved ⟨.evaluate, .ofNode call .root⟩ set ∧
        s.Solved ⟨.evaluate, .ofNode call' .root⟩ set') ∧
    ∀ set set', s.Solved ⟨.evaluate, .ofNode call .root⟩ set →
      s.Solved ⟨.evaluate, .ofNode call' .root⟩ set' → ∀ c, c ∈ set ↔ c ∈ set' := by
  have hbuilt := Program.built_of_build hbuild
  refine ⟨fun hunambiguous => ?_, fun set set' hset hset' c => ?_⟩
  · have hw : World.Sound ⟨p, catalogue, 0, targets⟩ := ⟨hbuilt, hunambiguous⟩
    obtain ⟨set, hset⟩ := h.exists_solved hw hasked nofun
    obtain ⟨set', hset'⟩ := h.exists_solved hw hasked' nofun
    exact ⟨set, set', hset, hset'⟩
  · obtain ⟨world, solver⟩ := s
    obtain rfl : world = ⟨p, catalogue, 0, targets⟩ := h.world_eq
    have hnames : ∀ {n symbol}, p.arena.form n = .identifier symbol →
        ∀ object property optional, p.arena.form n ≠ .member object property optional := by
      intro n symbol hn object property optional hmember
      rw [hn] at hmember
      cases hmember
    calc c ∈ set
      _ ↔ Returns _ callee (.push call .stackBottom 0) c :=
        h.mem_call_iff hform (hnames hname) hset hcalls hbuilt
      -- either context is the limit
      _ ↔ Returns _ callee' (.push call' .stackBottom 0) c := by
        simp only [Context.push_zero, Returns, hsame]
      _ ↔ c ∈ set' :=
        (h.mem_call_iff hform' (hnames hname') hset' (fun c hc => hcalls c ((hsame c).mpr hc))
          hbuilt).symm

/-- A function that is called by its name, and by another name with a default. -/
def lateCall : Sources :=
  [("main", "function id(p) \x7b return p; \x7d\nconst [x = id] = [];\nid(1);\nx(2);")]

def lateCallQueries : List Query := [15, 19, 13, 17].map fun n => ⟨.evaluate, .ofNode n .root⟩

theorem call_sites_collapse_lateCall :
    ∃ p s set set', Program.build lateCall = .ok p ∧
      Reached ⟨p, .standard, 0, []⟩ lateCallQueries s ∧
      (∀ c, s.Has ⟨.evaluate, .ofNode 13 .root⟩ c ↔ s.Has ⟨.evaluate, .ofNode 17 .root⟩ c) ∧
      (∀ c, s.Has ⟨.evaluate, .ofNode 13 .root⟩ c → ∃ f outer, c = .ofNode f outer ∧
        p.arena.isFunction f = true ∧ ¬ (p.arena.form f).flags?.any (·.isAsync)) ∧
      s.Solved ⟨.evaluate, .ofNode 15 .root⟩ set ∧ s.Solved ⟨.evaluate, .ofNode 19 .root⟩ set' ∧
      .ofNode 14 .root ∈ set ∧ .ofNode 18 .root ∈ set ∧ ∀ c, c ∈ set ↔ c ∈ set' := by
  obtain ⟨p, s, hbuild, hw, hs, hform, hform', hname, hname', hfunction, hasync, hcallee, hcallee',
      hone, htwo⟩ :=
    exists_reached lateCall 0 (fun _ => lateCallQueries) (fun p s =>
      p.arena.form 15 = .call 13 [14] false ∧ p.arena.form 19 = .call 17 [18] false ∧
      p.arena.form 13 = .identifier 0 ∧ p.arena.form 17 = .identifier 2 ∧
      p.arena.isFunction 5 = true ∧ ¬ (p.arena.form 5).flags?.any (·.isAsync) ∧
      (s.solver.assignment ⟨.evaluate, .ofNode 13 .root⟩).elems = [.ofNode 5 .root] ∧
      (s.solver.assignment ⟨.evaluate, .ofNode 17 .root⟩).elems = [.ofNode 5 .root] ∧
      .ofNode 14 .root ∈ s.solver.assignment ⟨.evaluate, .ofNode 15 .root⟩ ∧
      .ofNode 18 .root ∈ s.solver.assignment ⟨.evaluate, .ofNode 15 .root⟩) (by decide +kernel)
  have hsolved : ∀ n ∈ [15, 19, 13, 17],
      s.Solved ⟨.evaluate, .ofNode n .root⟩ (s.solver.assignment ⟨.evaluate, .ofNode n .root⟩) :=
    fun n hn => hs.solved_assignment hw (List.mem_map.mpr ⟨n, hn, rfl⟩) nofun
  have hfirst : ∀ c, s.Has ⟨.evaluate, .ofNode 13 .root⟩ c ↔ c = .ofNode 5 .root := fun c => by
    rw [(hsolved 13 (by simp)).has_iff, PowerSet.mem_def, hcallee, List.mem_singleton]
  have hsecond : ∀ c, s.Has ⟨.evaluate, .ofNode 17 .root⟩ c ↔ c = .ofNode 5 .root := fun c => by
    rw [(hsolved 17 (by simp)).has_iff, PowerSet.mem_def, hcallee', List.mem_singleton]
  have hsame : ∀ c, s.Has ⟨.evaluate, .ofNode 13 .root⟩ c ↔
      s.Has ⟨.evaluate, .ofNode 17 .root⟩ c := fun c => by rw [hfirst, hsecond]
  have hcalls : ∀ c, s.Has ⟨.evaluate, .ofNode 13 .root⟩ c → ∃ f outer, c = .ofNode f outer ∧
      p.arena.isFunction f = true ∧ ¬ (p.arena.form f).flags?.any (·.isAsync) := fun c hc =>
    ⟨5, .root, (hfirst c).mp hc, hfunction, hasync⟩
  have hcollapse := call_sites_collapse hbuild hs hform hform' hname hname' (by simp [lateCallQueries])
    (by simp [lateCallQueries]) hsame hcalls
  exact ⟨p, s, _, _, hbuild, hs, hsame, hcalls, hsolved 15 (by simp), hsolved 19 (by simp), hone,
    htwo, hcollapse.2 _ _ (hsolved 15 (by simp)) (hsolved 19 (by simp))⟩

/-- A session that has evaluated only the first call does not know that the function is
called by its other name. Its answer lacks what is passed there, which the answer for
the second call, asked next, has. -/
theorem first_call_answered_before_second :
    ∃ p s s' set set', Program.build lateCall = .ok p ∧
      Reached ⟨p, .standard, 0, []⟩ [⟨.evaluate, .ofNode 15 .root⟩] s ∧
      s.Solved ⟨.evaluate, .ofNode 15 .root⟩ set ∧
      s.solve ⟨.evaluate, .ofNode 19 .root⟩ = some (.ok set', s') ∧
      (s'.solver.assignment ⟨.evaluate, .ofNode 13 .root⟩).elems = [.ofNode 5 .root] ∧
      (s'.solver.assignment ⟨.evaluate, .ofNode 17 .root⟩).elems = [.ofNode 5 .root] ∧
      .ofNode 18 .root ∉ set ∧ .ofNode 18 .root ∈ set' := by
  obtain ⟨p, s, hbuild, hw, hs, hout, ⟨result, s'⟩, hsolve, set', hresult, hin, hcallee, hcallee'⟩ :=
    exists_reached lateCall 0 (fun _ => [⟨.evaluate, .ofNode 15 .root⟩]) (fun _ s =>
      .ofNode 18 .root ∉ s.solver.assignment ⟨.evaluate, .ofNode 15 .root⟩ ∧
      ∃ answer ∈ s.solve ⟨.evaluate, .ofNode 19 .root⟩, ∃ set' ∈ answer.1.toOption,
        .ofNode 18 .root ∈ set' ∧
        (answer.2.solver.assignment ⟨.evaluate, .ofNode 13 .root⟩).elems = [.ofNode 5 .root] ∧
        (answer.2.solver.assignment ⟨.evaluate, .ofNode 17 .root⟩).elems = [.ofNode 5 .root])
      (by decide +kernel)
  cases result with
  | error e => cases hresult
  | ok found =>
    cases hresult
    exact ⟨p, s, s', _, _, hbuild, hs, hs.solved_assignment hw List.mem_cons_self nofun, hsolve,
      hcallee, hcallee', hout, hin⟩

end Session

end ValueFlow
