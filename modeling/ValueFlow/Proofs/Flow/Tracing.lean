import ValueFlow.Proofs.Flow.Follows.Targets
import ValueFlow.Proofs.Flow.Hindsight

/-!
# Aliases of aliases

A value is an alias of itself, and what an alias flows to is an alias too. The second
is not plain from the rule: an answer keeps what a rule once found, but follows further
only what the rule still finds. Where a step of flow is taken back while answers grow,
the aliases beyond it may be missing (`alias_of_alias_is_lost`).

What a step depends on are the aliases, values and callers that other answers hold, which
only grow, and what a call invokes. Where that only grows too (`Session.CallsGrow`), every
step that was ever taken is one on the final table. The aliases are then what the steps
on the table lead to. So it is in a program that spreads no errors, and in every plain
session.
-/

namespace ValueFlow

open Relation (ReflTransGen)

/-! ## The rule of aliases -/

namespace Rule

variable {perform : Meaning} {config : Config}

/-- A value is among its aliases, with all those of what it flows to, and nothing else is. -/
lemma Comes.traced {P : Request → Prop} {s : Setting} {set : ConfigSet}
    (h : Comes P s (traced perform config) set) :
    config ∈ set ∧ (∀ n, config.node? = some n →
      ∃ steps, Comes P s (flowsTo perform n config.env) steps ∧
        ∀ b ∈ steps, ∃ part, P (.read ⟨.traced, b⟩ part) ∧ ∀ c ∈ part, c ∈ set) ∧
    ∀ c ∈ set, c = config ∨ ∃ n steps, config.node? = some n ∧
      Comes P s (flowsTo perform n config.env) steps ∧
        ∃ b ∈ steps, ∃ part, P (.read ⟨.traced, b⟩ part) ∧ c ∈ part := by
  unfold Rule.traced at h
  split at h
  · next hnone =>
    rw [← h.pure, hnone]
    exact ⟨PowerSet.mem_singleton.mpr rfl, fun n hn => (by cases hn),
      fun c hc => .inl (PowerSet.mem_singleton.mp hc)⟩
  · next n hn =>
    obtain ⟨steps, hsteps, h⟩ := h.bind
    obtain ⟨next, hnext, h⟩ := h.bind
    rw [← h.pure, hn]
    refine ⟨PowerSet.mem_insert.mpr (.inr rfl), fun n' hn' => ?_, fun c hc => ?_⟩
    · cases hn'
      refine ⟨steps, hsteps, fun b hb => ?_⟩
      obtain ⟨part, hpart, hsub⟩ := hnext.unionOf hb
      exact ⟨part, hpart.ask, fun c hc => PowerSet.mem_insert.mpr (.inl (hsub c hc))⟩
    · obtain hc | rfl := PowerSet.mem_insert.mp hc
      · obtain ⟨b, hb, part, hpart, hc⟩ := hnext.exists_of_mem_unionOf hc
        exact .inr ⟨n, steps, rfl, hsteps, b, hb, part, hpart.ask, hc⟩
      · exact .inl rfl

end Rule

/-! ## Steps on the table -/

namespace Session

variable {w : World} {asked : List Query} {s : Session} {a : Config} {aliases : ConfigSet}
  {b : Config}

def Flows (s : Session) (a b : Config) : Prop :=
  (∃ n steps, a.node? = some n ∧
    s.result (Rule.flowsTo (Rule.meaning s.world.depthLimit) n a.env) = some steps ∧ b ∈ steps) ∨
  a.Refines s.Has b

/-- What an alias flows on to has been followed. -/
lemma Reached.traced_of_flows (hw : w.Sound) (h : Reached w asked s)
    (ha : s.Solved ⟨.traced, a⟩ aliases) (hstep : s.Flows a b) :
    ∃ part, s.Solved ⟨.traced, b⟩ part ∧ ∀ c ∈ part, c ∈ aliases := by
  obtain ⟨n, steps, hn, hsteps, hb⟩ | hrefines := hstep
  · obtain ⟨own, hown, hsub⟩ := h.comes hw ha
    obtain ⟨steps', hsteps', hparts⟩ := (Rule.Comes.traced hown).2.1 n hn
    obtain rfl : steps = steps' := Option.some.inj (hsteps.symm.trans (h.result_eq hsteps'))
    obtain ⟨part, hpart, hpartsub⟩ := hparts b hb
    exact ⟨part, hpart, fun c hc => hsub c (hpartsub c hc)⟩
  · exact h.solved_of_refines (by decide) ha hrefines

lemma Reached.traced_of_flows_trans (hw : w.Sound) (h : Reached w asked s)
    (ha : s.Solved ⟨.traced, a⟩ aliases) (hsteps : ReflTransGen s.Flows a b) :
    ∃ part, s.Solved ⟨.traced, b⟩ part ∧ ∀ c ∈ part, c ∈ aliases := by
  induction hsteps with
  | refl => exact ⟨aliases, ha, fun _ hc => hc⟩
  | tail _ hstep ih =>
    obtain ⟨part, hpart, hsub⟩ := ih
    obtain ⟨rest, hrest, hrestsub⟩ := h.traced_of_flows hw hpart hstep
    exact ⟨rest, hrest, fun c hc => hsub c (hrestsub c hc)⟩

def CallsGrow (s : Session) : Prop :=
  ∃ p, ∃ hs : s.Tabled p,
    Rule.Resolves hs.comparison (Rule.meaning s.world.depthLimit) (Rule.meaning s.world.depthLimit)

lemma Reached.callsGrow_of_standard (h : Reached w asked s) (hbuilt : w.program.Built)
    (hcatalogue : w.catalogue = .standard) (herror : w.program.spreadsError = false) :
    s.CallsGrow := by
  obtain rfl := h.world_eq
  exact ⟨_, h.tabled hbuilt, Rule.resolves_meaning hcatalogue herror _ _⟩

lemma Reached.callsGrow_of_plain (h : Reached w asked s) (hbuilt : w.program.Built)
    (hplain : s.Plain) : s.CallsGrow :=
  have hs := h.steady hbuilt hplain
  ⟨_, hs.tabled, (Rule.performs_meaning hs.tabled _ _).resolves⟩

/-- Where what is called only grows, the aliases that a session has found are those
that the steps on its final table lead to. -/
lemma Reached.flows_of_traced (hw : w.Sound) (h : Reached w asked s) (hgrow : s.CallsGrow)
    (ha : s.Solved ⟨.traced, a⟩ aliases) : ∀ c ∈ aliases, ReflTransGen s.Flows a c := by
  obtain rfl := h.world_eq
  obtain ⟨p, htabled, hresolves⟩ := hgrow
  have hplain : QueryKind.traced ≠ .callers ∧ QueryKind.traced ≠ .entered := by decide
  refine fun c hc => h.in_hindsight hw.built
    (fun q c => q.kind = .traced → ReflTransGen s.Flows q.config c)
    (fun q hq own hown c hc hkind => ?_)
    (fun kind config c hrefines d hd hkind => .head (.inr hrefines) (hd hkind)) hplain ha c hc rfl
  obtain ⟨kind, config⟩ := q
  cases hkind
  obtain rfl | ⟨n, found, hn, ⟨es, hrun, hes⟩, b, hb, part, hpart, hc⟩ :=
    (Rule.Comes.traced hown).2.2 c hc
  · exact .refl
  -- every step that is taken on parts of the final answers is one on the final table
  have hsolved : s.Solved ⟨.traced, config⟩ _ := h.solved_iff.mpr
    ⟨Solver.cached_of_touched h.sane.1 hq, h.failure_eq_none hw (by simp)⟩
  obtain ⟨final, hfinal, -⟩ := h.comes hw hsolved
  obtain ⟨steps, hsteps, -⟩ := (Rule.Comes.traced hfinal).2.1 n hn
  have hposed : htabled.comparison.Posed ⟨.traced, config⟩ := Terrain.posed_all _
  have hfollows := (Rule.compares_flowsTo hresolves (Terrain.at_of_spot hposed.1 hn)
    (hposed.2 n hn) [] steps hsteps).2
  have hwithin := hfollows.of_run hrun fun q set he => PowerSet.le_iff.mpr fun c hc => by
    obtain ⟨⟨hanswerable, -⟩, hhas⟩ := hes _ he c hc
    obtain ⟨answer, hanswer, hc⟩ := hhas (hw.failure_eq_none h.trail hanswerable)
    rwa [(h.touched_of_solved q answer hanswer).2]
  exact .head (.inl ⟨n, steps, hn, h.result_eq hsteps, hwithin.subset b hb⟩)
    ((hpart c hc).1.2 hplain rfl)

/-- **A value is an alias of itself, and aliases of aliases are aliases.** In a settled
session with the catalogue of the standard library, a value is among its aliases. Unless
the program constructs an `Error` with a spread as its first argument and the session is
not plain, the aliases of every alias have been found as well, and are among the aliases
of the value. -/
theorem traced_reflexive_transitive {sources : Sources} {p : Program}
    (hbuild : Program.build sources = .ok p) {bound : Nat} {targets : List NodeId}
    (h : Reached ⟨p, .standard, bound, targets⟩ asked s) {a : Config} {aliases : ConfigSet}
    (ha : s.Solved ⟨.traced, a⟩ aliases) :
    a ∈ aliases ∧ (p.spreadsError = false ∨ s.Plain → ∀ b ∈ aliases,
      ∃ part, s.Solved ⟨.traced, b⟩ part ∧ ∀ c ∈ part, c ∈ aliases) := by
  have hbuilt := Program.built_of_build hbuild
  have hw : World.Sound ⟨p, .standard, bound, targets⟩ := ⟨hbuilt, Catalogue.length_lookup_standard⟩
  refine ⟨?_, fun hcase b hb => ?_⟩
  · obtain ⟨own, hown, hsub⟩ := h.comes hw ha
    exact hsub a (Rule.Comes.traced hown).1
  · have hgrow : s.CallsGrow := hcase.elim (h.callsGrow_of_standard hbuilt rfl)
      (h.callsGrow_of_plain hbuilt)
    exact h.traced_of_flows_trans hw ha (h.flows_of_traced hw hgrow ha b hb)

def errorCall : Sources :=
  [("main", "function k(z) \x7b z; \x7d\nfunction g(p) \x7b k(p); \x7d\n" ++
    "(\x7b ...new Error(g) \x7d).message(77);")]

def passed (call : NodeId) : Config := .ofNode 9 (Env.root.cons (.push call .stackBottom 1))

/-- The parameter `z`, where it is passed `p` in turn. -/
def passedOn (call : NodeId) : Config :=
  .ofNode 2 (Env.root.cons (.push 10 (.push call .stackBottom 1) 1))

theorem traced_reflexive_transitive_errorCall :
    ∃ p s aliases part, Program.build errorCall = .ok p ∧ p.spreadsError = false ∧
      Reached ⟨p, .standard, 1, []⟩ [⟨.traced, .ofNode 20 .root⟩] s ∧
      s.Solved ⟨.traced, .ofNode 20 .root⟩ aliases ∧ .ofNode 20 .root ∈ aliases ∧
      passed 21 ∈ aliases ∧ s.Solved ⟨.traced, passed 21⟩ part ∧ passedOn 21 ∈ part ∧
      ∀ c ∈ part, c ∈ aliases := by
  obtain ⟨p, s, hbuild, hw, hs, herror, hpassed, hpassedOn⟩ :=
    exists_reached errorCall 1 (fun _ => [⟨.traced, .ofNode 20 .root⟩]) (fun p s =>
      p.spreadsError = false ∧ passed 21 ∈ s.solver.assignment ⟨.traced, .ofNode 20 .root⟩ ∧
      passedOn 21 ∈ s.solver.assignment ⟨.traced, passed 21⟩) (by decide +kernel)
  have haliases := hs.solved_assignment hw (q := ⟨.traced, .ofNode 20 .root⟩) (.head _) nofun
  obtain ⟨hself, htransitive⟩ := traced_reflexive_transitive hbuild hs haliases
  obtain ⟨part, hpart, hsub⟩ := htransitive (.inl herror) _ hpassed
  rw [(hs.touched_of_solved _ _ hpart).2] at hpassedOn
  exact ⟨p, s, _, part, hbuild, herror, hs, haliases, hself, hpassed, hpart, hpassedOn, hsub⟩

/-- As `errorCall`, where the error is constructed with the elements of what the call of
`map` comes to. That call is a promise if it calls the method `map` of `s`, which the
analysis finds out late. -/
def promisedCall : Sources :=
  [("main", "function k(z) \x7b z; \x7d\nfunction g(p) \x7b k(p); \x7d\n" ++
    "const s0 = \x7b async map() \x7b\x7d \x7d;\nconst s1 = s0;\nconst s2 = s1;\n" ++
    "(\x7b ...new Error(...[].concat(...Promise.all([([] || s2).map(() => g)]))) \x7d).message(77);")]

/-- While the call of `map` is not known to be a promise, `g` is among its elements and
the argument flows to the parameter `p`. Later `g` is not called any more: `p` stays an
alias, but it is not followed to `z`. -/
theorem alias_of_alias_is_lost :
    ∃ p s aliases part, Program.build promisedCall = .ok p ∧ p.spreadsError = true ∧
      Reached ⟨p, .standard, 1, []⟩ [⟨.traced, .ofNode 50 .root⟩, ⟨.traced, passed 51⟩] s ∧
      s.Solved ⟨.traced, .ofNode 50 .root⟩ aliases ∧ passed 51 ∈ aliases ∧
      s.Solved ⟨.traced, passed 51⟩ part ∧ passedOn 51 ∈ part ∧ passedOn 51 ∉ aliases := by
  obtain ⟨p, s, hbuild, hw, hs, herror, hpassed, hpassedOn, hlost⟩ :=
    exists_reached promisedCall 1 (fun _ => [⟨.traced, .ofNode 50 .root⟩, ⟨.traced, passed 51⟩])
      (fun p s => p.spreadsError = true ∧
        passed 51 ∈ s.solver.assignment ⟨.traced, .ofNode 50 .root⟩ ∧
        passedOn 51 ∈ s.solver.assignment ⟨.traced, passed 51⟩ ∧
        passedOn 51 ∉ s.solver.assignment ⟨.traced, .ofNode 50 .root⟩) (by decide +kernel)
  have hsolved : ∀ config ∈ [.ofNode 50 .root, passed 51],
      s.Solved ⟨.traced, config⟩ (s.solver.assignment ⟨.traced, config⟩) := fun config hconfig =>
    hs.solved_assignment hw (List.mem_map.mpr ⟨config, hconfig, rfl⟩) nofun
  exact ⟨p, s, _, _, hbuild, herror, hs, hsolved _ (.head _), hpassed,
    hsolved _ (.tail _ (.head _)), hpassedOn, hlost⟩

end Session

end ValueFlow
