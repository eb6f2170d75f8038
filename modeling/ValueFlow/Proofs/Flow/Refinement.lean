import ValueFlow.Proofs.Flow.Settled

/-!
# Refinements on a settled table

A query about a context that stands for any caller is also answered for every
context that its function was entered with. Once a session has settled this is
complete, however late a call was found.
-/

namespace ValueFlow

/-! ## Chains of refinements -/

section Refined

variable {facts : Query → Config → Prop} {config c : Config}
  (h : Relation.ReflTransGen (Config.Refines facts) config c)
include h

/-- A refined configuration is at the same place. -/
lemma Config.cursor_of_refined : c.cursor = config.cursor := by
  induction h with
  | refl => rfl
  | tail _ hrefines ih => exact hrefines.cursor_eq.trans ih

theorem Config.refined_at_cursor (cursor : Cursor) :
    Relation.ReflTransGen (Config.Refines facts) ⟨cursor, config.env⟩ ⟨cursor, c.env⟩ := by
  induction h with
  | refl => exact .refl
  | tail _ hrefines ih => exact ih.tail (hrefines.at_cursor (fun _ _ hfact => hfact) cursor)

end Refined

/-! ## The rule -/

namespace Rule

variable {P : Request → Prop} {s : Setting} {config : Config} {function : NodeId}
  {configs : List Config}

lemma Comes.mem_refinementsAt {index : Nat} {outer : Env}
    (h : Comes P s (refinementsAt config index (.question function) outer.toList) configs) :
    ∃ entered, P (.read ⟨.entered, .ofNode function outer⟩ entered) ∧
      ∀ fact ∈ entered, fact.env.head ≠ .question function → ∀ env,
        config.env.replace? index fact.env.head = some env → { config with env } ∈ configs := by
  obtain ⟨outer', houter, h⟩ := Comes.bind h
  cases houter.known
  obtain ⟨entered, hentered, h⟩ := h.bind
  obtain ⟨facts, hfacts, h⟩ := h.bind
  refine ⟨entered, hentered.ask, fun fact hfact hne env henv => ?_⟩
  obtain ⟨found, hfound, hkept⟩ := h.mem_filterMapM fact ((hfacts.inOrder fact).mpr hfact)
  rw [if_neg hne, henv] at hfound
  obtain ⟨env', henv', hfound⟩ := Comes.bind hfound
  cases henv'.known
  exact hkept _ hfound.pure.symm

/-- Every context that stands for any caller is refined by all facts that are
read for it. -/
lemma Comes.mem_refinementsFrom {contexts : List Context} {index : Nat}
    (h : Comes P s (refinementsFrom config index contexts) configs) {i : Nat} {outer : Env}
    (hdrop : contexts.drop i = .question function :: outer.toList) :
    ∃ entered, P (.read ⟨.entered, .ofNode function outer⟩ entered) ∧
      ∀ fact ∈ entered, fact.env.head ≠ .question function → ∀ env,
        config.env.replace? (index + i) fact.env.head = some env →
          { config with env } ∈ configs := by
  induction contexts generalizing index i configs with
  | nil =>
    rw [List.drop_nil] at hdrop
    exact nomatch hdrop
  | cons context rest ih =>
    obtain ⟨here, hhere, h⟩ := h.bind
    obtain ⟨others, hothers, h⟩ := h.bind
    cases h.pure
    cases i with
    | zero =>
      cases hdrop
      obtain ⟨entered, hentered, hmem⟩ := hhere.mem_refinementsAt
      exact ⟨entered, hentered, fun fact hfact hne env henv =>
        List.mem_append_left _ (hmem fact hfact hne env henv)⟩
    | succ i =>
      obtain ⟨entered, hentered, hmem⟩ := ih hothers hdrop
      rw [Nat.add_right_comm, Nat.add_assoc] at hmem
      exact ⟨entered, hentered, fun fact hfact hne env henv =>
        List.mem_append_right _ (hmem fact hfact hne env henv)⟩

-- the context of the function is replaced, the one outside stays
example : (Env.root.cons (.question 5)).replace? 0 (.push 12 .limit 1) =
    some (Env.root.cons (.push 12 .limit 1)) := by
  decide +kernel

end Rule

namespace Session

variable {w : World} {asked : List Query} {s : Session} {set : ConfigSet} {c config : Config}
  {kind : QueryKind}

/-- The session has found out that `c` is in the answer of the query. -/
def Has (s : Session) (q : Query) (c : Config) : Prop := ∃ set, s.Solved q set ∧ c ∈ set

lemma Solved.has_iff {q : Query} (h : s.Solved q set) : s.Has q c ↔ c ∈ set := by
  refine ⟨?_, fun hc => ⟨set, h, hc⟩⟩
  rintro ⟨set', h', hc⟩
  rwa [h.unique h']

/-- What the table held at any moment, the session has in the end. -/
lemma Reached.has_of_holds (h : Reached w asked s) {q : Query} (hok : s.solver.failure q = none)
    (hholds : s.solver.Holds q set) (hc : c ∈ set) : s.Has q c := by
  obtain ⟨i, cell, hi, hcell, hle⟩ := hholds
  have hcoherent := h.sane.1
  have hfailure : cell.failure = none := (Solver.failure_eq hcoherent hi hcell).symm.trans hok
  exact ⟨cell.value, h.solved_iff.mpr ⟨Solver.cached_eq hcoherent hi hcell, hok⟩,
    PowerSet.le_iff.mp (hle hfailure) c hc⟩

section Refined

variable (h : Reached w asked s) (hkind : kind ≠ .entered) (hset : s.Solved ⟨kind, config⟩ set)

include h hkind hset

/-- For every context of a solved query that stands for any caller, the table has
the facts about how its function was entered, and each of them leads to a
refinement that is solved too. -/
lemma Reached.solved_refinements {index : Nat} {function : NodeId} {outer : Env}
    (hdrop : config.env.toList.drop index = .question function :: outer.toList) :
    ∃ entered, s.Solved ⟨.entered, .ofNode function outer⟩ entered ∧
      ∀ fact ∈ entered, fact.env.head ≠ .question function →
        ∀ env, config.env.replace? index fact.env.head = some env →
          ∃ part, s.Solved ⟨kind, { config with env }⟩ part ∧ ∀ d ∈ part, d ∈ set := by
  obtain ⟨all, hsolve, hall⟩ := h.supports_solve hset
  obtain ⟨own, -, hsolve⟩ := hsolve.bind
  rw [if_neg hkind] at hsolve
  obtain ⟨configs, hconfigs, hsolve⟩ := Rule.Comes.bind hsolve
  obtain ⟨refined, hrefined, hsolve⟩ := hsolve.bind
  cases hsolve.pure
  obtain ⟨entered, hentered, hmem⟩ := Rule.Comes.mem_refinementsFrom hconfigs hdrop
  refine ⟨entered, h.solved_iff.mpr hentered, fun fact hfact hne env henv => ?_⟩
  rw [Nat.zero_add] at hmem
  obtain ⟨part, hpart, hsub⟩ := hrefined.unionOf (hmem fact hfact hne env henv)
  exact ⟨part, h.solved_iff.mpr hpart.ask,
    fun d hd => hall d (PowerSet.mem_union.mpr (.inr (hsub d hd)))⟩

/-- **The refinements of a solved query are solved, and their answers are part of
its own.** -/
theorem Reached.solved_of_refines (hrefines : config.Refines s.Has c) :
    ∃ part, s.Solved ⟨kind, c⟩ part ∧ ∀ d ∈ part, d ∈ set := by
  obtain ⟨index, function, outer, fact, env, hdrop, hfact, hne, henv, rfl⟩ := hrefines
  obtain ⟨entered, hentered, hrefined⟩ := h.solved_refinements hkind hset hdrop
  exact hrefined fact (hentered.has_iff.mp hfact) hne env henv

/-- So are the refinements of refinements, in whatever order contexts are
replaced. -/
lemma Reached.solved_of_refined
    (hchain : Relation.ReflTransGen (Config.Refines s.Has) config c) :
    ∃ part, s.Solved ⟨kind, c⟩ part ∧ ∀ d ∈ part, d ∈ set := by
  induction hchain with
  | refl => exact ⟨set, hset, fun _ hd => hd⟩
  | tail _ hrefines ih =>
    obtain ⟨part, hpart, hsub⟩ := ih
    obtain ⟨part', hpart', hsub'⟩ := h.solved_of_refines hkind hpart hrefines
    exact ⟨part', hpart', fun d hd => hsub d (hsub' d hd)⟩

lemma Reached.mem_of_refined
    (hchain : Relation.ReflTransGen (Config.Refines s.Has) config c) {d : Config}
    (hd : s.Has ⟨kind, c⟩ d) : d ∈ set := by
  obtain ⟨part, hpart, hsub⟩ := h.solved_of_refined hkind hset hchain
  exact hsub d (hpart.has_iff.mp hd)

end Refined

/-- **Answers for any caller cover the callers that are found.** A query that is
in the table and has not failed is solved. Let one of its contexts stand for any
caller of a function, with other contexts outside of it. Then the table has the
facts about how the function was entered there, and with the context replaced by
that of any such fact the query is solved too, by a part of its own answer. It
does not matter when the fact was found, and the same goes for all contexts that
are replaced one after the other. -/
theorem answers_cover_entered (h : Reached w asked s) {kind : QueryKind}
    (hkind : kind ≠ .entered) {cursor : Cursor} {env : Env}
    (htouched : s.solver.Touched ⟨kind, ⟨cursor, env⟩⟩)
    (hok : s.solver.failure ⟨kind, ⟨cursor, env⟩⟩ = none) :
    ∃ set, s.Solved ⟨kind, ⟨cursor, env⟩⟩ set ∧
      (∀ i function outer, env.toList.drop i = .question function :: outer.toList →
        ∃ entered, s.Solved ⟨.entered, .ofNode function outer⟩ entered ∧
          ∀ fact ∈ entered, fact.env.head ≠ .question function →
            ∃ env' part, env'.toList = env.toList.set i fact.env.head ∧
              s.Solved ⟨kind, ⟨cursor, env'⟩⟩ part ∧ ∀ d ∈ part, d ∈ set) ∧
      ∀ c, Relation.ReflTransGen (Config.Refines s.Has) ⟨cursor, env⟩ c →
        ∃ part, s.Solved ⟨kind, c⟩ part ∧ ∀ d ∈ part, d ∈ set := by
  have hset : s.Solved ⟨kind, ⟨cursor, env⟩⟩ _ :=
    h.solved_iff.mpr ⟨Solver.cached_of_touched h.sane.1 htouched, hok⟩
  refine ⟨_, hset, fun i function outer hdrop => ?_, fun c => h.solved_of_refined hkind hset⟩
  obtain ⟨entered, hentered, hrefined⟩ := h.solved_refinements hkind hset hdrop
  refine ⟨entered, hentered, fun fact hfact hne => ?_⟩
  have hlt : i < env.depth := by
    have hlen := congrArg List.length hdrop
    rw [List.length_drop, Env.length_toList, List.length_cons] at hlen
    omega
  obtain ⟨env', hreplace⟩ := Env.exists_replace? hlt fact.env.head
  obtain ⟨part, hpart, hsub⟩ := hrefined fact hfact hne env' hreplace
  exact ⟨env', part, (Env.replace?_eq_some_iff.mp hreplace).2, hpart, hsub⟩

def hiddenCall : Sources :=
  [("main", "function g(x) \x7b return x; \x7d\nfunction h(cb = 0) \x7b cb(1); \x7d\nh(g);")]

/-- When the parameter of `g` is asked for, no call of `g` is known and nothing is
found. The call that is evaluated next is one, and then its argument is part of
the answer. -/
theorem answers_cover_entered_hiddenCall :
    ∃ p s s' result set part, Program.build hiddenCall = .ok p ∧
      Reached ⟨p, .standard, 1, []⟩ [⟨.evaluate, .ofNode 2 (p.arena.openEnv 2)⟩] s ∧
      (s.solver.assignment ⟨.evaluate, .ofNode 2 (p.arena.openEnv 2)⟩).elems = [] ∧
      s.solve ⟨.evaluate, .ofNode 12 (p.arena.openEnv 12)⟩ = some (result, s') ∧
      s'.Solved ⟨.evaluate, .ofNode 2 (p.arena.openEnv 2)⟩ set ∧
      s'.Solved ⟨.evaluate, .ofNode 2 (Env.root.cons (.push 12 (.question 15) 1))⟩ part ∧
      .ofNode 11 (p.arena.openEnv 11) ∈ part ∧ ∀ d ∈ part, d ∈ set := by
  obtain ⟨p, s, hbuild, -, hs, hnone, ⟨result, s'⟩, hcall, hopen, hok, hfact, hargument⟩ :=
    exists_reached hiddenCall 1 (fun p => [⟨.evaluate, .ofNode 2 (p.arena.openEnv 2)⟩]) (fun p s =>
      (s.solver.assignment ⟨.evaluate, .ofNode 2 (p.arena.openEnv 2)⟩).elems = [] ∧
      ∃ answer ∈ s.solve ⟨.evaluate, .ofNode 12 (p.arena.openEnv 12)⟩,
        p.arena.openEnv 2 = Env.root.cons (.question 5) ∧
        (answer.2.solver.failure ⟨.evaluate, .ofNode 2 (p.arena.openEnv 2)⟩).isNone = true ∧
        .ofNode 5 (Env.root.cons (.push 12 (.question 15) 1)) ∈
          answer.2.solver.assignment ⟨.entered, .ofNode 5 .root⟩ ∧
        .ofNode 11 (p.arena.openEnv 11) ∈ answer.2.solver.assignment
          ⟨.evaluate, .ofNode 2 (Env.root.cons (.push 12 (.question 15) 1))⟩) (by decide +kernel)
  have hs' := hs.solve hcall
  obtain ⟨set, hset, hcover, -⟩ := answers_cover_entered hs' (by decide)
    (hs'.touched List.mem_cons_self) (Option.isNone_iff_eq_none.mp hok)
  obtain ⟨entered, hentered, hrefined⟩ := hcover 0 5 .root (by rw [hopen]; rfl)
  have hvalue := (Solver.touched_of_cached (hs'.solved_iff.mp hentered).1).2
  obtain ⟨env', part, henv', hpart, hsub⟩ := hrefined _ (hvalue ▸ hfact) (by decide)
  -- the environment of the refinement is the one that the call makes
  have henv : env' = Env.root.cons (.push 12 (.question 15) 1) := by
    rw [hopen] at henv'
    exact Option.some.inj (congrArg Env.ofList? henv')
  subst henv
  have hargument' := (Solver.touched_of_cached (hs'.solved_iff.mp hpart).1).2 ▸ hargument
  exact ⟨p, s, s', result, set, part, hbuild, hs, hnone, hcall, hset, hpart, hargument', hsub⟩

end Session

end ValueFlow
