import ValueFlow.Proofs.Flow.Refinement

/-!
# In hindsight

A table only grows, so whatever a rule has read at any time is part of the answer
that the session has in the end. A condition on the members of answers that refers
to the *final* answers can therefore be kept up from the first step on: it is enough
that every rule finds only what satisfies it, reading parts of the final answers.

This is how an answer is shown to hold nothing but what the final answers of other
queries account for. Right-hand sides need not be monotone for it.
-/

namespace ValueFlow

namespace Session

variable {w : World} {asked : List Query} {s : Session} {set : ConfigSet} {kind : QueryKind}
  {config : Config}

/-- Answers hold only members, except for those about how functions are entered, and there
are none for a query that cannot be answered. What is read of a query that has not failed
is also had in the end. -/
def hindsight (s : Session) (member : Query → Config → Prop) :
    Law Query ConfigSet AnalysisError Env :=
  let held (q : Query) (c : Config) : Prop :=
    q.Answerable s.world ∧ (q.kind ≠ .callers ∧ q.kind ≠ .entered → member q c)
  { Law.ofMembers (fun _ => True) held (fun _ => True) with
    given := fun q set => ∀ c ∈ set, held q c ∧ (s.solver.failure q = none → s.Has q c) }

/-- The law, with no condition on places. -/
def hindsightScheme (s : Session) (member : Query → Config → Prop)
    (hbuilt : s.world.program.Built) : Scheme s.world where
  toTerrain := .all hbuilt
  law := s.hindsight member
  value _ := True
  immediate _ _ := trivial
  asks _ _ _ := trivial
  reads q _ _ c _ := ⟨Terrain.found_all q c, fun _ => trivial⟩
  names _ _ _ := trivial
  enters _ _ _ _ _ _ _ _ _ :=
    ⟨fun _ _ => ⟨nofun, fun h => absurd rfl h.1⟩, fun _ _ => ⟨nofun, fun h => absurd rfl h.2⟩⟩
  missing _ _ := .inr fun _ _ => trivial
  ambiguous := .inr fun _ => trivial

/-- What a rule can be answered at some time. -/
def Early (s : Session) (member : Query → Config → Prop) : Rule.Request → Prop
  | .read q set => (s.hindsight member).given q set
  | _ => True

/-- Nothing fails when it is asked how a function was entered. -/
theorem Reached.failure_entered (h : Reached w asked s) (config : Config) :
    s.solver.failure ⟨.entered, config⟩ = none := by
  refine Solver.failure_eq_none_of_trail (fun q : Query => q.kind = .entered) (fun q hq => ?_)
    h.trail rfl
  obtain ⟨kind, config⟩ := q
  cases hq
  exact trivial

/-- **Answers satisfy in the end what their rules find.** Let every rule find only
members, reading parts of the final answers, and let what is a member for a
refinement be one for the configuration. Then the answers hold only members. -/
theorem Reached.in_hindsight (h : Reached w asked s) (hbuilt : w.program.Built)
    (member : Query → Config → Prop)
    (hown : ∀ q, s.solver.Touched q → ∀ own, Rule.Comes (s.Early member) ⟨w, []⟩
      (Rule.answer (Rule.meaning s.world.depthLimit) q.kind q.config) own → ∀ c ∈ own, member q c)
    (hrefined : ∀ kind config c, config.Refines s.Has c → ∀ d, member ⟨kind, c⟩ d →
      member ⟨kind, config⟩ d)
    (hkind : kind ≠ .callers ∧ kind ≠ .entered) (hset : s.Solved ⟨kind, config⟩ set) :
    ∀ c ∈ set, member ⟨kind, config⟩ c := by
  obtain rfl := h.world_eq
  have hkeeps : ∀ q, s.solver.Touched q →
      (s.world.equation q).Keeps (s.hindsight member) ((s.hindsight member).held q) := by
    intro q hq
    have hposed : (s.hindsightScheme member hbuilt).Posed q := Terrain.posed_all q
    refine Rule.keeps_solve_at (S := s.hindsightScheme member hbuilt)
      trivial (Terrain.asked_of_posed hposed) (fun hanswerable => ?_) fun c hc set hgiven d hd => ?_
    · refine (Rule.keeps_answer hposed hanswerable []).run.imp ?_
      rintro own ⟨es, hrun, hes⟩ c hc
      refine ⟨hanswerable, fun _ => hown q hq own ⟨es, hrun, fun e he => ?_⟩ c hc⟩
      cases e with
      | read q set => exact hes q set he
      | push | note | number => trivial
    · obtain ⟨⟨hanswerable, hmember⟩, -⟩ := hgiven d hd
      obtain ⟨index, function, outer, fact, env, hdrop, ⟨_, hfacts, hfact⟩, hne, henv, rfl⟩ := hc
      have hentered := (hfacts fact hfact).2 (h.failure_entered _)
      exact ⟨hanswerable, fun hkind => hrefined q.kind q.config _
        ⟨index, function, outer, fact, env, hdrop, hentered, hne, henv, rfl⟩ d (hmember hkind)⟩
  have hkept : s.solver.Kept (s.hindsight member) := by
    refine Solver.kept_of_trail h.trail (fun q _ => hkeeps q)
      (fun q v hheld hholds d hd => ⟨hheld d hd, fun hok => h.has_of_holds hok hholds hd⟩)
      (fun _ _ => trivial) fun q v hv => ?_
    -- nothing was told from outside
    obtain ⟨r, -, hrv⟩ := List.mem_map.mp hv
    cases hrv
  obtain ⟨i, cell, hi, hcell, rfl⟩ := Solver.exists_of_cached (h.solved_iff.mp hset).1
  exact fun c hc => ((hkept i _ cell hi hcell).2.1 c hc).2 hkind

/-- **Answers hold what their rules once found**, for the configuration or a refinement of
it, reading parts of the final answers. -/
theorem Reached.early_of_answer (h : Reached w asked s) (hbuilt : w.program.Built)
    (hkind : kind ≠ .callers ∧ kind ≠ .entered) (hset : s.Solved ⟨kind, config⟩ set) :
    ∀ c ∈ set, ∃ refined own, Relation.ReflTransGen (Config.Refines s.Has) config refined ∧
      Rule.Comes (s.Early fun _ _ => True) ⟨w, []⟩
        (Rule.answer (Rule.meaning s.world.depthLimit) kind refined) own ∧ c ∈ own := by
  refine h.in_hindsight hbuilt (fun q c => ∃ refined own,
    Relation.ReflTransGen (Config.Refines s.Has) q.config refined ∧
      Rule.Comes (s.Early fun _ _ => True) ⟨w, []⟩
        (Rule.answer (Rule.meaning s.world.depthLimit) q.kind refined) own ∧ c ∈ own) ?_ ?_ hkind hset
  · rintro q - own ⟨es, hrun, hes⟩ c hc
    refine ⟨q.config, own, .refl, ⟨es, hrun, fun e he => ?_⟩, hc⟩
    have hearly := hes e he
    cases e with
    | read q set => exact fun c hc => ⟨⟨(hearly c hc).1.1, fun _ => trivial⟩, (hearly c hc).2⟩
    | push | note | number => trivial
  · rintro kind config c hrefines d ⟨refined, own, hchain, hown, hd⟩
    exact ⟨refined, own, .head hrefines hchain, hown, hd⟩

def Once (s : Session) : Rule.Request → Prop
  | .read q set => ∀ c ∈ set, s.Has q c
  | _ => True

/-- Where all that can be answered is, all that was read is had in the end. -/
theorem Reached.once_of_answer (hw : w.Sound) (h : Reached w asked s)
    (hkind : kind ≠ .callers ∧ kind ≠ .entered) (hset : s.Solved ⟨kind, config⟩ set) :
    ∀ c ∈ set, ∃ refined own, Relation.ReflTransGen (Config.Refines s.Has) config refined ∧
      Rule.Comes s.Once ⟨w, []⟩ (Rule.answer (Rule.meaning s.world.depthLimit) kind refined) own ∧
      c ∈ own := by
  intro c hc
  obtain ⟨refined, own, hchain, ⟨es, hrun, hes⟩, hc⟩ := h.early_of_answer hw.built hkind hset c hc
  refine ⟨refined, own, hchain, ⟨es, hrun, fun e he => ?_⟩, hc⟩
  have hearly := hes e he
  cases e with
  | read q set =>
    intro c hc
    obtain ⟨⟨hanswerable, -⟩, hhas⟩ := hearly c hc
    rw [h.world_eq] at hanswerable
    exact hhas (hw.failure_eq_none h.trail hanswerable)
  | push | note | number => trivial

end Session

end ValueFlow
