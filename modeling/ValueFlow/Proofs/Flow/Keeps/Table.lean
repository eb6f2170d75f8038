import ValueFlow.Proofs.Flow.Keeps

/-!
# Tables that keep to a terrain

On every terrain, a session that is only asked about what stands where it
belongs holds nothing else. The values of its evaluations satisfy every condition
that holds of the immediate values, and of an expression once it is held as a
value of its own.
-/

namespace ValueFlow

open Moment (resting)

namespace Terrain

variable {w : World} {G : Terrain w} {value : Config → Prop}

/-- An evaluation may hold values and the configuration it is about. A rule that
reads it can count on values. -/
def law (G : Terrain w) (value : Config → Prop) : Law Query ConfigSet AnalysisError Env :=
  let member (q : Query) (c : Config) : Prop :=
    G.Found q c ∧ (q.kind = .evaluate → value c ∨ c = q.config ∧ c.Stands w)
  { Law.ofMembers G.Asked member (fun _ => True) fun env => ∃ chain, G.fits chain env with
    given := fun q set => ∀ c ∈ set, G.Found q c ∧ (q.kind = .evaluate → value c) }

def scheme (G : Terrain w) (value : Config → Prop)
    (himmediate : ∀ c, c.Immediate w → value c) : Scheme w where
  toTerrain := G
  law := G.law value
  value := value
  immediate := himmediate
  asks _ h _ := h
  reads _ _ h := h
  names chain _ h := ⟨chain, h⟩
  enters f outer caller call env hf houter hcall hcaller := by
    refine ⟨fun c hc => ?_, fun c hc => ?_⟩
    · cases PowerSet.mem_singleton.mp hc
      exact ⟨(spot_of_call? hcaller).mpr hcall, nofun⟩
    · cases PowerSet.mem_singleton.mp hc
      refine ⟨fun g hg => ?_, nofun⟩
      cases hg
      exact (Body.enter hf houter hcall).fits
  missing _ _ := .inr fun _ _ => trivial
  ambiguous := .inr fun _ => trivial

lemma found_of_refines {facts : Query → Config → Prop} {kind : QueryKind} {config refined c : Config}
    (hrefines : config.Refines facts refined) (h : G.Found ⟨kind, refined⟩ c) :
    G.Found ⟨kind, config⟩ c := by
  cases kind with
  | entered =>
    intro f hf
    refine h f ?_
    rwa [Config.node?, hrefines.cursor_eq]
  | _ => exact h

lemma keeps_equation (himmediate : ∀ c, c.Immediate w → value c) {q : Query} (hq : G.Posed q) :
    (w.equation q).Keeps (G.law value) ((G.law value).held q) := by
  have hposed : (G.scheme value himmediate).Posed q := hq
  have hasked := asked_of_posed hposed
  have hsolve : Rule.Keeps (G.scheme value himmediate) (Rule.solve w.depthLimit q)
      ((G.law value).held q) := by
    refine Rule.keeps_solve hasked hasked (fun hanswerable => ?_) fun c hc set hset d hd => ?_
    · exact (Rule.keeps_answer hposed hanswerable).imp fun _ hset => hset.imp fun c hc =>
        ⟨hc.found, hc.value⟩
    · obtain ⟨hfound, hvalue⟩ := hset d hd
      exact ⟨found_of_refines hc hfound, fun hkind => .inl (hvalue hkind)⟩
  exact hsolve []

/-- **A session keeps to its terrain.** Let all that was asked belong there, and
let every traced configuration stand in its own place. Then all queries of the
table belong there, and so does all that is held, at every moment. -/
theorem kept_of_trail {asked : List Query}
    {m : Moment Query ConfigSet AnalysisError Diagnostic Env}
    (h : Trail w.equation (resting .empty) (asked.map .ask) m)
    (himmediate : ∀ c, c.Immediate w → value c)
    (hitself : ∀ c set, m.solver.Holds ⟨.evaluate, c⟩ set → c ∈ set → G.place c → c.Stands w →
      value c)
    (hposed : ∀ q, m.solver.Touched q → G.Asked q → G.Posed q)
    (hasked : ∀ q ∈ asked, G.Asked q) : m.solver.Kept (G.law value) := by
  refine Solver.kept_of_trail h (fun q hq htouched => keeps_equation himmediate (hposed q htouched hq))
    (fun q set hheld hholds c hc => ?_) (fun q hq => ?_) fun q set hq => ?_
  · obtain ⟨hfound, hvalue⟩ := hheld c hc
    refine ⟨hfound, fun hkind => ?_⟩
    obtain ⟨kind, config⟩ := q
    cases hkind
    obtain hvalue | ⟨rfl, hstands⟩ := hvalue rfl
    · exact hvalue
    · exact hitself c set hholds hc hfound hstands
  · obtain ⟨r, hr, heq⟩ := List.mem_map.mp hq
    cases heq
    exact hasked q hr
  · -- nothing was told from outside
    obtain ⟨r, -, heq⟩ := List.mem_map.mp hq
    cases heq

end Terrain

end ValueFlow
