import ValueFlow.Proofs.Catalogue
import ValueFlow.Proofs.Equations.NoFailure
import ValueFlow.Proofs.Flow.Comparison.Questions

/-!
# What the rules keep to

Whatever holds of all nodes of the program, and of environments as they are
made, holds of everything that is ever asked. A scheme is a terrain with a law of
the table that goes with it, and a condition on values: a rule that evaluates
finds only what other evaluations have found, the expression it is about, and a
few values that are what they are (`Config.Immediate`).

That a rule keeps to a scheme is a comparison of the rule with itself
(`Scheme.comparison`), so all rules do.
-/

namespace ValueFlow

structure World.Sound (w : World) : Prop where
  built : w.program.Built
  unambiguous : ∀ shape, (w.catalogue.lookup shape).length ≤ 1

lemma World.Sound.of_build {sources : Sources} {p : Program} {bound : Nat}
    {targets : List NodeId} (h : Program.build sources = .ok p) :
    World.Sound ⟨p, .standard, bound, targets⟩ :=
  ⟨Program.built_of_build h, Catalogue.length_lookup_standard⟩

/-- A terrain, with a law of the table that says no less than that. -/
structure Scheme (w : World) extends Terrain w where
  law : Law Query ConfigSet AnalysisError Env
  value : Config → Prop
  immediate : ∀ c, c.Immediate w → value c
  asks : ∀ q, toTerrain.Asked q → q.Answerable w → law.query q
  reads : ∀ q set, law.given q set → ∀ c ∈ set, toTerrain.Found q c ∧ (q.kind = .evaluate → value c)
  names : ∀ chain env, fits chain env → law.thing env
  enters : ∀ f outer caller call env, w.program.arena.isFunction f = true →
    toTerrain.At f outer → toTerrain.At call env → caller.call? = some call →
    law.held ⟨.callers, .ofNode f (outer.cons (.push call env.head w.bound))⟩
        (.singleton ⟨caller, env⟩) ∧
      law.held ⟨.entered, .ofNode f outer⟩ (.ofNode f (outer.cons (.push call env.head w.bound)))
  missing : ∀ q, law.query q →
    q.Answerable w ∨ ∀ line label, law.error (.missingDeclaration line label)
  ambiguous : (∀ shape, (w.catalogue.lookup shape).length ≤ 1) ∨ ∀ e, law.error e

namespace Scheme

variable {w : World} (S : Scheme w)

/-- What the scheme can count on finding in an answer. -/
def fact (q : Query) (c : Config) : Prop := ∃ set, S.law.given q set ∧ c ∈ set

/-- Keeping to the scheme, as a comparison of the rules with themselves. -/
def comparison : Comparison w where
  toTerrain := S.toTerrain
  same := True
  Holds R _ p := p.Keeps S.law fun a => R a a
  value := S.value
  fact := S.fact
  immediate := S.immediate
  reads := fun ⟨set, hgiven, hc⟩ => S.reads _ set hgiven _ hc
  mono h hR := h.imp fun a => hR a a
  done _ h := h
  bind h hf := Rhs.keeps_bind h fun a ha => hf a a ha
  read h hanswerable :=
    ⟨S.asks _ h hanswerable, fun set hset => .refl fun _ hc => ⟨set, hset, hc⟩⟩
  note _ := rfl
  number h := ⟨S.names _ _ h, fun _ _ => rfl⟩
  enters f outer caller call env hf houter hcall hcaller := by
    obtain ⟨hcallers, hentered⟩ := S.enters f outer caller call env hf houter hcall hcaller
    exact ⟨S.asks _ (S.body_ofNode.mpr (Terrain.Body.enter hf houter hcall)) nofun, hcallers,
      S.asks _ (S.spot_ofNode.mpr houter) nofun, hentered, rfl⟩
  ambiguous := S.ambiguous.imp_right fun herror _ _ e => herror e
  report h := absurd trivial h
  void h := absurd trivial h
  order h := absurd trivial h
  gather h := absurd trivial h

end Scheme

namespace Rule

variable {w : World} {S : Scheme w} {α : Type} {p : Config → Prop} {r : Rule α} {post : α → Prop}
  {depth : Nat} {query : Query}

def Keeps (S : Scheme w) (r : Rule α) (post : α → Prop) : Prop :=
  ∀ visiting, (r ⟨w, visiting⟩).Keeps S.law post

lemma Keeps.imp {post' : α → Prop} (hr : Keeps S r post) (h : ∀ a, post a → post' a) :
    Keeps S r post' :=
  fun visiting => (hr visiting).imp h

lemma Compares.keeps {γ δ : Type} [Membership δ γ] {p : δ → Prop} {r r' : Rule γ}
    (h : Compares S.comparison (Below S.comparison.same p) r r') :
    Keeps S r' fun found => ∀ c ∈ found, p c :=
  fun visiting => Rhs.Keeps.imp (h visiting) fun _ => Below.all

@[simp] lemma keeps_bind_scopes {f : Scopes → Rule α} :
    Keeps S (scopes >>= f) post ↔ Keeps S (f w.program.scopes) post :=
  .rfl

/-! ## All rules -/

lemma Performs.of_scheme (S : Scheme w) (depth : Nat) :
    Performs S.comparison (meaning depth) (meaning depth) := by
  induction depth with
  | zero => exact .of_trivial (fun _ _ => .inl trivial) fun _ _ _ _ => trivial
  | succ depth ih => exact ih.deeper trivial

lemma keeps_answer (hquery : S.Posed query) (hanswerable : query.Answerable w) :
    Keeps S (answer (meaning depth) query.kind query.config)
      (ConfigSet.All (S.comparison.Answers query)) := by
  have hp := Performs.of_scheme S depth
  refine (compares_answer hp hquery hanswerable fun n callee arguments _ _ hform hsite => ?_).keeps
  have hcallee : S.At callee query.config.env := hsite.1.part hform (.head _) rfl
  refine compares_newValues hp hsite ((compares_values hcallee).mono fun _ _ h => ?_)
  rw [h.eq trivial]

/-- A name without declaration is an error, and nothing comes after it. -/
lemma keeps_answer_of_unanswerable (hquery : S.law.query query) (h : ¬ query.Answerable w) :
    Keeps S (answer (meaning depth) query.kind query.config) fun _ => False := by
  have herror := (S.missing query hquery).resolve_left h
  obtain ⟨hkind, n, hn, hsymbol⟩ := Query.not_answerable.mp h
  rw [hkind]
  change Keeps S (Rule.bind _ query.config) _
  unfold Rule.bind
  simp only [hn, keeps_bind_scopes, hsymbol]
  exact fun _ => herror _ _

/-- The whole right-hand side, with anything that its own rule and the answers
for refinements satisfy. -/
lemma keeps_solve_at {visiting : List Visit} (hquery : S.law.query query) (hasked : S.Asked query)
    (hown : query.Answerable w → (answer (meaning depth) query.kind query.config
      ⟨w, visiting⟩).Keeps S.law (ConfigSet.All p))
    (hrefined : ∀ c, query.config.Refines S.fact c → ∀ set, S.law.given ⟨query.kind, c⟩ set →
      set.All p) : (solve depth query ⟨w, visiting⟩).Keeps S.law (ConfigSet.All p) := by
  by_cases hanswerable : query.Answerable w
  · have hsolve := compares_solve (C := S.comparison) (p := p) hasked
      ((hown hanswerable).imp fun _ => .refl) fun c hc => ?_
    · exact Rhs.Keeps.imp hsolve fun _ => Below.all
    · have hasked := S.comparison.asked_of_refines hasked hc
      exact fun _ => ⟨S.asks _ hasked (hanswerable.of_refines hc),
        fun set hset => .refl (hrefined c hc set hset)⟩
  · exact Rhs.keeps_bind (keeps_answer_of_unanswerable hquery hanswerable visiting)
      fun _ h => h.elim

lemma keeps_solve (hquery : S.law.query query) (hasked : S.Asked query)
    (hown : query.Answerable w →
      Keeps S (answer (meaning depth) query.kind query.config) (ConfigSet.All p))
    (hrefined : ∀ c, query.config.Refines S.fact c → ∀ set, S.law.given ⟨query.kind, c⟩ set →
      set.All p) : Keeps S (solve depth query) (ConfigSet.All p) :=
  fun visiting => keeps_solve_at hquery hasked (fun h => hown h visiting) hrefined

end Rule

/-! ## Answerable queries -/

namespace World.Sound

open Moment (resting)

variable {w : World}

def scheme (hw : w.Sound) : Scheme w where
  toTerrain := .all hw.built
  law := .ofMembers (Query.Answerable w) (fun _ _ => True) fun _ => False
  value _ := True
  immediate _ _ := trivial
  asks _ _ h := h
  reads q _ _ c _ := ⟨Terrain.found_all q c, fun _ => trivial⟩
  names _ _ _ := trivial
  enters _ _ _ _ _ _ _ _ _ := ⟨fun _ _ => trivial, fun _ _ => trivial⟩
  missing _ h := .inl h
  ambiguous := .inl hw.unambiguous

lemma failure_eq_none (hw : w.Sound) {calls : List (Call Query ConfigSet)}
    {m : Moment Query ConfigSet AnalysisError Diagnostic Env}
    (h : Trail w.equation (resting .empty) calls m) {q : Query} (hq : q.Answerable w) :
    m.solver.failure q = none := by
  refine Solver.failure_eq_none_of_trail (Query.Answerable w) (fun q hq => ?_) h hq
  have hposed : hw.scheme.Posed q := Terrain.posed_all q
  have hsolve : Rule.Keeps hw.scheme (Rule.solve w.depthLimit q) (ConfigSet.All fun _ => True) :=
    Rule.keeps_solve hq (hw.scheme.asked_of_posed hposed)
      (fun hanswerable => (Rule.keeps_answer hposed hanswerable).imp fun _ _ _ _ => trivial)
      fun _ _ _ _ _ _ => trivial
  exact (hsolve []).safe (fun _ _ _ _ => trivial) fun _ => id

end World.Sound

end ValueFlow
