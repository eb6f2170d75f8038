import ValueFlow.Proofs.Flow.Keeps.Table
import ValueFlow.Proofs.Flow.Refinement

/-!
# Values

An evaluation ends at expressions that are values of their own. A value that is
read from another evaluation is handed on as it is, and every new one is the
expression that the rule is about. So names, choices, elements and all else that
stands for values never is one; and every value was found by its own evaluation
first, which has it still.
-/

namespace ValueFlow

open Moment (resting)

/-- The configuration is a value: an expression that is a value of its own, an
undeclared name that the catalogue knows, arguments seen as an array, or what
comes from outside. The names and the outside are at module level. -/
def Config.Normal (w : World) (c : Config) : Prop :=
  match c.cursor with
  | .node n => (w.program.arena.form n).isValue = true ∨ w.IsGlobal n ∧ c.env = .root
  | .arguments _ _ => True
  | .pick _ _ => False
  | .external => c.env = .root

namespace Terrain

variable {w : World}

/-- All environments, with the outside at module level. -/
def anchored (hbuilt : w.program.Built) : Terrain w where
  built := hbuilt
  node _ := True
  fits chain env := chain = none → env = .root
  near _ _ := True
  inside _ _ := trivial
  root := nofun
  outside _ := rfl
  nested _ _ _ := trivial
  fit _ _ _ _ _ _ _ := nofun
  enter _ _ _ _ _ _ _ _ := nofun
  leave _ _ _ _ := nofun
  unknown _ _ _ _ _ _ _ := ⟨trivial, nofun⟩
  refined chain env index f outer body env' h hdrop _ _ hchain := by
    rw [h hchain] at hdrop
    exact absurd hdrop (Env.drop_root_ne index f outer.toList)
  tail _ _ _ _ _ _ _ _ _ := nofun
  thrown _ _ _ _ _ _ _ _ _ _ _ _ := nofun

variable {hbuilt : w.program.Built}

lemma eq_external_of_none {a : Arena} {cursor : Cursor}
    (h : cursor.around? a = none ∨ cursor.within? a = none) : cursor = .external := by
  cases cursor with
  | external => rfl
  | _ => obtain h | h := h <;> cases h

lemma spot_anchored {c : Config} (h : c.cursor = .external → c.env = .root) :
    (anchored hbuilt).spot c :=
  ⟨fun _ _ => trivial, fun hnone => h (eq_external_of_none (.inl hnone))⟩

lemma asked_anchored {q : Query} (h : q.config.cursor = .external → q.config.env = .root) :
    (anchored hbuilt).Asked q := by
  have hspot : (anchored hbuilt).spot q.config := spot_anchored h
  obtain ⟨kind, config⟩ := q
  cases kind with
  | evaluate => exact origin_of_spot hspot
  | traced => exact .inl hspot
  | callers => exact ⟨fun _ _ => trivial, fun hnone => h (eq_external_of_none (.inr hnone))⟩
  | applied | bind | entered => exact hspot

lemma posed_anchored {q : Query} (h : (anchored hbuilt).Asked q) : (anchored hbuilt).Posed q := by
  obtain ⟨kind, config⟩ := q
  cases kind with
  | traced =>
    refine ⟨?_, fun _ _ _ _ _ _ _ _ _ _ _ => trivial⟩
    obtain h | ⟨n, -, rfl⟩ := h
    · exact h
    · exact spot_ofNode.mpr ⟨trivial, nofun⟩
  | _ => exact h

end Terrain

namespace Config.Normal

variable {w : World} {c : Config}

lemma of_immediate (h : c.Immediate w) : c.Normal w := by
  obtain ⟨cursor, env⟩ := c
  obtain ⟨hroot, hvalue⟩ := h
  cases cursor with
  | node n =>
    obtain hglobal | ⟨body, hform⟩ := hvalue
    · exact .inr ⟨hglobal, hroot⟩
    · refine .inl ?_
      rw [hform]
      rfl
  | arguments call position => trivial
  | pick n position => exact hvalue
  | external => exact hroot

lemma of_stands {hbuilt : w.program.Built} (hplace : (Terrain.anchored hbuilt).place c)
    (h : c.Stands w) : c.Normal w := by
  obtain ⟨cursor, env⟩ := c
  cases cursor with
  | node n => exact .inl h
  | arguments call position => trivial
  | pick n position => exact h
  | external =>
    obtain hspot | ⟨n, -, heq⟩ := hplace
    · exact hspot.fits rfl
    · cases heq

end Config.Normal

namespace Session

variable {asked : List Query} {s : Session} {w : World} {n : NodeId}

/-! ## Normal forms -/

/-- **Evaluations hold values only.** Take any session that was only asked, and
where the outside was asked about at module level only; and any moment of it,
also one at which evaluations are under way. Then every member of every
evaluation in the table is an expression of a form that is a value, arguments, an
undeclared global name or the outside; never the element of a pattern, a binding
or a name with a declaration, and no expression that takes its values from
others. -/
theorem values_normal {sources : Sources} {p : Program}
    (hbuild : Program.build sources = .ok p) {catalogue : Catalogue} {bound : Nat}
    {targets : List NodeId} (h : Reached ⟨p, catalogue, bound, targets⟩ asked s)
    {more : List Query} {m : Moment Query ConfigSet AnalysisError Diagnostic Env}
    (hm     : Trail (World.equation ⟨p, catalogue, bound, targets⟩) (resting s.solver)
      (more.map .ask) m)
    (hasked : ∀ q ∈ asked ++ more, q.config.cursor = .external → q.config.env = .root)
    {config : Config} {set : ConfigSet}
    (hset   : m.solver.cached ⟨.evaluate, config⟩ = some set) :
    ∀ c ∈ set, c.Normal ⟨p, catalogue, bound, targets⟩ := by
  have hbuilt : World.program ⟨p, catalogue, bound, targets⟩ |>.Built :=
    Program.built_of_build hbuild
  have htrail := h.trail.trans hm
  rw [← List.map_append] at htrail
  have hkept := Terrain.kept_of_trail (G := .anchored hbuilt) htrail
    (fun c hc => Config.Normal.of_immediate hc) (fun c _ _ _ hplace hstands => .of_stands hplace hstands)
    (fun q _ hq => Terrain.posed_anchored hq) fun q hq => Terrain.asked_anchored (hasked q hq)
  obtain ⟨i, cell, hi, hcell, rfl⟩ := Solver.exists_of_cached hset
  intro c hc
  obtain ⟨hplace, hvalue⟩ := (hkept i _ cell hi hcell).2.1 c hc
  obtain hvalue | ⟨-, hstands⟩ := hvalue rfl
  · exact hvalue
  · exact .of_stands hplace hstands

def restOrGlobal : Sources :=
  [("main", "function f(...rest) { return rest.length ? rest : Math; }\nf(1) || [2].map(f);")]

lemma solve_restOrGlobal :
    ∃ p set t, Program.build restOrGlobal = .ok p ∧
      (start ⟨p, .standard, 1, []⟩).solve ⟨.evaluate, .ofNode 19 .root⟩ = some (.ok set, t) ∧
      set.size = 3 := by
  obtain ⟨p, hbuild, ⟨result, t⟩, hsolve, set, hset, hsize⟩ :=
    Program.exists_of_test restOrGlobal (fun p =>
      ∃ a ∈ (start ⟨p, .standard, 1, []⟩).solve ⟨.evaluate, .ofNode 19 .root⟩,
        ∃ set ∈ a.1.toOption, set.size = 3) (by decide +kernel)
  cases result with
  | error e => cases hset
  | ok _ =>
    cases hset
    exact ⟨p, set, t, hbuild, hsolve, hsize⟩

theorem values_normal_restOrGlobal :
    ∃ p s set, Program.build restOrGlobal = .ok p ∧
      Reached ⟨p, .standard, 1, []⟩ [⟨.evaluate, .ofNode 19 .root⟩] s ∧
      s.solver.cached ⟨.evaluate, .ofNode 19 .root⟩ = some set ∧ set.size = 3 ∧
      ∀ c ∈ set, c.Normal ⟨p, .standard, 1, []⟩ := by
  obtain ⟨p, set, s, hbuild, hsolve, hsize⟩ := solve_restOrGlobal
  have hs : Reached ⟨p, .standard, 1, []⟩ [⟨.evaluate, .ofNode 19 .root⟩] s :=
    (Reached.start _).solve hsolve
  obtain ⟨hset, -⟩ := hs.solved_iff.mp ((Reached.start _).solve_again hsolve)
  have hrest : Trail (World.equation ⟨p, .standard, 1, []⟩) (resting s.solver)
      (([] : List Query).map .ask) (resting s.solver) := .rest
  refine ⟨p, s, set, hbuild, hs, hset, hsize, values_normal hbuild hs hrest (fun q hq => ?_) hset⟩
  cases List.mem_singleton.mp hq
  exact nofun

/-! ## Values evaluate to themselves -/

/-- What a rule comes to without a request. -/
lemma run_bind {α β : Type} {r : Rule α} {f : α → Rule β} {setting : Setting} {a : α} {b : β}
    (h : r setting = .done a) (hf : f a setting = .done b) : (r >>= f) setting = .done b :=
  (Rule.run_then h).trans hf

lemma run_globalName? (h : w.IsGlobal n) (visiting : List Visit) :
    ∃ text, Rule.globalName? n ⟨w, visiting⟩ = .done (some text) := by
  obtain ⟨name, hform, hsymbol, hglobal⟩ := h
  refine ⟨w.program.text name, run_bind rfl ?_⟩
  simp only [hform]
  refine run_bind rfl ?_
  simp only [hsymbol]
  refine run_bind rfl (run_bind rfl ?_)
  rw [if_pos hglobal]
  rfl

lemma run_nameValues (h : w.IsGlobal n) (env : Env) (visiting : List Visit) :
    Rule.nameValues n env ⟨w, visiting⟩ = .done (.ofNode n .root) := by
  obtain ⟨text, htext⟩ := run_globalName? h visiting
  obtain ⟨name, -, hsymbol, -⟩ := h
  refine run_bind rfl ?_
  simp only [hsymbol]
  exact run_bind htext rfl

/-- The rule of an immediate value asks for nothing. -/
lemma equation_of_immediate {v : Config} (hv : v.Immediate w) :
    w.equation ⟨.evaluate, v⟩ = .done (.singleton v ∪ .empty) := by
  suffices hrule : Rule.evaluate (Rule.meaning w.depthLimit) v ⟨w, []⟩ = .done (.singleton v) by
    refine run_bind hrule ?_
    obtain ⟨cursor, env⟩ := v
    cases hv.1
    rfl
  obtain ⟨cursor, env⟩ := v
  obtain ⟨rfl, hvalue⟩ := hv
  cases cursor with
  | node n =>
    refine run_bind rfl ?_
    obtain hglobal | ⟨body, hform⟩ := hvalue
    · have hnames := run_nameValues hglobal .root []
      obtain ⟨name, hform, -⟩ := hglobal
      simp only [hform]
      exact hnames
    · simp only [hform]
      rfl
  | arguments | pick => exact hvalue.elim
  | external => rfl

section SelfEvaluation

variable {w : World}

/-- An immediate value can be asked for in every settled session, and is found. -/
lemma Reached.solve_immediate (hw : w.Sound) (h : Reached w asked s) {v : Config}
    (hv : v.Immediate w) : ∃ set t, s.solve ⟨.evaluate, v⟩ = some (.ok set, t) ∧ v ∈ set := by
  have hequation := equation_of_immediate hv
  obtain ⟨result, solver, hvalue⟩ := Solver.valueOf_of_done h.sane.1 h.settled hequation
  have hsolve : s.solve ⟨.evaluate, v⟩ = some (result, ⟨s.world, solver⟩) := by
    rw [solve_eq_some, h.world_eq]
    exact ⟨hvalue, rfl⟩
  have ht := h.solve hsolve
  have hsolved := ht.solved_assignment hw (List.mem_append_right _ (.head _)) nofun
  have hagain := h.solve_again hsolve
  rw [show _ = _ from hsolved] at hagain
  cases hagain
  refine ⟨_, _, hsolve, ?_⟩
  obtain ⟨part, ⟨es, hrun, -⟩, hpart⟩ := ht.comes_solve (fun _ => ht.failure_eq_none hw) hsolved
  change (w.equation ⟨.evaluate, v⟩).Run es (.done part) at hrun
  rw [hequation] at hrun
  cases hrun
  exact hpart v (PowerSet.mem_union.mpr (.inl (PowerSet.mem_singleton.mpr rfl)))

/-- An evaluation of a session that was only asked holds immediate values, values
that their own evaluations have, and the configuration it is about. -/
lemma Reached.self_of_evaluate (hw : w.Sound) (h : Reached w asked s) {config v : Config}
    (hv : s.Has ⟨.evaluate, config⟩ v) : s.Has ⟨.evaluate, v⟩ v ∨ v.Immediate w := by
  have hok (c : Config) : s.solver.failure ⟨.evaluate, c⟩ = none := h.failure_eq_none hw nofun
  have hkept : s.solver.Kept ((Terrain.all hw.built).law fun v =>
      s.Has ⟨.evaluate, v⟩ v ∨ v.Immediate w) :=
    Terrain.kept_of_trail h.trail (fun _ => .inr)
      (fun c _ hholds hc _ _ => .inl (h.has_of_holds (hok c) hholds hc))
      (fun q _ _ => Terrain.posed_all q) fun q _ => Terrain.asked_of_posed (Terrain.posed_all q)
  obtain ⟨set, hset, hmem⟩ := hv
  obtain ⟨i, cell, hi, hcell, rfl⟩ := Solver.exists_of_cached (h.solved_iff.mp hset).1
  obtain hvalue | ⟨rfl, -⟩ := ((hkept i _ cell hi hcell).2.1 v hmem).2 rfl
  · exact hvalue
  · exact .inl ⟨_, hset, hmem⟩

end SelfEvaluation

/-- **A value evaluates to itself.** Whatever a session was asked before, if an
evaluation answers a value, then asking for the values of that value returns, and
the value is among them. -/
theorem value_self_evaluating {sources : Sources} {p : Program}
    (hbuild : Program.build sources = .ok p) {bound : Nat} {targets : List NodeId}
    (h      : Reached ⟨p, .standard, bound, targets⟩ asked s) {config : Config} {set : ConfigSet}
    {t : Session} (hsolve : s.solve ⟨.evaluate, config⟩ = some (.ok set, t)) {v : Config}
    (hv     : v ∈ set) : ∃ set' u, t.solve ⟨.evaluate, v⟩ = some (.ok set', u) ∧ v ∈ set' := by
  have hw : World.Sound ⟨p, .standard, bound, targets⟩ := .of_build hbuild
  have ht := h.solve hsolve
  obtain ⟨set', hset', hmem⟩ | hv := ht.self_of_evaluate hw ⟨set, h.solve_again hsolve, hv⟩
  · exact ⟨set', t, hset', hmem⟩
  · exact ht.solve_immediate hw hv

theorem value_self_evaluating_restOrGlobal :
    ∃ p set t, Program.build restOrGlobal = .ok p ∧
      (start ⟨p, .standard, 1, []⟩).solve ⟨.evaluate, .ofNode 19 .root⟩ = some (.ok set, t) ∧
      set.size = 3 ∧ ∀ v ∈ set, ∃ set' u, t.solve ⟨.evaluate, v⟩ = some (.ok set', u) ∧ v ∈ set' := by
  obtain ⟨p, set, t, hbuild, hsolve, hsize⟩ := solve_restOrGlobal
  exact ⟨p, set, t, hbuild, hsolve, hsize,
    fun v hv => value_self_evaluating hbuild (.start _) hsolve hv⟩

end Session

end ValueFlow
