import ValueFlow.Proofs.Equations.Reports
import ValueFlow.Proofs.Flow.Settled

/-!
# Diagnostics of a session

A session reports constructs that it has no rule for. A value that is still
incomplete when it is first read can look like one: a method that no kind found
so far has, an access to what has no elements yet. Such a report is dropped when
the value has grown and the query is evaluated again. What is left at the end are
the reports of the final table, neither more nor less.
-/

namespace ValueFlow

open Moment (resting)

namespace Session

/-- The sessions on a world whose reports were never taken: queries were asked,
facts were told and environments were named, in any order. -/
inductive Undrained (w : World) : Session → Prop
  | start : Undrained w (start w)
  | known {s : Session} (h : Undrained w s) (env : Env) : Undrained w (s.known env)
  | tell {s : Session} (h : Undrained w s) (q : Query) (facts : ConfigSet) :
      Undrained w (s.tell q facts).2
  | solve {s t : Session} {q : Query} {result : Except AnalysisError ConfigSet}
      (h : Undrained w s) (hsolve : s.solve q = some (result, t)) : Undrained w t

variable {w : World} {s t : Session} {q : Query} {result : Except AnalysisError ConfigSet}

lemma Undrained.world_eq (h : Undrained w s) : s.world = w := by
  induction h with
  | start => rfl
  | known _ _ ih | tell _ _ _ ih => exact ih
  | solve _ hsolve ih => exact (solve_eq_some.mp hsolve).2.trans ih

/-- Every query is justified, by a run with the reports on record. -/
lemma Undrained.filed (h : Undrained w s) :
    Solver.SaneWith Solver.Filed w.equation (resting s.solver) := by
  have hname : ∀ {s : FlowSolver} (env : Env),
      Solver.SaneWith Solver.Filed w.equation (resting s) →
      Solver.SaneWith Solver.Filed w.equation (resting (s.numberThing env).2) := fun env hs =>
    have hquiet := Solver.quiet_numberThing _ env
    Solver.sane_evolves hs (hquiet.coherent hs.1) (hquiet.evolves hs.1) fun _ _ h => h
  induction h with
  | start => exact hname Env.root Solver.sane_empty
  | known _ env ih => exact hname env ih
  | tell _ q facts ih =>
    obtain ⟨ht, hst, -⟩ := Solver.pushFact_spec ih.1 q facts
    exact Solver.sane_evolves ih ht hst fun j _ hes =>
      (Solver.record_pushFact ih.1 q facts j).symm ▸ hes
  | solve hs hsolve ih =>
    obtain ⟨hvalue, -⟩ := solve_eq_some.mp hsolve
    rw [hs.world_eq] at hvalue
    exact Solver.filed_valueOf ih hvalue

/-- **Diagnostics describe the final state.** Let a session whose reports were
never taken answer a query, and let no query have failed. Then every touched
query can be evaluated once more on the table as it stands, and the diagnostics
are, each once, exactly what these evaluations report. -/
theorem diagnostics_describe_final_table (h : Undrained w s)
    (hsolve : s.solve q = some (result, t)) (hok : ∀ q, t.solver.failure q = none) :
    t.takeDiagnostics.1.Nodup ∧
      (∀ q, t.solver.Touched q →
        ∃ set, ((w.equation q).replay t.solver.answer t.solver.numberOf).2 = .value set) ∧
      ∀ n, n ∈ t.takeDiagnostics.1 ↔
        ∃ q, t.solver.Touched q ∧
          .note n ∈ ((w.equation q).replay t.solver.answer t.solver.numberOf).1 := by
  have hfiled := (h.solve hsolve).filed
  obtain ⟨hvalue, -⟩ := solve_eq_some.mp hsolve
  obtain ⟨u, hdrain, hrest⟩ := Option.bind_eq_some_iff.mp hvalue
  cases hrest
  have hempty := Solver.toList_of_drain hdrain
  refine ⟨nodup_firstOccurrences _, fun q hq => ?_, fun n => ?_⟩
  · obtain ⟨j, hj⟩ := hq
    exact (Solver.filed_replay hfiled hempty hj (hok q)).1
  · exact Solver.mem_reports_of_replay hfiled hempty hok

/-- A method call on what is a promise or an array. The promise is found first, and
it has no method `map`. -/
def mixedReceiver : Sources :=
  [("main", "const a = [];\n(0 ? \x7b slice: async () => 0 \x7d : a).slice().map(~1);")]

theorem diagnostics_describe_final_table_mixedReceiver :
    ∃ p s t result, Program.build mixedReceiver = .ok p ∧ Undrained ⟨p, .standard, 1, []⟩ s ∧
      s.solve ⟨.evaluate, .ofNode 15 .root⟩ = some (result, t) ∧
      (∀ q, t.solver.failure q = none) ∧
      t.takeDiagnostics.1 = [⟨2, "~1", "Bitwise operators are not modeled."⟩] ∧
      t.takeDiagnostics.1.Nodup ∧
      (∀ q, t.solver.Touched q → ∃ set, ((World.equation ⟨p, .standard, 1, []⟩ q).replay
        t.solver.answer t.solver.numberOf).2 = .value set) ∧
      ∀ n, n ∈ t.takeDiagnostics.1 ↔ ∃ q, t.solver.Touched q ∧
        .note n ∈ ((World.equation ⟨p, .standard, 1, []⟩ q).replay
          t.solver.answer t.solver.numberOf).1 := by
  -- the report of an unknown method is there from the 18th to the 21st step of the first query
  obtain ⟨p, hbuild, ⟨_, s⟩, hfirst, ⟨result, t⟩, hlast, hreports, hfailures⟩ :=
    Program.exists_of_test mixedReceiver (fun p =>
      ∃ first ∈ (start ⟨p, .standard, 1, []⟩).solve ⟨.evaluate, .ofNode 16 .root⟩,
      ∃ last ∈ first.2.solve ⟨.evaluate, .ofNode 15 .root⟩,
        last.2.takeDiagnostics.1 = [⟨2, "~1", "Bitwise operators are not modeled."⟩] ∧
        last.2.solver.queries.toList.all (fun q => (last.2.solver.failure q).isNone) = true)
      (by decide +kernel)
  have hs : Undrained ⟨p, .standard, 1, []⟩ s := Undrained.start.solve hfirst
  have hok := Solver.failure_eq_none_of_all hfailures
  exact ⟨p, s, t, result, hbuild, hs, hlast, hok, hreports,
    diagnostics_describe_final_table hs hlast hok⟩

end Session

end ValueFlow
