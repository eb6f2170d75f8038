import ValueFlow.Listing
import ValueFlow.Proofs.Grammar.Runs.Statements
import ValueFlow.Proofs.Loading

/-!
# Modules that are rejected

A module that cannot be scanned or parsed is reported once, and the others are not
reported at all. Modules share a table of names, also after one of them was rejected, but
the table decides nothing: a module is rejected after other modules if it is on its own.
-/

namespace ValueFlow

/-- Whether a source can be scanned and parsed, with no names known before. -/
def parses (source : String) : Bool :=
  match scan source Numbering.empty with
  | (.ok tokens, names) => (parseModule source.utf8ByteSize tokens names).1.isOk
  | (.error _, _) => false

def rejected (sources : Sources) : Sources :=
  sources.filter fun module => !parses module.2

example : rejected [("a.ts", "let x = ;"), ("b.ts", "f(1);"), ("c.ts", "'")] =
    [("a.ts", "let x = ;"), ("c.ts", "'")] := by
  decide +kernel

/-- Brackets make `in` an operator in the head of a `for` statement, but those of an optional
index do not. -/
theorem optional_index_unsheltered :
    parses "let x = a?.[b in c];" ∧ ¬ parses "for (let x = a?.[b in c]; ; ) ;" := by
  decide +kernel

/-- The report says why the source cannot be scanned or parsed, and the fault is not
the parser's own. -/
inductive Blames (source : String) : Report → Prop
  | scanning {names names' : Names} {e : ScanError} (h : scan source names = (.error e, names')) :
      Blames source e.report
  | parsing {names names' names'' : Names} {tokens : Tokens} {e : ParseError}
      (hscan : scan source names = (.ok tokens, names'))
      (hparse : parseModule source.utf8ByteSize tokens names' = (.error e, names''))
      (hissue : e.issue.isInternal = false) : Blames source e.report

lemma Blames.severity {source : String} {report : Report} (h : Blames source report) :
    report.severity = .error := by
  cases h with
  | scanning | parsing => rfl

/-! ## One module -/

namespace Codebase

/-- A module is added if it can be parsed on its own. -/
lemma isOk_addModule (c : Codebase) (path source : String) :
    (c.addModule path source).1.isOk = parses source := by
  unfold addModule parses
  generalize hscan : scan source c.names = scanned
  obtain ⟨result, names⟩ := scanned
  cases result with
  | error e =>
    -- if it could be scanned with no names known, it could be with those at hand
    generalize halone : scan source Numbering.empty = alone
    obtain ⟨result, names'⟩ := alone
    cases result with
    | error => rfl
    | ok tokens =>
      obtain ⟨_, _, hboth, -⟩ := scan_of_scan halone c.names
      rw [hscan] at hboth
      cases hboth
  | ok tokens =>
    obtain ⟨tokens', names', halone, hitems, hfinish⟩ := scan_of_scan hscan Numbering.empty
    have hvalue := (tiles_of_scan hscan).finish.1
    have hend : tokens.finish.Alike names names' tokens'.finish := by
      rw [← hfinish]
      refine ⟨?_, rfl, rfl, rfl, rfl⟩
      rw [hvalue]
      exact .endOfFile
    rw [halone]
    refine Eq.trans ?_ (isOk_parseModule_of_alike hvalue hitems hend)
    dsimp only
    generalize parseModule source.utf8ByteSize tokens names = parsed
    obtain ⟨result, names''⟩ := parsed
    cases result with
    | error | ok => rfl

lemma blames_of_addModule {c c' : Codebase} {path source : String} {report : Report}
    (h : c.addModule path source = (.error report, c')) : Blames source report := by
  unfold addModule at h
  split at h
  · next hscan =>
    cases h
    exact .scanning hscan
  · next hscan =>
    split at h
    · next hparse =>
      cases h
      exact .parsing hscan hparse
        (isInternal_of_parseModule (tiles_of_scan hscan).finish.1 (named_of_scan hscan) hparse)
    · cases h

/-! ## All modules -/

lemma blames_load (sources : Sources) :
    List.Forall₂ (fun module report => Blames module.2 report) (rejected sources)
      (load sources).1 := by
  induction sources using List.reverseRecOn with
  | nil => exact .nil
  | append_singleton sources module ih =>
    obtain ⟨path, source⟩ := module
    have hparses := isOk_addModule (load sources).2 path source
    generalize hadd : (load sources).2.addModule path source = added at hparses
    obtain ⟨result, c⟩ := added
    rw [rejected, List.filter_append]
    cases result with
    | error report =>
      rw [load_concat_of_error hadd, List.filter_cons_of_pos (by rw [← hparses]; rfl)]
      exact List.rel_append ih (.cons (blames_of_addModule hadd) .nil)
    | ok =>
      rw [load_concat_of_ok hadd,
        List.filter_cons_of_neg (by rw [← hparses]; exact Bool.false_ne_true)]
      rwa [List.filter_nil, List.append_nil]

end Codebase

/-! ## Reports -/

lemma Emitter.counts_report {reports : List Report} (h : ∀ r ∈ reports, r.severity = .error)
    (e : Emitter) :
    (reports.foldl report e).errors = e.errors + reports.length ∧
      (reports.foldl report e).warnings = e.warnings := by
  induction reports generalizing e with
  | nil => exact ⟨rfl, rfl⟩
  | cons r reports ih =>
    obtain ⟨hr, hreports⟩ := List.forall_mem_cons.mp h
    obtain ⟨herrors, hwarnings⟩ := ih hreports (e.report r)
    have hone : (e.report r).errors = e.errors + 1 ∧ (e.report r).warnings = e.warnings := by
      unfold report
      rw [hr]
      exact ⟨rfl, rfl⟩
    rw [List.foldl_cons, herrors, hwarnings, hone.1, hone.2, List.length_cons]
    exact ⟨by omega, rfl⟩

namespace Program

def reports : Except (List Report) Program → List Report
  | .error reports => reports
  | .ok _ => []

lemma reports_eq_load (sources : Sources) :
    reports (build sources) = (Codebase.load sources).1 ∧
      ((∃ p, build sources = .ok p) ↔ (Codebase.load sources).1 = []) := by
  unfold build
  generalize Codebase.load sources = loaded
  obtain ⟨reports, c⟩ := loaded
  cases reports with
  | nil => exact ⟨rfl, fun _ => rfl, fun _ => ⟨_, rfl⟩⟩
  | cons report reports =>
    refine ⟨rfl, ?_, fun h => ?_⟩
    · rintro ⟨p, hp⟩
      cases hp
    · cases h

/-- Nothing but the reports comes of modules that make no program. -/
lemma run_of_not_built {sources : Sources} (h : ¬ ∃ p, build sources = .ok p)
    (o : Options) (e : Emitter) :
    Listing.run sources o e = some (false, (reports (build sources)).foldl Emitter.report e) := by
  unfold Listing.run
  generalize build sources = built at h
  cases built with
  | error reports => rfl
  | ok p => exact absurd ⟨p, rfl⟩ h

/-- **One report for each module that is rejected.** There is one error for each module that
cannot be parsed, in the order of the modules, which is no fault of the parser's own, and
there is no other report. There is a program if and only if no error is counted, and
nothing but the reports is written if there is none. Whether a module is added does not
depend on the modules that were loaded before it. -/
theorem build_reports_rejected (sources : Sources) (sink : Sink) :
    let e := (reports (build sources)).foldl Emitter.report (.fresh sink)
    List.Forall₂ (fun module report => Blames module.2 report) (rejected sources)
        (reports (build sources)) ∧
      e.errors = (rejected sources).length ∧ e.warnings = 0 ∧
      ((∃ p, build sources = .ok p) ↔ e.errors = 0) ∧
      (∀ o, (∃ p, build sources = .ok p) ∨
        Listing.run sources o (.fresh sink) = some (false, e)) ∧
      ∀ path source, ((Codebase.load sources).2.addModule path source).1.isOk = parses source := by
  intro e
  obtain ⟨hreports, hbuilt⟩ := reports_eq_load sources
  have heach := Codebase.blames_load sources
  rw [← hreports] at heach hbuilt
  have hseverity : ∀ r ∈ reports (build sources), r.severity = .error :=
    forall_mem_of_forall₂ heach fun _ _ h => h.severity
  obtain ⟨herrors, hwarnings⟩ := Emitter.counts_report hseverity (.fresh sink)
  have hcount : e.errors = (reports (build sources)).length := by
    rw [herrors]
    exact Nat.zero_add _
  refine ⟨heach, hcount.trans heach.length_eq.symm, hwarnings, ?_, fun o => ?_, ?_⟩
  · rw [hbuilt, hcount, List.length_eq_zero_iff]
  · exact Classical.or_iff_not_imp_left.mpr fun h => run_of_not_built h o (.fresh sink)
  · exact fun path source => Codebase.isOk_addModule _ path source

end Program

end ValueFlow
