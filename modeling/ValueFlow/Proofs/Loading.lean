import Mathlib.Data.List.Induction
import ValueFlow.Program

/-!
# Loading modules

A program is loaded one module at a time. `Codebase.load_concat_of_error` and
`Codebase.load_concat_of_ok` are that step, and `Codebase.Holds` says what a codebase
is that was loaded without an error: each of its modules was scanned and parsed, with
the table of names that the modules before it left behind.
-/

namespace ValueFlow

namespace Codebase

variable {sources : Sources} {path source : String} {c : Codebase}

/-- Loading one more module that cannot be added. -/
lemma load_concat_of_error {report : Report}
    (h : (load sources).2.addModule path source = (.error report, c)) :
    load (sources ++ [(path, source)]) = ((load sources).1 ++ [report], c) := by
  unfold load at h ⊢
  rw [List.foldl_append, List.foldl_cons, List.foldl_nil]
  dsimp only
  rw [h]

/-- Loading one more module that can be added. -/
lemma load_concat_of_ok (h : (load sources).2.addModule path source = (.ok (), c)) :
    load (sources ++ [(path, source)]) = ((load sources).1, c) := by
  unfold load at h ⊢
  rw [List.foldl_append, List.foldl_cons, List.foldl_nil]
  dsimp only
  rw [h]

/-- The codebase holds the modules with the given paths and sources, all of them
parsed. -/
inductive Holds : Sources → Codebase → Prop
  | empty : Holds [] .empty
  | add {sources : Sources} {c : Codebase} {path source : String}
      {tokens : Tokens} {names names' : Names} {tree : Tree} (h : Holds sources c)
      (hscan : scan source c.names = (.ok tokens, names))
      (hparse : parseModule source.utf8ByteSize tokens names = (.ok tree, names')) :
      Holds (sources ++ [(path, source)])
        ⟨c.arena.addModule path source tree, names',
          (Path.normalize path, c.arena.modules.size) :: c.paths⟩

lemma exists_of_addModule {c' : Codebase} (h : c.addModule path source = (.ok (), c')) :
    ∃ tokens names tree names', scan source c.names = (.ok tokens, names) ∧
      parseModule source.utf8ByteSize tokens names = (.ok tree, names') ∧
      c' = ⟨c.arena.addModule path source tree, names',
        (Path.normalize path, c.arena.modules.size) :: c.paths⟩ := by
  unfold addModule at h
  split at h
  · cases h
  · next hscan =>
    split at h
    · cases h
    · next hparse =>
      cases h
      exact ⟨_, _, _, _, hscan, hparse, rfl⟩

lemma holds_of_load (h : load sources = ([], c)) : Holds sources c := by
  induction sources using List.reverseRecOn generalizing c with
  | nil =>
    cases h
    exact .empty
  | append_singleton sources source ih =>
    obtain ⟨path, source⟩ := source
    generalize hadd : (load sources).2.addModule path source = added
    obtain ⟨result, c'⟩ := added
    cases result with
    | error report =>
      -- the report stays
      rw [load_concat_of_error hadd] at h
      exact absurd (Prod.mk.inj h).1 (List.append_ne_nil_of_right_ne_nil _ (List.cons_ne_nil _ _))
    | ok =>
      rw [load_concat_of_ok hadd] at h
      obtain ⟨hreports, rfl⟩ := Prod.mk.inj h
      obtain ⟨tokens, names, tree, names', hscan, hparse, rfl⟩ := exists_of_addModule hadd
      exact .add (ih (Prod.ext hreports rfl)) hscan hparse

end Codebase

lemma Program.holds_of_build {sources : Sources} {p : Program}
    (h : build sources = .ok p) : p.code.Holds sources := by
  unfold build at h
  split at h
  · next hload =>
    cases h
    exact Codebase.holds_of_load hload
  · cases h

end ValueFlow
