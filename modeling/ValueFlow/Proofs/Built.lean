import ValueFlow.Proofs.Grammar.Runs.Statements
import ValueFlow.Proofs.Grammar.Shapes
import ValueFlow.Proofs.Loading

/-!
# Built programs

What every program that `Program.build` gives is known to be: its arena is a
forest of tidy constructs, one module construct for each module, its nodes are
read from the tokens of the modules, and its names are resolved.
-/

namespace ValueFlow

open Relation (ReflTransGen)

/-! ## Tokens of other tables -/

section Alike

variable {tokens tokens' : Tokens} {names names' : Names}
  (hitems : List.Forall₂ (Token.Alike names names') tokens.items tokens'.items)
  (hfinish : tokens.finish.Alike names names' tokens'.finish)
include hitems hfinish

lemma Tokens.token_alike (i : Nat) : (tokens.token i).Alike names names' (tokens'.token i) := by
  unfold token
  generalize tokens.items = ts, tokens'.items = ts' at hitems
  induction hitems generalizing i with
  | nil => exact hfinish
  | cons ht _ ih =>
    cases i with
    | zero => exact ht
    | succ i => exact ih i

lemma Grammar.ModuleReads.of_alike {length : Nat} {t : Tree}
    (h : Grammar.ModuleReads tokens length t) : Grammar.ModuleReads tokens' length t := by
  have htoken := Tokens.token_alike hitems hfinish
  have hspan : tokens.span = tokens'.span := by
    funext k l
    rw [Tokens.span, Tokens.span, (htoken k).line, (htoken k).start, (htoken k).stop,
      (htoken (l - 1)).stop]
  have hfree : tokens.AfterDefault = tokens'.AfterDefault := by
    have hword : ∀ i word, (tokens.token i).value = .keyword word ↔
        (tokens'.token i).value = .keyword word := fun i _ => (htoken i).like.eq_iff rfl
    funext k
    simp only [Tokens.AfterDefault, hword]
  have hcount : tokens.count = tokens'.count := hitems.length_eq
  unfold Grammar.ModuleReads Tree.AllRead Tree.Reads Tree.ReadsFrom at h ⊢
  rwa [hspan, hfree, hcount, (htoken 0).line] at h

end Alike

/-! ## Nodes that are read -/

def Arena.Every (P : Form Unit → List (Form Unit) → Prop) (a : Arena) : Prop :=
  ∀ n < a.size, P (a.form n).shape ((a.children n).map fun c => (a.form c).shape)

abbrev Arena.ReadsFrom (a : Arena) (tokens : Tokens) : Role → Option Nat → Nat → Nat → NodeId → Prop :=
  MadeOf a.form (fun n => (a.node n).span) tokens.span tokens.AfterDefault

lemma Tree.Copied.reads {a : Arena} {home : ModuleId} {tokens : Tokens} {role : Role}
    {early : Option Nat} {i j : Nat} {t : Tree} {n : NodeId} (h : t.Copied a.nodes home n)
    (hread : t.ReadsFrom tokens role early i j) : a.ReadsFrom tokens role early i j n := by
  induction t using induction_on_parts generalizing role early i j n with
  | whole t ih =>
    obtain ⟨-, -, hspan', hshape, hcopies⟩ := h
    obtain ⟨him, hkm, hstart, hml, hlj, hspan, hroles, hname, hparts⟩ := hread
    have hform : (a.form n).shape = t.form.shape := hshape
    rw [← Form.roles_shape, ← hform, Form.roles_shape] at hroles
    rw [← Form.lead_shape, ← hform, Form.lead_shape] at hname hparts
    rw [← Form.isProperty_shape, ← hform, Form.isProperty_shape] at hparts
    refine .whole him hkm hstart hml hlj (hspan'.trans hspan) hroles hname ?_
    exact hparts.relate (List.forall₂_same.mpr fun _ _ => Eq.refl _) hcopies
      fun hrole _ _ hu hcopy _ _ hread => hrole ▸ ih _ hu hcopy hread

namespace Codebase

variable {sources : Sources} {c : Codebase}

lemma Holds.modules_size (h : c.Holds sources) : c.arena.modules.size = sources.length := by
  induction h with
  | empty => rfl
  | @add sources c path source tokens names names' tree _ _ _ ih =>
    obtain ⟨rows, root, -, -, hmodules, -⟩ := Arena.addModule_spec c.arena path source tree
    rw [hmodules, Array.size_push, List.length_append, ih]
    rfl

/-- Every module is the copy of a tree that is read from its source. -/
lemma Holds.grown (h : c.Holds sources) : c.arena.Grown fun m module t =>
    ∃ path source tokens names, sources[m]? = some (path, source) ∧
      module.lines = Lines.ofText source ∧ scan source Numbering.empty = (.ok tokens, names) ∧
      Grammar.ModuleReads tokens source.utf8ByteSize t := by
  induction h with
  | empty => exact Arena.grown_empty
  | @add sources c path source tokens names names' tree h hscan hparse ih =>
    refine Arena.Grown.addModule (fun m module hm => ?_) path source tree fun root => ?_
    · obtain ⟨t, ⟨path', source', tokens', names'', hsource, hrest⟩, hcopied⟩ := ih m module hm
      refine ⟨t, ⟨path', source', tokens', names'', ?_, hrest⟩, hcopied⟩
      rw [List.getElem?_append_left (List.getElem?_eq_some_iff.mp hsource).1, hsource]
    · obtain ⟨tokens', later, hscan', halike, hfinish⟩ := scan_of_scan hscan Numbering.empty
      have hends := (tiles_of_scan hscan).finish.1
      refine ⟨path, source, tokens', later, ?_, rfl, hscan', ?_⟩
      · rw [h.modules_size, List.getElem?_concat_length]
      · refine Grammar.ModuleReads.of_alike halike ?_
          (reads_of_parseModule hends (named_of_scan hscan) hparse)
        rw [← hfinish]
        exact ⟨hends ▸ .endOfFile, rfl, rfl, rfl, rfl⟩

lemma Holds.read (h : c.Holds sources) {m : Nat} {module : SourceModule}
    (hm : c.arena.modules[m]? = some module) : ∃ path source tokens names body,
      sources[m]? = some (path, source) ∧ module.lines = Lines.ofText source ∧
      scan source Numbering.empty = (.ok tokens, names) ∧
      (c.arena.node module.root).span = ⟨(tokens.token 0).line, 0, source.utf8ByteSize⟩ ∧
      c.arena.form module.root = .module body ∧
      InRoles (c.arena.ReadsFrom tokens) 0 tokens.count none (body.map fun _ => .statement)
        body := by
  obtain ⟨_, ⟨path, source, tokens, names, hsource, hlines, hscan, body, rfl, hbody⟩, hcopied⟩ :=
    h.grown m module hm
  obtain ⟨-, -, hspan, hshape, hcopies⟩ := hcopied
  have hform : (c.arena.form module.root).shape = (Form.module body).shape := hshape
  obtain ⟨parts, hparts⟩ := Arena.exists_module_of_shape hform
  refine ⟨path, source, tokens, names, parts, hsource, hlines, hscan, hspan, hparts, ?_⟩
  have hroles := congrArg (Form.roles .module) hform
  rw [Form.roles_shape, Form.roles_shape, hparts] at hroles
  have hchildren : c.arena.children module.root = parts := congrArg Form.children hparts
  rw [← hchildren]
  exact hbody.parts.relate (ρ := Eq) (by rw [List.forall₂_eq_eq_eq, hchildren]; exact
    (Option.some.inj hroles).symm) hcopies fun hrole _ _ _ hcopy _ _ hread => hrole ▸ hcopy.reads hread

structure Parsed (c : Codebase) : Prop where
  forest  : c.arena.Forest
  rooted  : c.arena.Rooted
  covered : c.arena.Covered
  fits    : ∀ r, c.arena.IsRoot r → Fits c.arena.form .module r
  located : ∀ path m, (path, m) ∈ c.paths → m < c.arena.modules.size

/-- By induction over the modules that were loaded. -/
lemma Holds.parsed (h : c.Holds sources) : c.Parsed := by
  have hgrown := h.grown
  obtain ⟨hforest, hrooted, hcovered, hlocated⟩ : c.arena.Forest ∧ c.arena.Rooted ∧
      c.arena.Covered ∧ ∀ path m, (path, m) ∈ c.paths → m < c.arena.modules.size := by
    clear hgrown
    induction h with
    | empty =>
      refine ⟨Arena.forest_empty, Arena.rooted_empty, Arena.covered_empty, fun _ _ h => ?_⟩
      cases h
    | @add sources c path source tokens names names' tree h hscan hparse ih =>
      obtain ⟨hforest, hrooted, hcovered, hlocated⟩ := ih
      obtain ⟨body, hbody, -⟩ :=
        reads_of_parseModule (tiles_of_scan hscan).finish.1 (named_of_scan hscan) hparse
      have hmodule : tree.form = .module body := by rw [hbody]; rfl
      refine ⟨hforest.addModule path source tree, hrooted.addModule hmodule path source,
        hcovered.addModule path source tree, fun other m hm => ?_⟩
      -- the new module is the last one
      obtain ⟨rows, root, -, -, hmodules, -⟩ := Arena.addModule_spec c.arena path source tree
      rw [hmodules, Array.size_push]
      obtain heq | hm := List.mem_cons.mp hm
      · rw [(Prod.mk.inj heq).2]
        exact Nat.lt_succ_self _
      · exact Nat.lt_succ_of_lt (hlocated other m hm)
  refine ⟨hforest, hrooted, hcovered, ?_, hlocated⟩
  rintro _ ⟨module, hmodule, rfl⟩
  obtain ⟨m, hm⟩ := Array.mem_iff_getElem?.mp hmodule
  obtain ⟨_, _, _, _, body, -, -, -, -, hform, hread⟩ := h.read hm
  have hfits := MadeOf.fits_parts hread
  rw [show body = (c.arena.form module.root).children by rw [hform]; rfl] at hfits
  exact .whole (by rw [hform]; rfl) hfits

namespace Parsed

variable (h : c.Parsed)
include h

lemma exists_fits {n : NodeId} (hn : n < c.arena.size) : ∃ role, Fits c.arena.form role n := by
  obtain ⟨r, hr, hbelow⟩ := h.forest.exists_root h.covered hn
  induction hbelow with
  | refl => exact ⟨.module, h.fits r hr⟩
  | tail _ hpart ih =>
    obtain ⟨_, -, hparts⟩ := ih (Arena.lt_size_of_mem hpart)
    obtain ⟨role, -, hfits⟩ := exists_mem_of_forall₂ hparts hpart
    exact ⟨role, hfits⟩

lemma tidy : c.arena.Every Form.Tidy := fun _ hn =>
  let ⟨_, hfits⟩ := h.exists_fits hn
  hfits.tidy

end Parsed

end Codebase

namespace Program

variable {sources : Sources} {p : Program}

/-- A program with resolved names over parsed modules. -/
structure Built (p : Program) : Prop where
  parsed   : p.code.Parsed
  resolved : p.scopes = .ofCodebase p.code

lemma built_of_build (h : build sources = .ok p) : p.Built := by
  refine ⟨(holds_of_build h).parsed, ?_⟩
  unfold build at h
  split at h
  · cases h
    rfl
  · cases h

/-- A test that the program passes, which shows that there is one. -/
lemma exists_of_test (sources : Sources) (test : Program → Prop)
    [DecidablePred test] (h : (build sources).toOption.any (fun p => decide (test p)) = true) :
    ∃ p, build sources = .ok p ∧ test p := by
  cases hbuild : build sources with
  | error reports =>
    rw [hbuild] at h
    exact nomatch h
  | ok p =>
    rw [hbuild] at h
    exact ⟨p, rfl, of_decide_eq_true h⟩

/-- A test, with what holds of every program that passes it. -/
lemma exists_of_test_and {test P : Program → Prop} [DecidablePred test]
    (h : (build sources).toOption.any (fun p => decide (test p)) = true)
    (hP : ∀ {p}, build sources = .ok p → test p → P p) :
    ∃ p, build sources = .ok p ∧ test p ∧ P p :=
  (exists_of_test sources test h).imp fun _ h => ⟨h.1, h.2, hP h.1 h.2⟩

end Program

end ValueFlow
