import ValueFlow.Flow.System
import ValueFlow.Proofs.Scope.Symbols

/-!
# Inside a program

Whatever one node of a built program leads to is a node of the program again:
its parts and the node around it, the references of a name and the roots of
modules. No number ever leads out of the arena.
-/

namespace ValueFlow

def PatternStep.Leads (p : NodeId → Prop) : PatternStep → Prop
  | .default value => p value
  | .property _ | .index _ | .rest => True

namespace Arena

variable {a : Arena}

lemma lt_size_of_isFunction {f : NodeId} (h : a.isFunction f = true) : f < a.size :=
  lt_size_of_form fun hform => by simp [isFunction, hform, Form.isFunction] at h

namespace Forest

variable (h : Forest a)
include h

lemma lt_size_of_part {n c : NodeId} (hc : c ∈ (a.form n).children) : c < a.size :=
  Nat.lt_trans (h.lower hc) (lt_size_of_mem hc)

lemma lt_size_of_parent {n p : NodeId} (hp : a.parent? n = some p) : p < a.size :=
  lt_size_of_mem (h.parent.mp hp)

end Forest

end Arena

/-! ## Names and modules -/

namespace Program.Built

variable {p : Program} (h : p.Built) {id : DeclId}
include h

lemma lt_of_symbolAt {n : NodeId} (hn : p.scopes.symbolAt n = some id) :
    id < p.scopes.decls.size := by
  rw [h.resolved] at hn ⊢
  exact Scopes.lt_of_symbolAt hn

lemma lt_of_binding (hid : id < p.scopes.decls.size) :
    (p.scopes.decl id).binding < p.arena.size := by
  rw [h.resolved] at hid ⊢
  exact Arena.lt_size_of_binding (Scopes.introduced_of_lt hid).2

lemma isSome_symbolAt_binding (hid : id < p.scopes.decls.size) :
    (p.scopes.symbolAt (p.scopes.decl id).binding).isSome = true := by
  rw [h.resolved] at hid ⊢
  exact Scopes.isSome_symbolAt_binding hid

lemma exists_introduction (hid : id < p.scopes.decls.size) :
    ∃ n, ((p.scopes.decl id).binding, (p.scopes.decl id).kind, (p.scopes.decl id).scope) ∈
      p.arena.introductions n := by
  rw [h.resolved] at hid ⊢
  obtain ⟨hintro, -⟩ := Scopes.introduced_of_lt hid
  obtain ⟨_, -, hmodule⟩ := List.mem_flatMap.mp hintro
  obtain ⟨n, -, hn⟩ := List.mem_flatMap.mp hmodule
  exact ⟨n, hn⟩

lemma declaresAt_root (hid : id < p.scopes.decls.size) :
    ∃ parent, p.arena.parent? (p.arena.patternRoot (p.scopes.decl id).binding).1 = some parent ∧
      p.arena.DeclaresAt (p.arena.patternRoot (p.scopes.decl id).binding).1 parent := by
  obtain ⟨n, hn⟩ := h.exists_introduction hid
  exact Arena.declaresAt_patternRoot h.parsed.forest h.parsed.tidy hn

lemma lt_of_mem_referencesOf {reference : NodeId}
    (hreference : reference ∈ p.scopes.referencesOf id) : reference < p.arena.size := by
  rw [h.resolved] at hreference
  exact (Scopes.mem_referencesOf.mp hreference).1

lemma inside_importTarget (id : DeclId) :
    (p.scopes.importTarget id).Inside p.code p.scopes.decls := by
  rw [h.resolved]
  exact Scopes.inside_importTarget h.parsed id

lemma inside_exportTarget (names : Names) (module : ModuleId) (name : String) :
    (p.scopes.exportTarget names module name).Inside p.code p.scopes.decls := by
  rw [h.resolved]
  exact Scopes.inside_exportTarget h.parsed names module name

lemma root_spec {m : ModuleId} (hm : m < p.arena.modules.size) :
    (p.arena.modules.getD m default).root < p.arena.size ∧
      p.arena.parent? (p.arena.modules.getD m default).root = none ∧
      ∃ body, p.arena.form (p.arena.modules.getD m default).root = .module body := by
  have hget := Array.getElem?_eq_getElem hm
  rw [Array.getD_eq_getD_getElem?, hget]
  exact h.parsed.rooted m _ hget

end Program.Built

end ValueFlow
