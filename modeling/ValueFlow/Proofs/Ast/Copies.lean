import Mathlib.Logic.Relation
import ValueFlow.Proofs.Ast.Forest

/-!
# Trees in the arena

Adding a module to an arena copies its tree: the node of the whole has the
construct of the whole, and its parts are nodes that are the parts of the tree
in the same way, down to the leaves (`Arena.copied_addModule`). So what a parser
says about a tree holds of the nodes of the program.

Nothing else is added: every node is part of another one or the root of a module
(`Arena.Covered`).
-/

namespace ValueFlow

open Arena
open Relation (ReflTransGen)

lemma exists_mem_of_forall₂ {α β : Type} {R : β → α → Prop} {ys : List β} {xs : List α}
    (h : List.Forall₂ R ys xs) {x : α} (hx : x ∈ xs) : ∃ y ∈ ys, R y x := by
  induction h with
  | nil => cases hx
  | cons hR _ ih =>
    rcases List.mem_cons.mp hx with rfl | hx
    · exact ⟨_, List.mem_cons_self, hR⟩
    · obtain ⟨y, hy, hR⟩ := ih hx
      exact ⟨y, List.mem_cons_of_mem _ hy, hR⟩

inductive Tree.Copied (nodes : Array Node) (home : ModuleId) : Tree → NodeId → Prop
  | whole {t : Tree} {n : NodeId} (hn : n < nodes.size) (hhome : (row nodes n).home = home)
      (hspan : (row nodes n).span = t.span) (hshape : (row nodes n).form.shape = t.form.shape)
      (hparts : List.Forall₂ (Copied nodes home) t.form.children (row nodes n).form.children) :
      Copied nodes home t n

namespace Tree

variable {nodes nodes' : Array Node} {home : ModuleId} {n : NodeId}

/-- A copy stays one when rows are appended and linked. -/
lemma Copied.mono (hsize : nodes.size ≤ nodes'.size)
    (hkept : ∀ {β : Type} (view : Node → β),
      (∀ node n part, view (Node.adopt node n part) = view part) →
      ∀ n < nodes.size, view (row nodes' n) = view (row nodes n)) {t : Tree}
    (h : t.Copied nodes home n) : t.Copied nodes' home n := by
  induction t using induction_on_parts generalizing n with
  | whole t ih =>
    obtain ⟨hn, hhome, hspan, hshape, hparts⟩ := h
    have hform := hkept Node.form (fun _ _ _ => rfl) n hn
    refine .whole (Nat.lt_of_lt_of_le hn hsize) ?_ ?_ (hform ▸ hshape) ?_
    · exact (hkept Node.home (fun _ _ _ => rfl) n hn).trans hhome
    · exact (hkept Node.span (fun _ _ _ => rfl) n hn).trans hspan
    · have hboth := (List.forall₂_and_left _ _).mpr
        ⟨fun u (hu : u ∈ t.form.children) => @ih u hu, hparts⟩
      exact hform ▸ hboth.imp fun u c h => h.1 h.2

lemma Copied.append {t : Tree} (h : t.Copied nodes home n) (rows : List Node) :
    t.Copied (nodes ++ rows.toArray) home n :=
  h.mono (by simp) fun view _ n hn => congrArg view (row_append_left hn)

lemma copied_foldList {ts : List Tree}
    (h : ∀ t ∈ ts, ∀ nodes, t.Copied (foldM (appendNode home) t nodes).2 home
      (foldM (appendNode home) t nodes).1) (nodes : Array Node) :
    List.Forall₂ (Copied (foldList (appendNode home) ts nodes).2 home) ts
      (foldList (appendNode home) ts nodes).1 := by
  induction ts generalizing nodes with
  | nil => exact .nil
  | cons t ts ih =>
    obtain ⟨ht, hts⟩ := List.forall_mem_cons.mp h
    rw [foldList_cons]
    refine .cons ?_ (ih hts _)
    -- the rows of the other trees come behind those of the first one
    have hrows : ∀ t ∈ ts, ∀ nodes, _ := fun t _ => foldM_appendNode home t
    obtain ⟨rows, roots, hfold, -⟩ := foldList_appendNode hrows (foldM (appendNode home) t nodes).2
    rw [hfold]
    exact (ht nodes).append rows

lemma copied_foldM (home : ModuleId) (t : Tree) (nodes : Array Node) :
    t.Copied (foldM (appendNode home) t nodes).2 home (foldM (appendNode home) t nodes).1 := by
  induction t using induction_on_parts generalizing nodes with
  | whole t ih =>
    obtain ⟨span, form⟩ := t
    have hparts := copied_foldList ih nodes
    rw [show (node span form).form = form from rfl, foldList_children] at hparts
    have hshape := shape_foldForm (appendNode home) form nodes
    -- the construct gets the row behind those of its parts
    have hfold : foldM (appendNode home) (node span form) nodes =
        appendNode home span (foldForm (appendNode home) form nodes).1
          (foldForm (appendNode home) form nodes).2 := rfl
    rw [hfold]
    generalize foldForm (appendNode home) form nodes = folded at hparts hshape
    obtain ⟨form', parts⟩ := folded
    have hlast : row (parts.push ⟨form', home, span, none, none, 0⟩) parts.size =
        ⟨form', home, span, none, none, 0⟩ := by
      simp [row]
    have hparts' : List.Forall₂ (Copied (parts.push ⟨form', home, span, none, none, 0⟩) home)
        form.children form'.children :=
      hparts.imp fun u c hu => by simpa using hu.append [⟨form', home, span, none, none, 0⟩]
    rw [appendNode]
    refine .whole (by simp) ?_ ?_ ?_ ?_ <;> rw [hlast]
    · rfl
    · exact hshape
    · exact hparts'

end Tree

namespace Arena

variable {a : Arena} {P : ModuleId → SourceModule → Tree → Prop}

def Part (a : Arena) (whole part : NodeId) : Prop := part ∈ a.children whole

def IsRoot (a : Arena) (n : NodeId) : Prop := ∃ source ∈ a.modules, source.root = n

/-- What is below a copy is one. -/
lemma exists_copied_of_below {home : ModuleId} {t : Tree} {r n : NodeId}
    (h : t.Copied a.nodes home r) (hn : ReflTransGen a.Part r n) :
    ∃ u : Tree, u.Copied a.nodes home n := by
  induction hn with
  | refl => exact ⟨t, h⟩
  | tail _ hpart ih =>
    obtain ⟨_, -, -, -, -, hparts⟩ := ih
    obtain ⟨u, -, hu⟩ := exists_mem_of_forall₂ hparts hpart
    exact ⟨u, hu⟩

/-- Every module is the copy of a tree of which `P` holds. -/
def Grown (a : Arena) (P : ModuleId → SourceModule → Tree → Prop) : Prop :=
  ∀ (m : Nat) (source : SourceModule), a.modules[m]? = some source →
    ∃ t, P m source t ∧ t.Copied a.nodes m source.root

lemma grown_empty : empty.Grown P := by
  intro m source h
  simp [empty] at h

/-- **The tree of a module that is added is copied.** -/
theorem copied_addModule (a : Arena) (path source : String) (t : Tree) :
    ∃ root, (a.addModule path source t).modules =
        a.modules.push ⟨path, Lines.ofText source, root⟩ ∧
      t.Copied (a.addModule path source t).nodes a.modules.size root := by
  obtain ⟨rows, root, -, hlinked, hmodules, -, hfold⟩ := addModule_spec a path source t
  have hcopied := Tree.copied_foldM a.modules.size t a.nodes
  rw [hfold] at hcopied
  exact ⟨root, hmodules, hcopied.mono (Nat.le_of_eq hlinked.size.symm)
    fun view hview n _ => hlinked.view view hview n⟩

lemma Grown.addModule (h : a.Grown P)
    (path source : String) (t : Tree)
    (ht : ∀ root, P a.modules.size ⟨path, Lines.ofText source, root⟩ t) :
    (a.addModule path source t).Grown P := by
  obtain ⟨root, hmodules, hcopied⟩ := copied_addModule a path source t
  obtain ⟨rows, _, hlaid, hlinked, -⟩ := addModule_spec a path source t
  intro m module hm
  rw [hmodules, Array.getElem?_push] at hm
  split at hm
  · next hindex =>
    cases hm
    exact ⟨t, hindex ▸ ht root, hindex ▸ hcopied⟩
  · obtain ⟨u, hu, hcopied⟩ := h m module hm
    refine ⟨u, hu, hcopied.mono ?_ fun view _ n hn => ?_⟩
    · rw [hlinked.size, Array.size_append]
      exact Nat.le_add_right _ _
    · exact congrArg view (node_of_lt hlaid hlinked hn)

/-! ## Roots -/

/-- Every module starts at a module construct with nothing around it. -/
def Rooted (a : Arena) : Prop :=
  ∀ (m : Nat) (source : SourceModule), a.modules[m]? = some source →
    source.root < a.size ∧ a.parent? source.root = none ∧ ∃ body, a.form source.root = .module body

lemma rooted_empty : Rooted empty := by
  intro m source h
  simp [empty] at h

lemma exists_module_of_shape {body : List Tree} {form : Form NodeId}
    (h : form.shape = (Form.module body).shape) : ∃ parts, form = .module parts := by
  cases form with
  | module parts => exact ⟨parts, rfl⟩
  | _ => cases h

lemma Rooted.addModule (h : Rooted a) {t : Tree} {body : List Tree} (ht : t.form = .module body)
    (path source : String) : Rooted (a.addModule path source t) := by
  obtain ⟨rows, root, hlaid, hlinked, hmodules, hlast, hfold⟩ := addModule_spec a path source t
  generalize a.addModule path source t = b at hlinked hmodules
  have hsize : b.size = a.size + rows.length := by
    rw [size, hlinked.size]
    simp [size]
  intro m module hm
  rw [hmodules, Array.getElem?_push] at hm
  split at hm
  · -- the new module starts at the row that stands for the whole tree, which is the last one
    cases hm
    have hroot : root < b.size := by
      rw [hsize, ← hlast]
      exact Nat.lt_succ_self root
    have hcopied := Tree.copied_foldM a.modules.size t a.nodes
    rw [hfold] at hcopied
    obtain ⟨-, -, -, hshape, -⟩ := hcopied
    refine ⟨hroot, ?_, ?_⟩
    · refine (node_of_root hlaid hlinked ?_ fun n hn hmem => ?_).1
      · have hmem : root ∈ List.range' a.size rows.length :=
          hlaid.once.mem_iff.mp (List.mem_append_right _ (List.mem_singleton.mpr rfl))
        exact (List.mem_range'_1.mp hmem).1
      · have hbefore : root < n := (node_of_part hlaid hlinked hn hmem).2.1
        have hinside : n < b.size := lt_size_of_mem_children hmem
        rw [hsize, ← hlast] at hinside
        exact Nat.not_lt.mpr hbefore hinside
    · rw [form, show b.node root = row b.nodes root from rfl, hlinked.form root]
      exact exists_module_of_shape (ht ▸ hshape)
  · obtain ⟨hlt, htop, body, hform⟩ := h m module hm
    have hnode := node_of_lt hlaid hlinked hlt
    refine ⟨hsize ▸ Nat.lt_add_right _ hlt, ?_, body, ?_⟩
    · rw [parent?, hnode]
      exact htop
    · rw [form, hnode]
      exact hform

/-! ## Every node is in a module -/

/-- Whatever is part of no other construct is the root of a module. -/
def Covered (a : Arena) : Prop := ∀ n < a.size, a.parent? n = none → ∃ m ∈ a.modules, m.root = n

lemma covered_empty : Covered empty := fun n hn => absurd hn (Nat.not_lt_zero n)

lemma Covered.addModule {a : Arena} (h : a.Covered) (path source : String) (t : Tree) :
    (a.addModule path source t).Covered := by
  obtain ⟨rows, root, hlaid, hlinked, hmodules, -⟩ := addModule_spec a path source t
  generalize a.addModule path source t = b at hlinked hmodules
  intro n hn htop
  rw [hmodules]
  rcases Nat.lt_or_ge n a.size with hlt | hge
  · rw [parent?, node_of_lt hlaid hlinked hlt] at htop
    obtain ⟨m, hm, hroot⟩ := h n hlt htop
    exact ⟨m, Array.mem_push_of_mem _ hm, hroot⟩
  · -- a new number is the root or a part of one of the rows
    rw [size, hlinked.size, Array.size_append, List.size_toArray] at hn
    have hmem := hlaid.once.mem_iff.mpr (List.mem_range'_1.mpr ⟨hge, hn⟩)
    rcases List.mem_append.mp hmem with hpart | htree
    · obtain ⟨r, hr, hpart⟩ := List.mem_flatMap.mp hpart
      obtain ⟨k, hk, rfl⟩ := List.mem_iff_getElem.mp hr
      have hform : b.form (a.size + k) = rows[k].form := by
        refine (hlinked.form _).trans (congrArg Node.form ((row_append_right k).trans ?_))
        rw [List.getElem?_eq_getElem hk]
        rfl
      have hchild : n ∈ b.children (a.size + k) := by rwa [children, hform]
      rw [(node_of_part hlaid hlinked (Nat.le_add_right ..) hchild).2.2.1] at htop
      cases htop
    · exact ⟨_, Array.mem_push_self, (List.mem_singleton.mp htree).symm⟩

/-- Every node is below a root. -/
lemma Forest.exists_root (h : Forest a) (hcovered : a.Covered) {n : NodeId} (hn : n < a.size) :
    ∃ r, a.IsRoot r ∧ ReflTransGen a.Part r n := by
  cases hp : a.parent? n with
  | none => exact ⟨n, hcovered n hn hp, .refl⟩
  | some p =>
    have hpart := h.parent.mp hp
    obtain ⟨r, hr, hbelow⟩ := h.exists_root hcovered (lt_size_of_mem hpart)
    exact ⟨r, hr, hbelow.tail hpart⟩
termination_by a.size - n
decreasing_by exact Nat.sub_lt_sub_left hn (h.lt_parent hp)

end Arena

end ValueFlow
