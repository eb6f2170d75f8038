import ValueFlow.Flow.Place
import ValueFlow.Proofs.Ast.Layout

/-!
# The arena is a forest

`Arena.addModule` appends the rows of a tree and then links every part to its
whole. The links are set from the last row down, so a whole knows what is
around it before its parts copy that. Afterwards the parent is the inverse of
the children, and every node knows the innermost function around it.
-/

namespace ValueFlow

/-- The innermost function around the parts of the node `n`, and how many
functions are around them. -/
def Node.surroundings (node : Node) (n : NodeId) : Option NodeId × Nat :=
  if node.form.isFunction then (some n, node.depth + 1) else (node.function, node.depth)

def Node.adopt (node : Node) (n : NodeId) (part : Node) : Node :=
  { part with
    parent := some n
    function := (node.surroundings n).1
    depth := (node.surroundings n).2 }

namespace Arena

variable {nodes : Array Node} {n : NodeId} {first : Nat} {a : Arena} {c : NodeId}
  {linked : Array Node}

/-! ## Linking -/

/-- The row with a given number; a blank one if there is none. -/
def row (nodes : Array Node) (n : NodeId) : Node := nodes.getD n default

lemma getD_modify {α : Type} (f : α → α) (xs : Array α) {j : Nat} (hj : j < xs.size) (i : Nat)
    (default : α) :
    (xs.modify j f).getD i default =
      if i = j then f (xs.getD i default) else xs.getD i default := by
  rw [Array.getD_eq_getD_getElem?, Array.getD_eq_getD_getElem?, Array.getElem?_modify]
  by_cases hij : i = j
  · subst hij
    simp [hj]
  · simp [hij, Ne.symm hij]

lemma getD_foldl_modify {α : Type} {f : α → α} (hf : ∀ x, f (f x) = f x) (default : α)
    (is : List Nat) (xs : Array α) (hlt : ∀ j ∈ is, j < xs.size) (i : Nat) :
    (is.foldl (fun xs j => xs.modify j f) xs).getD i default =
      if i ∈ is then f (xs.getD i default) else xs.getD i default := by
  induction is generalizing xs with
  | nil => simp
  | cons j is ih =>
    obtain ⟨hj, his⟩ := List.forall_mem_cons.mp hlt
    rw [List.foldl_cons, ih _ (by simpa using his), getD_modify f xs hj]
    by_cases hij : i = j <;> by_cases hi : i ∈ is <;> simp [hij, hi, hf]

lemma linkChildren_eq (nodes : Array Node) (n : NodeId) :
    linkChildren nodes n = (row nodes n).form.children.foldl
      (fun rows child => rows.modify child ((row nodes n).adopt n)) nodes := rfl

lemma size_linkChildren (nodes : Array Node) (n : NodeId) :
    (linkChildren nodes n).size = nodes.size := by
  rw [linkChildren_eq]
  generalize (row nodes n).form.children = parts
  generalize (row nodes n).adopt n = f
  induction parts generalizing nodes with
  | nil => rfl
  | cons c parts ih => rw [List.foldl_cons, ih, Array.size_modify]

lemma row_linkChildren (h : ∀ c ∈ (row nodes n).form.children, c < nodes.size) (i : NodeId) :
    row (linkChildren nodes n) i =
      if i ∈ (row nodes n).form.children then (row nodes n).adopt n (row nodes i)
      else row nodes i :=
  getD_foldl_modify (f := (row nodes n).adopt n) (fun _ => rfl) default _ _ h i

structure LinkedFrom (nodes linked : Array Node) (first : Nat) : Prop where
  size  : linked.size = nodes.size
  parts : ∀ {n c : NodeId}, first ≤ n → c ∈ (row nodes n).form.children →
            row linked c = (row linked n).adopt n (row nodes c)
  kept  : ∀ {c : NodeId}, (∀ n, first ≤ n → c ∉ (row nodes n).form.children) →
            row linked c = row nodes c

lemma lt_size_of_mem_children (h : c ∈ (row nodes n).form.children) : n < nodes.size := by
  by_contra hn
  rw [row, Array.getD_eq_getD_getElem?, Array.getElem?_eq_none (Nat.not_lt.mp hn)] at h
  cases h

/-- Linking changes nothing of a row but its links. -/
lemma LinkedFrom.view {nodes linked : Array Node} {first : Nat}
    (h : LinkedFrom nodes linked first) {β : Type} (view : Node → β)
    (hview : ∀ node n part, view (Node.adopt node n part) = view part) (n : NodeId) :
    view (row linked n) = view (row nodes n) := by
  by_cases hn : ∃ p, first ≤ p ∧ n ∈ (row nodes p).form.children
  · obtain ⟨p, hp, hmem⟩ := hn
    rw [h.parts hp hmem, hview]
  · rw [h.kept fun p hp hmem => hn ⟨p, hp, hmem⟩]

lemma LinkedFrom.form (h : LinkedFrom nodes linked first) (n : NodeId) :
    (row linked n).form = (row nodes n).form :=
  h.view Node.form (fun _ _ _ => rfl) n

section Link

variable (lower : ∀ {n c : NodeId}, first ≤ n → c ∈ (row nodes n).form.children → c < n)
  (unique : ∀ {m n c : NodeId}, first ≤ m → first ≤ n → c ∈ (row nodes m).form.children →
    c ∈ (row nodes n).form.children → m = n)

include lower unique

/-- Linking the parts of one more row. -/
lemma LinkedFrom.step {k : Nat} (h : LinkedFrom nodes linked (k + 1)) (hk : first ≤ k) :
    LinkedFrom nodes (linkChildren linked k) k := by
  have hform := h.form k
  have hrow : ∀ i, row (linkChildren linked k) i =
      if i ∈ (row nodes k).form.children then (row linked k).adopt k (row linked i)
      else row linked i := by
    intro i
    rw [← hform]
    refine row_linkChildren (fun c hc => ?_) i
    rw [hform] at hc
    rw [h.size]
    exact Nat.lt_trans (lower hk hc) (lt_size_of_mem_children hc)
  -- The node itself and those after it are no parts of it.
  have habove : ∀ n, k ≤ n → row (linkChildren linked k) n = row linked n := by
    intro n hn
    rw [hrow, if_neg fun hmem => Nat.not_lt.mpr hn (lower hk hmem)]
  refine ⟨(size_linkChildren ..).trans h.size, ?_, ?_⟩
  · intro n c hn hc
    rw [habove n hn, hrow]
    rcases Nat.eq_or_lt_of_le hn with rfl | hlt
    · rw [if_pos hc]
      have hother : row linked c = row nodes c := by
        refine h.kept fun m hm hmem => ?_
        exact Nat.ne_of_gt hm (unique (Nat.le_trans hk (Nat.le_of_lt hm)) hk hmem hc)
      rw [hother]
    · have hother : c ∉ (row nodes k).form.children := fun hmem =>
        Nat.ne_of_lt hlt (unique hk (Nat.le_trans hk hn) hmem hc)
      rw [if_neg hother]
      exact h.parts hlt hc
  · intro c hc
    rw [hrow, if_neg (hc k .refl)]
    exact h.kept fun n hn => hc n (Nat.le_of_lt hn)

/-- **Linking.** If parts come before wholes and have one whole each, linking
links every part. -/
theorem linkedFrom_link (hfirst : first ≤ nodes.size) :
    LinkedFrom nodes (link nodes first) first := by
  -- From the last row down, one more row at a time.
  have hfrom : ∀ count k, k + count = nodes.size → first ≤ k →
      LinkedFrom nodes ((List.range' k count).reverse.foldl linkChildren nodes) k := by
    intro count
    induction count with
    | zero =>
      intro k hk _
      refine ⟨rfl, fun hn hc => ?_, fun _ => rfl⟩
      exact absurd (lt_size_of_mem_children hc) (Nat.not_lt.mpr (hk ▸ hn))
    | succ count ih =>
      intro k hk hle
      rw [List.range'_succ, List.reverse_cons, List.foldl_append]
      exact (ih (k + 1) (by omega) (by omega)).step lower unique hle
  exact hfrom (nodes.size - first) first (by omega) .refl

end Link

/-! ## Adding a module -/

section Append

variable {nodes : Array Node} {rows : List Node}

lemma row_append_left (h : n < nodes.size) : row (nodes ++ rows.toArray) n = row nodes n := by
  simp [row, Array.getElem?_append, h]

lemma row_append_right (k : Nat) :
    row (nodes ++ rows.toArray) (nodes.size + k) = rows[k]?.getD default := by
  rw [row, Array.getD_eq_getD_getElem?, Array.getElem?_append_right (by omega)]
  simp

lemma exists_row_of_mem {c : NodeId} (hn : nodes.size ≤ n)
    (h : c ∈ (row (nodes ++ rows.toArray) n).form.children) :
    ∃ k row, n = nodes.size + k ∧ rows[k]? = some row ∧ c ∈ row.form.children := by
  obtain ⟨k, rfl⟩ := Nat.exists_eq_add_of_le hn
  rw [row_append_right] at h
  cases hk : rows[k]? with
  | none =>
    rw [hk] at h
    cases h
  | some row =>
    rw [hk] at h
    exact ⟨k, row, rfl, hk, h⟩

end Append

/-- Adding a module appends the rows of its tree, the whole tree last, and links
them. -/
lemma addModule_spec (a : Arena) (path source : String) (t : Tree) :
    ∃ rows root, Laid a.modules.size a.size rows [root] ∧
      LinkedFrom (a.nodes ++ rows.toArray) (a.addModule path source t).nodes a.size ∧
      (a.addModule path source t).modules = a.modules.push ⟨path, Lines.ofText source, root⟩ ∧
      root + 1 = a.size + rows.length ∧
      t.foldM (appendNode a.modules.size) a.nodes = (root, a.nodes ++ rows.toArray) := by
  obtain ⟨rows, row, hfold, hlaid⟩ := foldM_appendNode a.modules.size t a.nodes
  have hadd : a.addModule path source t =
      ⟨link (a.nodes ++ (rows ++ [row]).toArray) a.nodes.size,
        a.modules.push ⟨path, Lines.ofText source, a.nodes.size + rows.length⟩⟩ := by
    show (⟨link (t.foldM (appendNode a.modules.size) a.nodes).2 a.nodes.size, _⟩ : Arena) = _
    rw [hfold]
  refine ⟨rows ++ [row], _, hlaid, ?_, by rw [hadd], by simp [size, Nat.add_assoc], hfold⟩
  rw [hadd]
  apply linkedFrom_link
  · intro n c hn hc
    obtain ⟨k, r, rfl, hk, hc⟩ := exists_row_of_mem hn hc
    exact hlaid.lower k r hk c hc
  · intro m n c hm hn hcm hcn
    obtain ⟨j, r, rfl, hj, hcm⟩ := exists_row_of_mem hm hcm
    obtain ⟨k, r', rfl, hk, hcn⟩ := exists_row_of_mem hn hcn
    rw [hlaid.unique hj hk hcm hcn]
  · simp

/-- The links of an arena fit its constructs. -/
structure Forest (a : Arena) : Prop where
  lower  : ∀ {n c : NodeId}, c ∈ a.children n → c < n
  parent : ∀ {n c : NodeId}, a.parent? c = some n ↔ c ∈ a.children n
  nodup  : ∀ n, (a.children n).Nodup
  around : ∀ {n c : NodeId}, c ∈ a.children n →
             ((a.node c).function, a.depth c) = (a.node n).surroundings n
  top    : ∀ {n : NodeId}, a.parent? n = none → (a.node n).function = none ∧ a.depth n = 0

lemma forest_empty : Forest empty where
  lower h := by cases h
  parent {_ _} := ⟨nofun, nofun⟩
  nodup _ := .nil
  around h := by cases h
  top _ := ⟨rfl, rfl⟩

section AddModule

variable {a b : Arena} {rows : List Node} {home : ModuleId} {roots : List NodeId}
  (hlaid : Laid home a.size rows roots)
  (hlinked : LinkedFrom (a.nodes ++ rows.toArray) b.nodes a.size) {n : NodeId} {c : NodeId}

include hlaid hlinked

/-- The nodes that were there stay as they were. -/
lemma node_of_lt (hn : n < a.size) : b.node n = a.node n := by
  have hkept : row b.nodes n = row (a.nodes ++ rows.toArray) n := by
    refine hlinked.kept fun m hm hmem => ?_
    obtain ⟨k, r, -, hk, hc⟩ := exists_row_of_mem hm hmem
    exact Nat.not_lt.mpr (hlaid.first_le (List.mem_of_getElem? hk) hc) hn
  exact hkept.trans (row_append_left hn)

/-- A part of a new node is linked to it. -/
lemma node_of_part (hn : a.size ≤ n) (hc : c ∈ b.children n) :
    a.size ≤ c ∧ c < n ∧ b.parent? c = some n ∧
      ((b.node c).function, b.depth c) = (b.node n).surroundings n := by
  have hform : b.form n = (row (a.nodes ++ rows.toArray) n).form := hlinked.form n
  rw [children, hform] at hc
  have hrow : b.node c = (b.node n).adopt n _ := hlinked.parts hn hc
  obtain ⟨k, r, rfl, hk, hcr⟩ := exists_row_of_mem hn hc
  refine ⟨hlaid.first_le (List.mem_of_getElem? hk) hcr, hlaid.lower k r hk c hcr, ?_, ?_⟩
  · rw [parent?, hrow]
    rfl
  · rw [depth, hrow]
    rfl

/-- A new node that is part of no node has no links. -/
lemma node_of_root (hc : a.size ≤ c) (h : ∀ n, a.size ≤ n → c ∉ b.children n) :
    b.parent? c = none ∧ (b.node c).function = none ∧ b.depth c = 0 := by
  have hkept : b.node c = row (a.nodes ++ rows.toArray) c := by
    refine hlinked.kept fun n hn hmem => h n hn ?_
    rw [children, show b.form n = _ from hlinked.form n]
    exact hmem
  obtain ⟨k, rfl⟩ := Nat.exists_eq_add_of_le hc
  rw [parent?, depth, hkept, show a.size = a.nodes.size from rfl, row_append_right]
  cases hk : rows[k]? with
  | none => exact ⟨rfl, rfl, rfl⟩
  | some r => exact (hlaid.blank r (List.mem_of_getElem? hk)).2

end AddModule

lemma lt_size_of_mem (h : c ∈ a.children n) : n < a.size := lt_size_of_mem_children h

/-- A number outside of the arena stands for the empty construct. -/
lemma lt_size_of_form (h : a.form n ≠ .empty) : n < a.size := by
  by_contra hle
  refine h ?_
  rw [form, node, Array.getD_eq_getD_getElem?, Array.getElem?_eq_none (Nat.not_lt.mp hle)]
  rfl

/-- New rows are linked among themselves only. -/
lemma Forest.addModule (h : Forest a) (path source : String) (t : Tree) :
    Forest (a.addModule path source t) := by
  obtain ⟨rows, root, hlaid, hlinked, -⟩ := addModule_spec a path source t
  generalize a.addModule path source t = b at hlinked
  -- Below the old size everything is as it was, above it everything is linked.
  have hold : ∀ {n}, n < a.size → b.node n = a.node n := node_of_lt hlaid hlinked
  have hnew : ∀ {n c}, a.size ≤ n → c ∈ b.children n → _ := node_of_part hlaid hlinked
  have hchildren : ∀ {n}, n < a.size → b.children n = a.children n := by
    intro n hn
    rw [children, children, form, form, hold hn]
  have hlower : ∀ {n c}, c ∈ b.children n → c < n := by
    intro n c hc
    rcases Nat.lt_or_ge n a.size with hn | hn
    · exact h.lower (hchildren hn ▸ hc)
    · exact (hnew hn hc).2.1
  refine ⟨hlower, ?_, ?_, ?_, ?_⟩
  · intro n c
    constructor
    · intro hparent
      by_cases hpart : ∃ m, a.size ≤ m ∧ c ∈ b.children m
      · obtain ⟨m, hm, hc⟩ := hpart
        rw [(hnew hm hc).2.2.1] at hparent
        cases hparent
        exact hc
      · rcases Nat.lt_or_ge c a.size with hc | hc
        · rw [parent?, hold hc] at hparent
          have hmem := h.parent.mp hparent
          rwa [hchildren (lt_size_of_mem hmem)]
        · have hroot := node_of_root hlaid hlinked hc fun m hm hmem => hpart ⟨m, hm, hmem⟩
          rw [hroot.1] at hparent
          cases hparent
    · intro hc
      rcases Nat.lt_or_ge n a.size with hn | hn
      · rw [parent?, hold (Nat.lt_trans (hlower hc) hn)]
        exact h.parent.mpr (hchildren hn ▸ hc)
      · exact (hnew hn hc).2.2.1
  · intro n
    rcases Nat.lt_or_ge n a.size with hn | hn
    · rw [hchildren hn]
      exact h.nodup n
    · obtain ⟨k, rfl⟩ := Nat.exists_eq_add_of_le hn
      rw [children, show b.form _ = _ from hlinked.form _, show a.size = a.nodes.size from rfl,
        row_append_right]
      cases hk : rows[k]? with
      | none => exact .nil
      | some r => exact hlaid.nodup_children (List.mem_of_getElem? hk)
  · intro n c hc
    rcases Nat.lt_or_ge n a.size with hn | hn
    · rw [depth, hold hn, hold (Nat.lt_trans (hlower hc) hn)]
      exact h.around (hchildren hn ▸ hc)
    · exact (hnew hn hc).2.2.2
  · intro n hparent
    rcases Nat.lt_or_ge n a.size with hn | hn
    · rw [parent?, hold hn] at hparent
      rw [depth, hold hn]
      exact h.top hparent
    · refine (node_of_root hlaid hlinked hn fun m hm hmem => ?_).2
      rw [(hnew hm hmem).2.2.1] at hparent
      cases hparent

/-! ## Functions around a node -/

section Functions

variable {a : Arena} {n : NodeId} {p : NodeId}

lemma Forest.lt_parent (h : Forest a) (hp : a.parent? n = some p) : n < p :=
  h.lower (h.parent.mp hp)

/-- Going from a node to its parent either passes a function or does not. -/
lemma Forest.around_parent (h : Forest a) (hp : a.parent? n = some p) :
    (a.isFunction p = true ∧ (a.node n).function = some p ∧ a.depth n = a.depth p + 1) ∨
      (a.isFunction p = false ∧ (a.node n).function = (a.node p).function ∧
        a.depth n = a.depth p) := by
  have haround := h.around (h.parent.mp hp)
  unfold Node.surroundings at haround
  cases hf : a.isFunction p with
  | true =>
    rw [if_pos (show (a.node p).form.isFunction = true from hf)] at haround
    obtain ⟨h₁, h₂⟩ := Prod.mk.inj haround
    exact .inl ⟨rfl, h₁, h₂⟩
  | false =>
    rw [if_neg (by simpa using (show (a.node p).form.isFunction = false from hf))] at haround
    obtain ⟨h₁, h₂⟩ := Prod.mk.inj haround
    exact .inr ⟨rfl, h₁, h₂⟩

/-- The innermost function around a node has one function less around it, and
a node with no function around it has depth zero. -/
lemma Forest.depth_eq (h : Forest a) (n : NodeId) :
    (∀ f, (a.node n).function = some f → a.isFunction f = true ∧ a.depth n = a.depth f + 1) ∧
      ((a.node n).function = none → a.depth n = 0) := by
  cases hp : a.parent? n with
  | none =>
    obtain ⟨hfunction, hdepth⟩ := h.top hp
    rw [hfunction]
    exact ⟨nofun, fun _ => hdepth⟩
  | some p =>
    rcases h.around_parent hp with ⟨hf, hfunction, hdepth⟩ | ⟨-, hfunction, hdepth⟩
    · rw [hfunction, hdepth]
      refine ⟨fun f hpf => ?_, nofun⟩
      cases hpf
      exact ⟨hf, rfl⟩
    · rw [hfunction, hdepth]
      exact h.depth_eq p
termination_by a.size - n
decreasing_by
  have hlt := h.lt_parent hp
  have hsize := lt_size_of_mem (h.parent.mp hp)
  exact Nat.sub_lt_sub_left (Nat.lt_trans hlt hsize) hlt

lemma Forest.functionsAround_of_function (h : Forest a) {f : NodeId}
    (hf : (a.node n).function = some f) : a.functionsAround n = f :: a.functionsAround f := by
  rw [functionsAround, (h.depth_eq n).1 f hf |>.2, functionsFrom, hf, functionsAround]

lemma Forest.length_functionsAround (h : Forest a) (n : NodeId) :
    (a.functionsAround n).length = a.depth n := by
  generalize hd : a.depth n = d
  induction d generalizing n with
  | zero => rw [functionsAround, hd, functionsFrom, List.length_nil]
  | succ d ih =>
    cases hf : (a.node n).function with
    | none => rw [(h.depth_eq n).2 hf] at hd; cases hd
    | some f =>
      have hdepth := (h.depth_eq n).1 f hf |>.2
      rw [h.functionsAround_of_function hf, List.length_cons, ih f (by omega)]

end Functions

end Arena

end ValueFlow
