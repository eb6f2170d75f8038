import Mathlib.Data.List.Nodup
import ValueFlow.Ast.Arena

/-!
# The rows of a tree

Adding a tree to an arena appends one row for each of its constructs, parts
before wholes. `Laid` says how the new rows refer to each other, without
reference to the rows that were there before: the parts of a row have smaller
numbers, and every new number is the part of exactly one row, once, or the root.

A form is determined by its *shape*, the form with its parts forgotten, and
the list of its parts. The fold over trees works on the parts from left to
right and keeps the shape (`foldList_children`, `shape_foldForm`), so the rest
of the argument is about lists of trees and looks at no single construct.
-/

namespace ValueFlow

def PropKey.map {α β : Type} (f : α → β) : PropKey α → PropKey β
  | .named name => .named name
  | .computed key => .computed (f key)

namespace Form

variable {α β : Type}

/-- The construct with other parts. -/
def map (f : α → β) : Form α → Form β
  | module body => module (body.map f)
  | block body => block (body.map f)
  | empty => empty
  | varDecl kind declarators => varDecl kind (declarators.map f)
  | declarator target init => declarator (f target) (init.map f)
  | function name params body flags => function (name.map f) (params.map f) (f body) flags
  | returnStmt value => returnStmt (value.map f)
  | ifStmt test consequent alternative => ifStmt (f test) (f consequent) (alternative.map f)
  | whileStmt test body => whileStmt (f test) (f body)
  | forStmt init test step body => forStmt (init.map f) (test.map f) (step.map f) (f body)
  | forEach overKeys head iterated body => forEach overKeys (f head) (f iterated) (f body)
  | tryStmt body handler finalizer => tryStmt (f body) (handler.map f) (finalizer.map f)
  | catchClause param body => catchClause (param.map f) (f body)
  | throwStmt value => throwStmt (f value)
  | breakStmt => breakStmt
  | continueStmt => continueStmt
  | exprStmt expr => exprStmt (f expr)
  | importDecl specifiers source => importDecl (specifiers.map f) source
  | importSpecifier kind name => importSpecifier kind (f name)
  | exportDecl decl => exportDecl (f decl)
  | exportDefault value => exportDefault (f value)
  | exportNamed specifiers source => exportNamed (specifiers.map f) source
  | exportSpecifier name exported => exportSpecifier (f name) exported
  | identifier name => identifier name
  | binding name => binding name
  | number text => number text
  | string value => string value
  | template quasis exprs => template quasis (exprs.map f)
  | bool value => bool value
  | null => null
  | undefined => undefined
  | this => this
  | object properties => object (properties.map f)
  | property key value shorthand => property (key.map f) (f value) shorthand
  | array elements => array (elements.map (Option.map f))
  | spread argument => spread (f argument)
  | call callee arguments optional => call (f callee) (arguments.map f) optional
  | new callee arguments => new (f callee) (arguments.map f)
  | member receiver name optional => member (f receiver) name optional
  | index receiver key optional => index (f receiver) (f key) optional
  | binary op lhs rhs => binary op (f lhs) (f rhs)
  | logical op lhs rhs => logical op (f lhs) (f rhs)
  | conditional test consequent alternative => conditional (f test) (f consequent) (f alternative)
  | unary op operand => unary op (f operand)
  | update increment leading operand => update increment leading (f operand)
  | assign op target value => assign op (f target) (f value)
  | await argument => await (f argument)
  | objectPattern properties => objectPattern (properties.map f)
  | arrayPattern elements => arrayPattern (elements.map (Option.map f))
  | assignPattern target default => assignPattern (f target) (f default)
  | rest argument => rest (f argument)

def shape (form : Form α) : Form Unit := form.map fun _ => ()

end Form

namespace Tree

/-! ## Folding over parts -/

/-- The parts of a construct are smaller than the construct. -/
lemma sizeOf_lt_of_mem_children {t : Tree} {span : Span} {form : Form Tree}
    (h : t ∈ form.children) : sizeOf t < sizeOf (node span form) := by
  have list : ∀ ts : List Tree, t ∈ ts → sizeOf t < sizeOf ts := fun _ => List.sizeOf_lt_of_mem
  have option : ∀ o : Option Tree, o = some t → sizeOf t < sizeOf o := by
    rintro _ rfl
    simp
  have holes : ∀ hs : List (Option Tree), some t ∈ hs → sizeOf t < sizeOf hs := fun _ h =>
    Nat.lt_trans (option _ rfl) (List.sizeOf_lt_of_mem h)
  cases form with
  | property key value shorthand => cases key <;> simp [Form.children] at h ⊢ <;> grind
  | _ => simp [Form.children] at h ⊢ <;> grind

/-- Induction from the parts of a construct to the construct. -/
lemma induction_on_parts {motive : Tree → Prop}
    (whole : ∀ t, (∀ u ∈ t.form.children, motive u) → motive t) (t : Tree) : motive t :=
  whole t fun u _ => induction_on_parts whole u
termination_by sizeOf t
decreasing_by
  cases t
  exact sizeOf_lt_of_mem_children ‹_›

section Fold

variable {σ β : Type} (step : Span → Form β → StateM σ β)

lemma foldList_cons (t : Tree) (ts : List Tree) (s : σ) :
    foldList step (t :: ts) s =
      ((foldM step t s).1 :: (foldList step ts (foldM step t s).2).1,
        (foldList step ts (foldM step t s).2).2) := rfl

lemma foldList_append (ts us : List Tree) (s : σ) :
    foldList step (ts ++ us) s =
      ((foldList step ts s).1 ++ (foldList step us (foldList step ts s).2).1,
        (foldList step us (foldList step ts s).2).2) := by
  induction ts generalizing s with
  | nil => rfl
  | cons t ts ih =>
    rw [List.cons_append, foldList_cons, ih]
    rfl

lemma foldList_filterMap (holes : List (Option Tree)) (s : σ) :
    foldList step (holes.filterMap id) s =
      ((foldHoles step holes s).1.filterMap id, (foldHoles step holes s).2) := by
  induction holes generalizing s with
  | nil => rfl
  | cons hole holes ih =>
    cases hole with
    | none =>
      show foldList step (holes.filterMap id) s = _
      rw [ih]
      rfl
    | some t =>
      show foldList step (t :: holes.filterMap id) s = _
      rw [foldList_cons, ih]
      rfl

/-- Folding over a construct folds over its parts. -/
lemma foldList_children (form : Form Tree) (s : σ) :
    foldList step form.children s =
      ((foldForm step form s).1.children, (foldForm step form s).2) := by
  cases form with
  | declarator _ value | returnStmt value | ifStmt _ _ value | catchClause value =>
    cases value <;> rfl
  | forStmt init test step _ => cases init <;> cases test <;> cases step <;> rfl
  | tryStmt _ handler finalizer => cases handler <;> cases finalizer <;> rfl
  | property key _ _ => cases key <;> rfl
  | function name params body _ =>
    rw [Form.children, foldList_append, foldList_append]
    cases name <;> rfl
  | array elements | arrayPattern elements => exact foldList_filterMap step elements s
  | _ => rfl

lemma forget_foldList (ts : List Tree) (s : σ) :
    (foldList step ts s).1.map (fun _ => ()) = ts.map fun _ => () := by
  induction ts generalizing s with
  | nil => rfl
  | cons t ts ih => exact congrArg (() :: ·) (ih _)

lemma forget_foldHoles (holes : List (Option Tree)) (s : σ) :
    (foldHoles step holes s).1.map (Option.map fun _ => ()) =
      holes.map (Option.map fun _ => ()) := by
  induction holes generalizing s with
  | nil => rfl
  | cons hole holes ih =>
    cases hole with
    | none => exact congrArg (none :: ·) (ih _)
    | some t => exact congrArg (some () :: ·) (ih _)

/-- Folding over a construct keeps its shape. -/
lemma shape_foldForm (form : Form Tree) (s : σ) :
    (foldForm step form s).1.shape = form.shape := by
  have hlist := forget_foldList step
  cases form with
  | module body => exact congrArg Form.module (hlist body s)
  | block body => exact congrArg Form.block (hlist body s)
  | varDecl kind ds => exact congrArg (Form.varDecl kind) (hlist ds s)
  | declarator _ value | returnStmt value | ifStmt _ _ value | catchClause value =>
    cases value <;> rfl
  | function name params _ flags =>
    cases name with
    | none => exact congrArg (Form.function none · () flags) (hlist params _)
    | some _ => exact congrArg (Form.function (some ()) · () flags) (hlist params _)
  | forStmt init test step _ => cases init <;> cases test <;> cases step <;> rfl
  | tryStmt _ handler finalizer => cases handler <;> cases finalizer <;> rfl
  | importDecl specifiers source => exact congrArg (Form.importDecl · source) (hlist specifiers s)
  | exportNamed specifiers source => exact congrArg (Form.exportNamed · source) (hlist specifiers s)
  | template quasis exprs => exact congrArg (Form.template quasis) (hlist exprs s)
  | object properties => exact congrArg Form.object (hlist properties s)
  | property key _ _ => cases key <;> rfl
  | array elements => exact congrArg Form.array (forget_foldHoles step elements s)
  | call _ arguments optional => exact congrArg (Form.call () · optional) (hlist arguments _)
  | new _ arguments => exact congrArg (Form.new ()) (hlist arguments _)
  | objectPattern properties => exact congrArg Form.objectPattern (hlist properties s)
  | arrayPattern elements => exact congrArg Form.arrayPattern (forget_foldHoles step elements s)
  | _ => rfl

end Fold

end Tree

/-! ## The rows -/

/-- What the rows appended for some trees are. -/
structure Laid (home : ModuleId) (first : Nat) (rows : List Node) (roots : List NodeId) : Prop where
  blank : ∀ row ∈ rows, row.home = home ∧ row.parent = none ∧ row.function = none ∧ row.depth = 0
  lower : ∀ (k : Nat) (row : Node), rows[k]? = some row → ∀ c ∈ row.form.children, c < first + k
  once  : (rows.flatMap (fun row => row.form.children) ++ roots).Perm
            (List.range' first rows.length)

section Laid

variable {home : ModuleId} {first : Nat} {rows more : List Node} {roots others : List NodeId}
  {row : Node} {c : NodeId}

/-- A row of two batches is a row of one of them. -/
lemma row_cases {k : Nat} (h : (rows ++ more)[k]? = some row) :
    rows[k]? = some row ∨ ∃ j, k = rows.length + j ∧ more[j]? = some row := by
  by_cases hk : k < rows.length
  · left
    rwa [List.getElem?_append_left hk] at h
  · right
    rw [List.getElem?_append_right (by omega)] at h
    exact ⟨k - rows.length, by omega, h⟩

lemma laid_nil : Laid home first [] [] where
  blank _ h := by cases h
  lower k _ h := by simp at h
  once := .refl _

lemma Laid.append (ht : Laid home first rows roots)
    (hu : Laid home (first + rows.length) more others) :
    Laid home first (rows ++ more) (roots ++ others) where
  blank row h := (List.mem_append.mp h).elim (ht.blank row) (hu.blank row)
  lower k row h c hc := by
    rcases row_cases h with hk | ⟨j, rfl, hj⟩
    · exact ht.lower k row hk c hc
    · have hlt := hu.lower j row hj c hc
      rwa [Nat.add_assoc] at hlt
  once := by
    rw [List.flatMap_append, List.length_append, ← List.range'_append_1]
    refine List.Perm.trans ?_ (ht.once.append hu.once)
    -- The roots of the first batch move in front of the parts of the second.
    rw [List.append_assoc, List.append_assoc]
    exact (List.perm_append_comm_assoc ..).append_left _

/-- A construct whose parts are laid out gets the next row. -/
lemma Laid.wrap (h : Laid home first rows row.form.children)
    (hblank : row.home = home ∧ row.parent = none ∧ row.function = none ∧ row.depth = 0) :
    Laid home first (rows ++ [row]) [first + rows.length] where
  blank r hr := by
    rcases List.mem_append.mp hr with hr | hr
    · exact h.blank r hr
    · rw [List.mem_singleton.mp hr]
      exact hblank
  lower k r hk c hc := by
    rcases row_cases hk with hk | ⟨j, rfl, hk⟩
    · exact h.lower k r hk c hc
    · obtain ⟨rfl, rfl⟩ : j = 0 ∧ row = r := by
        cases j <;> simp_all
      have hmem : c ∈ rows.flatMap (fun row => row.form.children) ++ row.form.children :=
        List.mem_append_right _ hc
      exact (List.mem_range'_1.mp (h.once.mem_iff.mp hmem)).2
  once := by
    rw [List.flatMap_append, List.length_append, ← List.range'_append_1]
    refine List.Perm.append ?_ (.refl _)
    simpa using h.once

lemma Laid.nodup (h : Laid home first rows roots) :
    (rows.flatMap fun row => row.form.children).Nodup :=
  ((List.nodup_append.mp (h.once.nodup_iff.mpr List.nodup_range')).1)

lemma Laid.nodup_children (h : Laid home first rows roots) (hrow : row ∈ rows) :
    row.form.children.Nodup :=
  (List.nodup_flatMap.mp h.nodup).1 row hrow

lemma Laid.first_le (h : Laid home first rows roots) (hrow : row ∈ rows)
    (hc : c ∈ row.form.children) : first ≤ c := by
  have hmem : c ∈ rows.flatMap (fun row => row.form.children) ++ roots :=
    List.mem_append_left _ (List.mem_flatMap.mpr ⟨row, hrow, hc⟩)
  exact (List.mem_range'_1.mp (h.once.mem_iff.mp hmem)).1

/-- A number is the part of at most one row. -/
lemma Laid.unique (h : Laid home first rows roots) {j k : Nat} {other : Node}
    (hj : rows[j]? = some row) (hk : rows[k]? = some other) (hrow : c ∈ row.form.children)
    (hother : c ∈ other.form.children) : j = k := by
  have hdisjoint := List.pairwise_iff_getElem.mp (List.nodup_flatMap.mp h.nodup).2
  obtain ⟨hjlt, rfl⟩ := List.getElem?_eq_some_iff.mp hj
  obtain ⟨hklt, rfl⟩ := List.getElem?_eq_some_iff.mp hk
  rcases Nat.lt_trichotomy j k with hlt | heq | hgt
  · exact absurd hother (hdisjoint j k hjlt hklt hlt hrow)
  · exact heq
  · exact absurd hrow (hdisjoint k j hklt hjlt hgt hother)

end Laid

namespace Arena

open ValueFlow.Tree

lemma foldList_appendNode {home : ModuleId} {ts : List Tree}
    (h : ∀ t ∈ ts, ∀ nodes, ∃ rows row,
      foldM (appendNode home) t nodes =
        (nodes.size + rows.length, nodes ++ (rows ++ [row]).toArray) ∧
      Laid home nodes.size (rows ++ [row]) [nodes.size + rows.length]) (nodes : Array Node) :
    ∃ rows roots, foldList (appendNode home) ts nodes = (roots, nodes ++ rows.toArray) ∧
      Laid home nodes.size rows roots := by
  induction ts generalizing nodes with
  | nil => exact ⟨[], [], by rw [Array.append_empty]; rfl, laid_nil⟩
  | cons t ts ih =>
    obtain ⟨ht, hts⟩ := List.forall_mem_cons.mp h
    obtain ⟨rows, row, hfold, hlaid⟩ := ht nodes
    obtain ⟨more, roots, hmore, hrest⟩ := ih hts (nodes ++ (rows ++ [row]).toArray)
    refine ⟨(rows ++ [row]) ++ more, (nodes.size + rows.length) :: roots, ?_, ?_⟩
    · rw [foldList_cons, hfold, hmore]
      simp
    · rw [Array.size_append] at hrest
      exact hlaid.append hrest

/-- **Numbering a tree.** The fold that appends the constructs of a tree to
rows that are there already appends rows laid out for the tree, the last of
which is its root. -/
theorem foldM_appendNode (home : ModuleId) (t : Tree) (nodes : Array Node) :
    ∃ rows row,
      foldM (appendNode home) t nodes =
        (nodes.size + rows.length, nodes ++ (rows ++ [row]).toArray) ∧
      Laid home nodes.size (rows ++ [row]) [nodes.size + rows.length] := by
  induction t using induction_on_parts generalizing nodes with
  | whole t ih =>
    obtain ⟨span, form⟩ := t
    obtain ⟨rows, roots, hfold, hlaid⟩ := foldList_appendNode ih nodes
    rw [show (Tree.node span form).form = form from rfl, foldList_children] at hfold
    obtain ⟨rfl, hnodes⟩ := Prod.mk.inj hfold
    refine ⟨rows, ⟨(foldForm (appendNode home) form nodes).1, home, span, none, none, 0⟩, ?_, ?_⟩
    · show appendNode home span (foldForm (appendNode home) form nodes).1
        (foldForm (appendNode home) form nodes).2 = _
      rw [hnodes]
      simp [appendNode]
    · exact hlaid.wrap ⟨rfl, rfl, rfl, rfl⟩

end Arena

end ValueFlow
