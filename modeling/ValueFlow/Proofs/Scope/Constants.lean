import ValueFlow.Proofs.Scope.Chains
import ValueFlow.Proofs.Scope.Lexical

/-!
# Programs of constants

The programs of one module that only give names to numbers: every statement declares
constants, and what a constant is initialized with is built from numbers, names,
conditionals and logical operators. A constant may be used before it is declared, and
constants may be defined by each other.

In such a program a name means the constant of that name wherever it is used. The module
owns all the names, and there is no function, block or pattern that another declaration
could stand in.
-/

namespace ValueFlow

namespace Form

variable {α : Type}

def isCopy : Form α → Bool
  | number _ | identifier _ | logical .. | conditional .. => true
  | _ => false

def isConstDecl : Form α → Bool
  | varDecl .const _ => true
  | _ => false

def isInitialized : Form α → Bool
  | declarator _ (some _) => true
  | _ => false

end Form

namespace Arena

variable (a : Arena)

def constant? (d : NodeId) : Option (Symbol × NodeId) :=
  match a.form d with
  | .declarator target (some init) =>
    match a.form target with
    | .binding name => some (name, init)
    | _ => none
  | _ => none

def constants : List (Symbol × NodeId) := a.nodeIds.filterMap a.constant?

/-- Whether a construct and its parts can stand in a program of constants. -/
def isCopying (n : NodeId) : Bool :=
  match a.form n with
  | .module body => body.all fun s => (a.form s).isConstDecl
  | .varDecl .const declarators => declarators.all fun d => (a.form d).isInitialized
  | .declarator target (some init) => (a.form target).isBinding && (a.form init).isCopy
  | .binding _ | .number _ => true
  | .identifier name => (a.constants.map Prod.fst).contains name
  | .logical _ lhs rhs => (a.form lhs).isCopy && (a.form rhs).isCopy
  | .conditional test consequent alternative =>
    (a.form test).isCopy && (a.form consequent).isCopy && (a.form alternative).isCopy
  | _ => false

/-- A program of one module that consists of nothing but constants with different names,
initialized with numbers, names of constants, conditionals and logical operators. -/
structure Copying : Prop where
  single   : a.modules.size = 1
  distinct : (a.constants.map Prod.fst).Nodup
  forms    : ∀ n ∈ a.nodeIds, a.isCopying n = true

instance : Decidable a.Copying :=
  decidable_of_iff (a.modules.size = 1 ∧ (a.constants.map Prod.fst).Nodup ∧
      ∀ n ∈ a.nodeIds, a.isCopying n = true)
    ⟨fun ⟨hsingle, hdistinct, hforms⟩ => ⟨hsingle, hdistinct, hforms⟩,
      fun h => ⟨h.single, h.distinct, h.forms⟩⟩

/-- The second expression is one that the first takes its values from: a branch of a
conditional, an operand of a logical operator, what a constant is initialized with. -/
inductive CopiesFrom : NodeId → NodeId → Prop
  | consequent {n test consequent alternative : NodeId}
      (h : a.form n = .conditional test consequent alternative) : CopiesFrom n consequent
  | alternative {n test consequent alternative : NodeId}
      (h : a.form n = .conditional test consequent alternative) : CopiesFrom n alternative
  | left {n lhs rhs : NodeId} {op : LogicalOp} (h : a.form n = .logical op lhs rhs) :
      CopiesFrom n lhs
  | right {n lhs rhs : NodeId} {op : LogicalOp} (h : a.form n = .logical op lhs rhs) :
      CopiesFrom n rhs
  | initializer {n init : NodeId} {name : Symbol} (h : a.form n = .identifier name)
      (hinit : (name, init) ∈ a.constants) : CopiesFrom n init

variable {a} {name : Symbol}

lemma mem_constants {init : NodeId} : (name, init) ∈ a.constants ↔
    ∃ d b, a.form d = .declarator b (some init) ∧ a.form b = .binding name := by
  unfold constants
  rw [List.mem_filterMap]
  constructor
  · rintro ⟨d, -, hd⟩
    unfold constant? at hd
    split at hd
    · next target _ hform =>
      split at hd
      · next hbinding =>
        cases hd
        exact ⟨d, target, hform, hbinding⟩
      · cases hd
    · cases hd
  · rintro ⟨d, b, hd, hb⟩
    refine ⟨d, List.mem_range.mpr (lt_size_of_form (by simp [hd])), ?_⟩
    simp only [constant?, hd, hb]

lemma lt_size_of_isCopy {n : NodeId} (h : (a.form n).isCopy = true) : n < a.size := by
  refine lt_size_of_form fun hform => ?_
  rw [hform] at h
  cases h

/-- A name takes its values from nothing but its constant. -/
lemma copiesFrom_identifier {n m : NodeId} (hn : a.form n = .identifier name) :
    a.CopiesFrom n m ↔ (name, m) ∈ a.constants := by
  constructor
  · intro h
    cases h with
    | consequent h | alternative h | left h | right h =>
      rw [hn] at h
      cases h
    | initializer h hinit =>
      rw [hn] at h
      cases h
      exact hinit
  · exact .initializer hn

namespace Copying

/-! ## Forms -/

section Forms

variable (h : a.Copying) {n : NodeId} {name : Symbol}
include h

lemma isCopying_of_lt (hn : n < a.size) : a.isCopying n = true := h.forms n (List.mem_range.mpr hn)

lemma eq_of_mem_constants {init init' : NodeId} (hinit : (name, init) ∈ a.constants)
    (hinit' : (name, init') ∈ a.constants) : init = init' :=
  (Prod.mk.inj (List.inj_on_of_nodup_map h.distinct hinit hinit' rfl)).2

lemma exists_constant (hn : a.form n = .identifier name) :
    ∃ init, (name, init) ∈ a.constants := by
  have hcopying := h.isCopying_of_lt (n := n) (lt_size_of_form (by simp [hn]))
  simp only [isCopying, hn, List.contains_iff_mem, List.mem_map] at hcopying
  obtain ⟨⟨_, init⟩, hmem, rfl⟩ := hcopying
  exact ⟨init, hmem⟩

lemma isFunction_eq_false (n : NodeId) : a.isFunction n = false := by
  by_contra hn
  have hn : a.isFunction n = true := by simpa using hn
  have hcopying := h.isCopying_of_lt (lt_size_of_isFunction hn)
  unfold isFunction Form.isFunction at hn
  split at hn
  · next hform => simp [isCopying, hform] at hcopying
  · cases hn

/-- What an expression takes its values from is an expression. -/
lemma isCopy_of_copiesFrom {m : NodeId} (hnm : a.CopiesFrom n m) : (a.form m).isCopy = true := by
  have hcopying : ∀ {k form}, a.form k = form → form ≠ .empty → a.isCopying k = true :=
    fun hform hne => h.isCopying_of_lt (lt_size_of_form (hform ▸ hne))
  cases hnm with
  | consequent hform | alternative hform | left hform | right hform =>
    have hparts := hcopying hform (by simp)
    simp only [isCopying, hform, Bool.and_eq_true] at hparts
    simp only [hparts]
  | initializer hform hinit =>
    obtain ⟨d, b, hd, -⟩ := mem_constants.mp hinit
    have hparts := hcopying hd (by simp)
    simp only [isCopying, hd, Bool.and_eq_true] at hparts
    exact hparts.2

end Forms

/-! ## Wholes and parts -/

section Parts

variable (h : a.Copying) (hforest : a.Forest)
include h hforest

lemma around_eq_nil (n : NodeId) : a.functionsAround n = [] := by
  refine List.eq_nil_iff_forall_not_mem.mpr fun f hf => ?_
  have hfunction := hforest.isFunction_of_mem_chain (hforest.chain_around n) hf
  rw [h.isFunction_eq_false f] at hfunction
  cases hfunction

lemma within_eq_nil (n : NodeId) : a.functionsWithin n = [] := by
  rw [functionsWithin_of_not (h.isFunction_eq_false n), h.around_eq_nil hforest]

/-- Where a construct stands: a statement in the module, a declarator in a statement, a
variable or an expression in a declarator, an expression in an expression. -/
lemma parent_cases {n p : NodeId} (hp : a.parent? n = some p) :
    ((∃ body, a.form p = .module body) ∧ (a.form n).isConstDecl = true) ∨
    ((∃ declarators, a.form p = .varDecl .const declarators) ∧ (a.form n).isInitialized = true) ∨
    (∃ init, a.form p = .declarator n (some init) ∧ (a.form n).isBinding = true) ∨
    (((∃ b, a.form p = .declarator b (some n)) ∨ (a.form p).isCopy = true) ∧
      (a.form n).isCopy = true) := by
  have hmem : n ∈ (a.form p).children := hforest.parent.mp hp
  have hcopying := h.isCopying_of_lt (hforest.lt_size_of_parent hp)
  unfold isCopying at hcopying
  split at hcopying
  · next body hform =>
    rw [hform] at hmem
    exact .inl ⟨⟨body, hform⟩, List.all_eq_true.mp hcopying n hmem⟩
  · next declarators hform =>
    rw [hform] at hmem
    exact .inr (.inl ⟨⟨declarators, hform⟩, List.all_eq_true.mp hcopying n hmem⟩)
  · next target init hform =>
    obtain ⟨htarget, hinit⟩ := Bool.and_eq_true_iff.mp hcopying
    rw [hform] at hmem
    obtain rfl | hmem := List.mem_cons.mp hmem
    · exact .inr (.inr (.inl ⟨init, hform, htarget⟩))
    · cases List.mem_singleton.mp hmem
      exact .inr (.inr (.inr ⟨.inl ⟨target, hform⟩, hinit⟩))
  · next hform =>
    rw [hform] at hmem
    cases hmem
  · next hform =>
    rw [hform] at hmem
    cases hmem
  · next hform =>
    rw [hform] at hmem
    cases hmem
  · next hform =>
    simp only [Bool.and_eq_true] at hcopying
    rw [hform] at hmem
    refine .inr (.inr (.inr ⟨.inr (by rw [hform]; rfl), ?_⟩))
    simp only [Form.children, List.mem_cons, List.not_mem_nil, or_false] at hmem
    obtain rfl | rfl := hmem <;> simp only [hcopying]
  · next hform =>
    simp only [Bool.and_eq_true] at hcopying
    rw [hform] at hmem
    refine .inr (.inr (.inr ⟨.inr (by rw [hform]; rfl), ?_⟩))
    simp only [Form.children, List.mem_cons, List.not_mem_nil, or_false] at hmem
    obtain rfl | rfl | rfl := hmem <;> simp only [hcopying]
  · cases hcopying

/-- Nothing is part of a pattern. -/
lemma patternRoot_eq (n : NodeId) : a.patternRoot n = (n, []) := by
  unfold patternRoot
  cases a.size with
  | zero => rfl
  | succ fuel =>
    unfold patternRootFrom
    cases hp : a.parent? n with
    | none => rfl
    | some p =>
      have hcopying := h.isCopying_of_lt (hforest.lt_size_of_parent hp)
      dsimp only
      unfold isCopying at hcopying
      split at hcopying <;> next hform => first | rw [hform] | cases hcopying

end Parts

end Copying

end Arena

/-! ## The module -/

namespace Program

def root (p : Program) : NodeId := (p.arena.modules.getD 0 default).root

/-- A program of constants, with its names resolved. -/
structure Copying (p : Program) : Prop extends p.arena.Copying where
  built   : p.Built
  covered : p.arena.Covered

namespace Copying

variable {p : Program} (h : p.Copying) {n b : NodeId} {name : Symbol}
include h

lemma root_spec : p.root < p.arena.size ∧ p.arena.parent? p.root = none ∧
    ∃ body, p.arena.form p.root = .module body :=
  h.built.root_spec (by rw [h.single]; exact Nat.one_pos)

lemma eq_root_of_isRoot (hn : p.arena.IsRoot n) : n = p.root := by
  obtain ⟨m, hm, rfl⟩ := hn
  obtain ⟨i, hi, rfl⟩ := Array.mem_iff_getElem.mp hm
  have hi0 : i = 0 := by
    have := h.single
    omega
  subst hi0
  rw [root, Array.getD_eq_getD_getElem?, Array.getElem?_eq_getElem hi, Option.getD_some]

lemma eq_root (hn : n < p.arena.size) (htop : p.arena.parent? n = none) : n = p.root :=
  h.eq_root_of_isRoot (h.covered n hn htop)

lemma exists_parent {form : Form NodeId} (hn : p.arena.form n = form) (hempty : form ≠ .empty)
    (hmodule : ∀ body, form ≠ .module body) : ∃ q, p.arena.parent? n = some q := by
  subst hn
  cases hp : p.arena.parent? n with
  | some q => exact ⟨q, rfl⟩
  | none =>
    obtain ⟨-, -, body, hroot⟩ := h.root_spec
    rw [← h.eq_root (Arena.lt_size_of_form hempty) hp] at hroot
    exact absurd hroot (hmodule body)

lemma eq_root_of_module {body : List NodeId} (hform : p.arena.form n = .module body) :
    n = p.root := by
  refine h.eq_root (Arena.lt_size_of_form (by simp [hform])) ?_
  cases hp : p.arena.parent? n with
  | none => rfl
  | some q =>
    -- a module is part of nothing
    rcases h.parent_cases h.built.forest hp with ⟨-, hn⟩ | ⟨-, hn⟩ | ⟨_, -, hn⟩ | ⟨-, hn⟩ <;>
      rw [hform] at hn <;> cases hn

/-! ## Names -/

lemma exists_statement {d init : NodeId} (hd : p.arena.form d = .declarator b (some init)) :
    ∃ v declarators, p.arena.form v = .varDecl .const declarators ∧ d ∈ declarators ∧
      p.arena.parent? v = some p.root := by
  obtain ⟨v, hv⟩ := h.exists_parent hd (by simp) (by simp)
  have hmem := h.built.forest.parent.mp hv
  rcases h.parent_cases h.built.forest hv with ⟨-, hn⟩ | ⟨⟨ds, hform⟩, -⟩ | ⟨_, -, hn⟩ | ⟨-, hn⟩
  · rw [hd] at hn
    cases hn
  · rw [Arena.children, hform] at hmem
    refine ⟨v, ds, hform, hmem, ?_⟩
    obtain ⟨r, hr⟩ := h.exists_parent hform (by simp) (by simp)
    rcases h.parent_cases h.built.forest hr with ⟨⟨_, hmodule⟩, -⟩ | ⟨-, hn⟩ | ⟨_, -, hn⟩ | ⟨-, hn⟩
    · rw [hr, h.eq_root_of_module hmodule]
    all_goals rw [hform] at hn; cases hn
  all_goals rw [hd] at hn; cases hn

/-- The module owns the name of every constant. -/
lemma ownedBy_root {d init : NodeId} (hd : p.arena.form d = .declarator b (some init)) :
    p.arena.OwnedBy b p.root := by
  obtain ⟨v, declarators, hv, hmem, hparent⟩ := h.exists_statement hd
  obtain ⟨-, -, body, hroot⟩ := h.root_spec
  have hscope : p.arena.IsScope p.root := by
    rw [Arena.IsScope, hroot]
    rfl
  refine .lexical hv (by simp) hmem hd .self ?_
  exact (h.built.forest.nearest_of_declarator (fun _ => id) hv hmem hd .self).mpr
    ((h.built.forest.nearest_of_parent hparent).mpr (.inl ⟨hscope, rfl⟩))

/-- **A name refers to the constant of that name.** -/
theorem symbolAt_identifier (hn : p.arena.form n = .identifier name) :
    ∃ id, p.scopes.symbolAt n = some id ∧
      p.arena.form (p.scopes.decl id).binding = .binding name := by
  have hforest := h.built.forest
  obtain ⟨init, hinit⟩ := h.exists_constant hn
  obtain ⟨d, b, hd, hb⟩ := Arena.mem_constants.mp hinit
  -- the module is around the name and owns it
  obtain ⟨r, hr, hbelow⟩ := hforest.exists_root h.covered (n := n)
    (Arena.lt_size_of_form (by simp [hn]))
  cases h.eq_root_of_isRoot hr
  obtain heq | habove := Relation.reflTransGen_iff_eq_or_transGen.mp hbelow
  · obtain ⟨-, -, body, hroot⟩ := h.root_spec
    rw [← heq, hn] at hroot
    cases hroot
  · have howns : p.arena.OwnsName name p.root := ⟨b, hb, h.ownedBy_root hd⟩
    obtain ⟨o, ho⟩ := hforest.exists_nearest howns habove
    rw [h.built.resolved]
    obtain ⟨id, hid⟩ := Option.isSome_iff_exists.mp
      ((Scopes.isSome_declared?_iff hforest h.built.parsed.rooted h.covered).mpr ho.passes)
    have hdeclares := Scopes.declares_iff.mpr hid
    refine ⟨id, (Scopes.symbolAt_eq_some_iff hforest h.built.parsed.rooted h.covered hn id).mpr
      ⟨o, ho, hdeclares⟩, ?_⟩
    rw [← hdeclares.name]
    exact (Scopes.introduced_of_lt hdeclares.lt).2

/-- The declarator around the variable of a constant. -/
lemma declarator_of_binding (hb : p.arena.form b = .binding name) :
    ∃ d init, p.arena.parent? b = some d ∧ p.arena.form d = .declarator b (some init) ∧
      (name, init) ∈ p.arena.constants := by
  obtain ⟨d, hd⟩ := h.exists_parent hb (by simp) (by simp)
  rcases h.parent_cases h.built.forest hd with ⟨-, hn⟩ | ⟨-, hn⟩ | ⟨init, hform, -⟩ | ⟨-, hn⟩
  · rw [hb] at hn
    cases hn
  · rw [hb] at hn
    cases hn
  · exact ⟨d, init, hd, hform, Arena.mem_constants.mpr ⟨d, b, hform, hb⟩⟩
  · rw [hb] at hn
    cases hn

end Copying

end Program

end ValueFlow
