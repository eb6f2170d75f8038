import ValueFlow.Proofs.Ast.Spans

/-!
# Positions of patterns

Patterns stand where variables are declared or assigned to, and nowhere else.
`Arena.InPattern` says which nodes these are, going down from declarators,
parameters, loops and assignments. The parser gives every construct a role
(`Form.roles`), and the roles lead to the same nodes.
-/

namespace ValueFlow

open Relation (ReflTransGen)

/-! ## Positions -/

namespace Form

variable {α : Type}

/-- A variable, a property or an element, which can be assigned to. -/
def isPlace : Form α → Bool
  | identifier _ | member .. | index .. => true
  | _ => false

/-- A pattern with parts that go to different places. -/
def isDestructuring : Form α → Bool
  | arrayPattern _ | objectPattern _ => true
  | _ => false

/-- What occurs in patterns only. -/
def isPattern : Form α → Bool
  | arrayPattern _ | objectPattern _ | assignPattern .. | rest _ => true
  | _ => false

/-- What becomes something else where an expression turns out to be a pattern. -/
def isLiteral : Form α → Bool
  | array _ | object _ | spread _ | assign .. => true
  | _ => false

def isLeaf (form : Form α) : Mode → Bool
  | .declares => form.isBinding
  | .assigns => form.isPlace

/-- What has a pattern among its parts and is none. -/
def hosts : Form α → Bool
  | declarator .. | function .. | catchClause .. | forEach .. | assign .. => true
  | _ => false

variable {form : Form α} {role : Role} {roles : List Role} {mode : Mode}

lemma place_of_assigned {op : AssignOp} (h : form.roles (.assigned op) = some roles) :
    form.isPlace = true ∨ op = .plain ∧ form.isDestructuring = true := by
  cases form <;>
    first
    | exact .inl rfl
    | exact .inr ⟨(Option.ite_none_right_eq_some.mp h).1, rfl⟩
    | cases h

lemma isLiteral_of_field (h : form.roles (.field mode) = some roles) :
    form.isLiteral = false := by
  cases form <;> first | rfl | cases h

lemma suits_of_isPattern (hform : form.isPattern = true) (role : Role) :
    form.suits role = false := by
  cases form <;> cases hform <;> cases role <;> rfl

lemma isVarDecl_of_isPattern (hform : form.isPattern = true) : form.isVarDecl = false := by
  cases form <;> first | rfl | cases hform

lemma leaf_of_field (h : form.roles (.field mode) = some roles) :
    form.isPattern = true ∨ form.isProperty = true ∨ form.isLeaf mode = true := by
  cases form with
  | binding | identifier | member | index =>
    rw [(Option.ite_none_right_eq_some.mp h).1]
    exact .inr (.inr rfl)
  | property => exact .inr (.inl rfl)
  | objectPattern | arrayPattern | rest | assignPattern => exact .inl rfl
  | _ => cases h

lemma partRoles_of_hosts (hform : form.hosts = true) (h : form.roles role = some roles) :
    form.partRoles = roles := by
  cases form <;> cases hform <;> cases role <;> first | exact Option.some.inj h | cases h

lemma partRoles_of_suits (h : (if form.suits role then some form.partRoles else none) =
    some roles) : form.partRoles = roles :=
  Option.some.inj (Option.ite_none_right_eq_some.mp h).2

lemma roles_of_head (hform : form.isVarDecl = false) (h : form.roles .head = some roles) :
    form.roles (.field .assigns) = some roles := by
  rw [Form.roles, hform] at h
  exact (Option.ite_none_left_eq_some.mp h).2

lemma partRoles_of_varDecl (hform : form.isVarDecl = true) (h : form.roles .head = some roles) :
    form.partRoles = roles := by
  rw [Form.roles, hform] at h
  exact Option.some.inj h

end Form

namespace Arena

/-- The parts of a node at which a pattern goes on: no defaults, no computed keys, and
nothing inside of what is assigned to. -/
def below (a : Arena) (n : NodeId) : List NodeId :=
  match a.form n with
  | .member .. | .index .. => []
  | .assignPattern target _ => [target]
  | .property _ value _ => [value]
  | form => form.children

/-- The node stands in a pattern: it is declared or assigned to, or part of what is. -/
inductive InPattern (a : Arena) : Mode → NodeId → Prop
  | declarator {m target : NodeId} {init : Option NodeId}
      (h : a.form m = .declarator target init) : InPattern a .declares target
  | param {m body param : NodeId} {name : Option NodeId} {params : List NodeId}
      {flags : FunctionFlags} (h : a.form m = .function name params body flags)
      (hparam : param ∈ params) : InPattern a .declares param
  | caught {m param body : NodeId} (h : a.form m = .catchClause (some param) body) :
      InPattern a .declares param
  | head {m head iterated body : NodeId} {overKeys : Bool}
      (h : a.form m = .forEach overKeys head iterated body)
      (hhead : (a.form head).isVarDecl = false) : InPattern a .assigns head
  | assigned {m target value : NodeId} {op : AssignOp} (h : a.form m = .assign op target value) :
      InPattern a .assigns target
  | part {mode : Mode} {m n : NodeId} (h : InPattern a mode m) (hn : n ∈ a.below m) :
      InPattern a mode n

/-- The node is a name that is introduced outside of a pattern. -/
inductive Named (a : Arena) (n : NodeId) : Prop
  | function {m body : NodeId} {params : List NodeId} {flags : FunctionFlags}
      (h : a.form m = .function (some n) params body flags) : Named a n
  | imported {m : NodeId} {kind : ImportKind} (h : a.form m = .importSpecifier kind n) : Named a n

def Stands (a : Arena) (role : Role) (n : NodeId) : Prop :=
  match role with
  | .pattern mode | .field mode => a.InPattern mode n
  | .assigned _ => a.InPattern .assigns n
  | .head => (a.form n).isVarDecl = false → a.InPattern .assigns n
  | .declarator => ∃ m kind declarators, a.form m = .varDecl kind declarators ∧ n ∈ declarators
  | .imported => ∃ m specifiers source, a.form m = .importDecl specifiers source ∧ n ∈ specifiers
  | .name => a.Named n
  | _ => True

structure Sits (a : Arena) (role : Role) (n : NodeId) : Prop where
  fits   : Fits a.form role n
  stands : a.Stands role n

/-! ## Parts -/

variable {a : Arena} {m n : NodeId} {roles : List Role} {mode : Mode} {role : Role}

lemma stands_partRoles (a : Arena) (m : NodeId) :
    List.Forall₂ a.Stands (a.form m).partRoles (a.children m) := by
  rw [children]
  cases hform : a.form m with
  | varDecl kind declarators => exact forall₂_map_const fun n hn => ⟨m, kind, _, hform, hn⟩
  | declarator target init => exact .cons (.declarator hform) (forall₂_map_const fun _ _ => trivial)
  | function name params body flags =>
    refine List.rel_append (List.rel_append (forall₂_map_const fun n hn => ?_)
      (forall₂_map_const fun _ hparam => .param hform hparam)) (.cons ?_ .nil)
    · rw [Option.mem_toList.mp hn] at hform
      exact .function hform
    · split <;> trivial
  | ifStmt => exact .cons trivial (.cons trivial (forall₂_map_const fun _ _ => trivial))
  | whileStmt => exact .cons trivial (.cons trivial .nil)
  | forStmt =>
    exact List.rel_append (List.rel_append (List.rel_append (forall₂_map_const fun _ _ => trivial)
      (forall₂_map_const fun _ _ => trivial)) (forall₂_map_const fun _ _ => trivial))
      (.cons trivial .nil)
  | forEach => exact .cons (.head hform) (.cons trivial (.cons trivial .nil))
  | tryStmt =>
    exact .cons trivial (List.rel_append (forall₂_map_const fun _ _ => trivial)
      (forall₂_map_const fun _ _ => trivial))
  | catchClause param body =>
    cases param with
    | none => exact .cons trivial .nil
    | some param => exact .cons (.caught hform) (.cons trivial .nil)
  | importDecl specifiers source => exact forall₂_map_const fun n hn => ⟨m, _, source, hform, hn⟩
  | importSpecifier => exact .cons (.imported hform) .nil
  | exportDecl => exact .cons trivial .nil
  | assign => exact .cons (.assigned hform) (.cons trivial .nil)
  | _ => exact forall₂_map_const fun _ _ => trivial

lemma stands_parts_of_pattern (hm : a.InPattern mode m)
    (h : (a.form m).patternRoles mode = some roles) :
    List.Forall₂ a.Stands roles (a.children m) := by
  have hpart : ∀ n ∈ a.below m, a.Stands (.pattern mode) n := fun _ hn => .part hm hn
  rw [children]
  unfold below at hpart
  generalize a.form m = form at h hpart
  cases form with
  | binding | identifier =>
    cases (Option.ite_none_right_eq_some.mp h).2
    exact .nil
  | member =>
    cases (Option.ite_none_right_eq_some.mp h).2
    exact .cons trivial .nil
  | index =>
    cases (Option.ite_none_right_eq_some.mp h).2
    exact .cons trivial (.cons trivial .nil)
  | objectPattern | arrayPattern | rest =>
    cases h
    exact forall₂_map_const hpart
  | property key value shorthand =>
    cases key with
    | named =>
      cases h
      exact forall₂_map_const hpart
    | computed =>
      cases h
      exact .cons trivial (forall₂_map_const hpart)
  | assignPattern target default =>
    cases h
    exact .cons (hpart _ List.mem_cons_self) (.cons trivial .nil)
  | _ => cases h

/-- The parts of a node stand where their roles say. -/
lemma stands_parts (hm : a.Stands role m) (h : (a.form m).roles role = some roles) :
    List.Forall₂ a.Stands roles (a.children m) := by
  cases role with
  | pattern mode => exact stands_parts_of_pattern hm (Form.roles_pattern_iff.mp h).1
  | field mode => exact stands_parts_of_pattern hm h
  | assigned op =>
    exact stands_parts_of_pattern hm (Form.roles_pattern_iff.mp (Form.roles_of_assigned h)).1
  | head =>
    cases hdecl : (a.form m).isVarDecl with
    | false => exact stands_parts_of_pattern (hm hdecl) (Form.roles_of_head hdecl h)
    | true => exact Form.partRoles_of_varDecl hdecl h ▸ stands_partRoles a m
  | _ => exact Form.partRoles_of_suits h ▸ stands_partRoles a m

lemma Sits.parts (h : a.Sits role m) :
    ∃ roles, (a.form m).roles role = some roles ∧ List.Forall₂ a.Sits roles (a.children m) := by
  obtain ⟨⟨hroles, hfits⟩, hstands⟩ := h
  exact ⟨_, hroles, List.Forall₂.mp (fun _ _ => .mk) hfits (stands_parts hstands hroles)⟩

/-- Every node below a root sits in its role. -/
lemma exists_sits {r : NodeId} (hr : Fits a.form .module r) (hn : ReflTransGen a.Part r n) :
    ∃ role, a.Sits role n := by
  induction hn with
  | refl => exact ⟨.module, hr, trivial⟩
  | tail _ hpart ih =>
    obtain ⟨role, hsits⟩ := ih
    obtain ⟨roles, -, hparts⟩ := hsits.parts
    exact forall_mem_of_forall₂ (p := fun n => ∃ role, a.Sits role n) hparts
      (fun role _ h => ⟨role, h⟩) _ hpart

def Seated (a : Arena) : Prop := ∀ n < a.size, ∃ role, a.Sits role n

/-! ## What stands in patterns -/

/-- The parts of a node that has a pattern and is none. -/
lemma Seated.parts_of_hosts (h : a.Seated) {form : Form NodeId} (hm : a.form m = form)
    (hform : form.hosts = true) :
    List.Forall₂ a.Sits form.partRoles form.children := by
  subst hm
  have hlt : m < a.size := by
    refine lt_size_of_form fun hempty => ?_
    rw [hempty] at hform
    cases hform
  obtain ⟨role, hsits⟩ := h m hlt
  obtain ⟨roles, hroles, hparts⟩ := hsits.parts
  exact Form.partRoles_of_hosts hform hroles ▸ hparts

lemma fits_below (h : Fits a.form (.field mode) m) (hn : n ∈ a.below m) :
    Fits a.form (.field mode) n := by
  obtain ⟨hroles, hparts⟩ := h
  have hpattern : ∀ x, Fits a.form (.pattern mode) x → Fits a.form (.field mode) x :=
    fun _ h => (fits_pattern_iff.mp h).1
  unfold below at hn
  generalize a.form m = form at hn hroles hparts
  replace hroles : form.patternRoles mode = _ := hroles
  cases form with
  | binding | identifier | member | index => cases hn
  | objectPattern =>
    cases hroles
    exact List.forall₂_same.mp (List.forall₂_map_left_iff.mp hparts) n hn
  | arrayPattern | rest =>
    cases hroles
    exact hpattern n (List.forall₂_same.mp (List.forall₂_map_left_iff.mp hparts) n hn)
  | property key value shorthand =>
    obtain rfl := List.mem_singleton.mp hn
    cases key with
    | named =>
      cases hroles
      cases hparts with
      | cons hvalue _ => exact hpattern _ hvalue
    | computed =>
      cases hroles
      cases hparts with
      | cons _ hparts =>
        cases hparts with
        | cons hvalue _ => exact hpattern _ hvalue
  | assignPattern target default =>
    obtain rfl := List.mem_singleton.mp hn
    cases hroles
    cases hparts with
    | cons htarget _ => exact hpattern _ htarget
  | _ => cases hroles

/-- What stands in a pattern is a pattern, or a property of one. -/
lemma InPattern.fits (hseated : a.Seated) (h : a.InPattern mode n) :
    Fits a.form (.field mode) n := by
  induction h with
  | declarator hform =>
    have hparts := hseated.parts_of_hosts hform rfl
    cases hparts with
    | cons htarget _ => exact (fits_pattern_iff.mp htarget.fits).1
  | @param m body param name params flags hform hparam =>
    have hparts := hseated.parts_of_hosts hform rfl
    -- the parameters stand between the name and the body
    obtain ⟨hbefore, -⟩ := forall₂_of_append hparts (by simp)
    obtain ⟨-, hparams⟩ := forall₂_of_append hbefore (List.length_map _)
    have hsits := List.forall₂_same.mp (List.forall₂_map_left_iff.mp hparams) param hparam
    exact (fits_pattern_iff.mp hsits.fits).1
  | caught hform =>
    have hparts := hseated.parts_of_hosts hform rfl
    cases hparts with
    | cons hparam _ => exact (fits_pattern_iff.mp hparam.fits).1
  | head hform hdecl =>
    have hparts := hseated.parts_of_hosts hform rfl
    cases hparts with
    | cons hhead _ =>
      obtain ⟨hroles, hparts⟩ := hhead.fits
      exact .whole (Form.roles_of_head hdecl hroles) hparts
  | assigned hform =>
    have hparts := hseated.parts_of_hosts hform rfl
    cases hparts with
    | cons htarget _ =>
      obtain ⟨hroles, hparts⟩ := htarget.fits
      exact .whole (Form.roles_pattern_iff.mp (Form.roles_of_assigned hroles)).1 hparts
  | part _ hn ih => exact fits_below ih hn

/-- Patterns are made of what belongs in them, and stand where they belong. -/
structure Patterned (a : Arena) : Prop where
  target : ∀ {n target value : NodeId} {op : AssignOp}, a.form n = .assign op target value →
             (a.form target).isPlace = true ∨
               op = .plain ∧ (a.form target).isDestructuring = true
  /-- No array, object, spread or assignment stands in a pattern. -/
  clean  : ∀ {mode : Mode} {n : NodeId}, a.InPattern mode n → (a.form n).isLiteral = false
  /-- What occurs in patterns only stands in one. -/
  only   : ∀ {n : NodeId}, (a.form n).isPattern = true → ∃ mode, a.InPattern mode n
  /-- Patterns are taken apart down to what they declare or assign to. -/
  leaf   : ∀ {mode : Mode} {n : NodeId}, a.InPattern mode n →
             (a.form n).isPattern = true ∨ (a.form n).isProperty = true ∨
               (a.form n).isLeaf mode = true

lemma Seated.patterned (h : a.Seated) : a.Patterned where
  target hform := by
    have hparts := h.parts_of_hosts hform rfl
    cases hparts with
    | cons htarget _ =>
      obtain ⟨hroles, -⟩ := htarget.fits
      exact Form.place_of_assigned hroles
  clean hn := by
    obtain ⟨hroles, -⟩ := hn.fits h
    exact Form.isLiteral_of_field hroles
  only {n} hform := by
    have hlt : n < a.size := by
      refine lt_size_of_form fun hempty => ?_
      rw [hempty] at hform
      cases hform
    obtain ⟨role, ⟨hroles, -⟩, hstands⟩ := h n hlt
    have hsuits := Form.suits_of_isPattern hform
    cases role with
    | pattern mode | field mode => exact ⟨mode, hstands⟩
    | assigned op => exact ⟨.assigns, hstands⟩
    | head => exact ⟨.assigns, hstands (Form.isVarDecl_of_isPattern hform)⟩
    | _ => exact absurd (Option.ite_none_right_eq_some.mp hroles).1 (by simp [hsuits])
  leaf hn := by
    obtain ⟨hroles, -⟩ := hn.fits h
    exact Form.leaf_of_field hroles

end Arena

/-! ## Programs -/

lemma Codebase.Parsed.seated {c : Codebase} (h : c.Parsed) : c.arena.Seated := by
  intro n hn
  obtain ⟨r, hr, hbelow⟩ := h.forest.exists_root h.covered hn
  exact Arena.exists_sits (h.fits r hr) hbelow

/-- **Patterns are well formed.** What is declared or assigned to in a program is a pattern,
and there are no patterns elsewhere. -/
theorem Program.arena_patterned {sources : Sources} {p : Program}
    (h : build sources = .ok p) : p.arena.Patterned :=
  (built_of_build h).parsed.seated.patterned

/-- Patterns in a parameter, in a loop and in assignments, with defaults and rests. -/
theorem Program.arena_patterned_of_swap :
    ∃ p, build [("a.ts",
        "function f({x = [1], ...y}) { [y.z, {x}] = [x, y]; for (x of y) x += 1; }")] = .ok p ∧
      ((List.range p.arena.size).countP (fun n => (p.arena.form n).isPattern) = 5 ∧
        (List.range p.arena.size).any fun n => (p.arena.form n).isLiteral) ∧
      p.arena.Patterned :=
  exists_of_test_and (by decide +kernel) fun h _ => arena_patterned h

end ValueFlow
