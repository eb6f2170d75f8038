import ValueFlow.Proofs.Grammar.Reads

/-!
# The shapes of modules

The parser builds a property only as a part of an object literal or an object
pattern. So a pattern that declares variables can be walked from a variable up
to its root without leaving it. Parameters are declared, not referred to. And
where a block has to stand there is one, so what is found in the body of a
function or behind `try` is not inside of yet another function. All of this is
in the roles that the constructs have.
-/

namespace ValueFlow

namespace Form

variable {α : Type}

/-- Whether the parts of the construct can be properties. -/
def holdsProperties : Form α → Bool
  | object _ | objectPattern _ => true
  | _ => false

@[simp] lemma holdsProperties_shape (form : Form α) :
    form.shape.holdsProperties = form.holdsProperties := by
  cases form <;> rfl

@[simp] lemma isFunction_shape (form : Form α) : form.shape.isFunction = form.isFunction := by
  cases form <;> rfl

def isReference : Form α → Bool
  | identifier _ => true
  | _ => false

@[simp] lemma isReference_shape (form : Form α) : form.shape.isReference = form.isReference := by
  cases form <;> rfl

/-- The name and the parameters of a function are no references. Its body is no
function, unless it is an expression; and neither is what stands behind `try`. -/
def Sorted : Form Unit → List (Form Unit) → Prop
  | .function _ _ _ flags, parts => (∀ part ∈ parts.dropLast, part.isReference = false) ∧
    (flags.expressionBody = false → ∀ body ∈ parts.getLast?, body.isFunction = false)
  | .tryStmt _ _ _, parts => ∀ block ∈ parts.head?, block.isFunction = false
  | _, _ => True

/-- Properties are parts of objects and object patterns only, and declarations
and blocks stand where they have to. -/
structure Tidy (shape : Form Unit) (parts : List (Form Unit)) : Prop where
  properties : ∀ part ∈ parts, part.isProperty = true → shape.holdsProperties = true
  sorted     : shape.Sorted parts

/-! ## What the roles say -/

variable {form : Form α} {role : Role} {roles : List Role}

/-- Every construct has the roles of a pattern or those of the others. -/
lemma partRoles_or_patternRoles (h : form.roles role = some roles) :
    form.partRoles = roles ∨ ∃ mode, form.patternRoles mode = some roles := by
  have hsuits : (if form.suits role then some form.partRoles else none) = some roles →
      form.partRoles = roles := fun h => Option.some.inj (Option.ite_none_right_eq_some.mp h).2
  cases role with
  | pattern mode => exact .inr ⟨mode, (Option.ite_none_left_eq_some.mp h).2⟩
  | field mode => exact .inr ⟨mode, h⟩
  | assigned op => exact .inr ⟨.assigns, (Option.ite_none_left_eq_some.mp (roles_of_assigned h)).2⟩
  | head =>
    rw [Form.roles] at h
    split at h
    · exact .inl (Option.some.inj h)
    · exact .inr ⟨.assigns, (Option.ite_none_left_eq_some.mp h).2⟩
  | _ => exact .inl (hsuits h)

lemma holdsProperties_of_mem (h : form.roles role = some roles)
    (hmem : .entry ∈ roles ∨ ∃ mode, .field mode ∈ roles) : form.holdsProperties = true := by
  obtain rfl | ⟨mode, h⟩ := partRoles_or_patternRoles h
  · cases form with
    | object | objectPattern => rfl
    | function =>
      simp only [partRoles, List.mem_append, List.mem_map, List.mem_singleton] at hmem
      split at hmem <;> simp at hmem
    | _ => simp [partRoles] at hmem
  · cases form with
    | object | objectPattern => rfl
    | property key => cases key <;> cases h <;> simp at hmem
    | binding | identifier | member | index =>
      cases (Option.ite_none_right_eq_some.mp h).2
      simp at hmem
    | _ => cases h <;> simp at hmem

/-- Only the parts of objects and object patterns can be properties. -/
lemma role_of_isProperty (h : form.roles role = some roles) (hform : form.isProperty = true) :
    role = .entry ∨ ∃ mode, role = .field mode := by
  cases form <;> cases hform
  cases role <;> first | exact .inl rfl | exact .inr ⟨_, rfl⟩ | cases h

lemma isReference_of_declared (h : form.roles role = some roles)
    (hrole : role = .name ∨ role = .pattern .declares) : form.isReference = false := by
  obtain rfl | rfl := hrole <;> cases form <;> first | rfl | cases h

lemma isFunction_of_block (h : form.roles .block = some roles) : form.isFunction = false := by
  cases form <;> first | rfl | cases h

end Form

section Roles

variable {α : Type} {look : α → Form α} {role : Role} {x : α}

def Suits (look : α → Form α) (role : Role) (x : α) : Prop :=
  ∃ roles, (look x).roles role = some roles

lemma Fits.suits (h : Fits look role x) : Suits look role x :=
  let ⟨hroles, _⟩ := h
  ⟨_, hroles⟩

/-- A construct whose parts suit their roles is sorted. -/
lemma sorted_of_suits {form : Form α} {roles : List Role} (h : form.roles role = some roles)
    (hparts : List.Forall₂ (Suits look) roles form.children) :
    form.shape.Sorted (form.children.map fun y => (look y).shape) := by
  cases form with
  | function name params body flags =>
    obtain rfl | ⟨mode, h⟩ := Form.partRoles_or_patternRoles h
    · obtain ⟨hfirst, hbody⟩ := forall₂_of_append hparts (by simp)
      obtain ⟨hname, hparams⟩ := forall₂_of_append hfirst (List.length_map _)
      rw [List.forall₂_map_left_iff, List.forall₂_same] at hname hparams
      have hshapes : (Form.function name params body flags).children.map (fun y => (look y).shape) =
          (name.toList ++ params).map (fun y => (look y).shape) ++ [(look body).shape] :=
        List.map_append
      rw [hshapes]
      refine ⟨fun shape hshape => ?_, fun hflags shape hshape => ?_⟩
      · rw [List.dropLast_concat] at hshape
        obtain ⟨t, ht, rfl⟩ := List.mem_map.mp hshape
        rw [Form.isReference_shape]
        rcases List.mem_append.mp ht with ht | ht
        · obtain ⟨_, hroles⟩ := hname t ht
          exact Form.isReference_of_declared hroles (.inl rfl)
        · obtain ⟨_, hroles⟩ := hparams t ht
          exact Form.isReference_of_declared hroles (.inr rfl)
      · rw [List.getLast?_concat] at hshape
        cases hshape
        rw [show flags.expressionBody = false from hflags] at hbody
        obtain ⟨⟨_, hroles⟩, -⟩ := List.forall₂_cons.mp hbody
        exact (Form.isFunction_shape _).trans (Form.isFunction_of_block hroles)
    · cases h
  | tryStmt body handler finalizer =>
    obtain rfl | ⟨mode, h⟩ := Form.partRoles_or_patternRoles h
    · cases hparts with
      | cons hbody _ =>
        obtain ⟨_, hbody⟩ := hbody
        rintro _ ⟨⟩
        exact (Form.isFunction_shape _).trans (Form.isFunction_of_block hbody)
    · cases h
  | _ => trivial

lemma Fits.tidy (h : Fits look role x) :
    Form.Tidy (look x).shape ((look x).children.map fun y => (look y).shape) := by
  obtain ⟨hroles, hparts⟩ := h
  refine ⟨fun shape hshape hkind => ?_, sorted_of_suits hroles (hparts.imp fun _ _ h => h.suits)⟩
  obtain ⟨y, hy, rfl⟩ := List.mem_map.mp hshape
  rw [Form.isProperty_shape] at hkind
  rw [Form.holdsProperties_shape]
  obtain ⟨part, hpart, hfits⟩ := exists_mem_of_forall₂ hparts hy
  obtain ⟨_, hroles'⟩ := hfits.suits
  refine Form.holdsProperties_of_mem hroles ?_
  obtain rfl | ⟨mode, rfl⟩ := Form.role_of_isProperty hroles' hkind
  · exact .inl hpart
  · exact .inr ⟨mode, hpart⟩

end Roles

end ValueFlow
