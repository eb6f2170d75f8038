import ValueFlow.Flow.Bind
import ValueFlow.Proofs.Built

/-!
# Variables inside patterns

A construct that declares variables has a pattern, and the variables are found
by going down from the pattern. The rules go the other way: from a variable up
to the outermost pattern around it. The two meet: `patternRoot` leads from a
declared variable back to the pattern it was found in.
-/

namespace ValueFlow.Arena

variable (a : Arena)

/-- The parts of a pattern in which variables are declared: no defaults and no
computed keys. -/
def patternParts (n : NodeId) : List NodeId :=
  match a.form n with
  | .objectPattern properties => properties
  | .arrayPattern elements => elements.filterMap id
  | .property _ value _ => [value]
  | .assignPattern target _ => [target]
  | .rest argument => [argument]
  | _ => []

/-- The node is reached from the pattern `root` going down. -/
inductive PatternPart (root : NodeId) : NodeId → Prop
  | self : PatternPart root root
  | part {m n : NodeId} (h : PatternPart root m) (hn : n ∈ a.patternParts m) : PatternPart root n

def DeclaresAt (root parent : NodeId) : Prop :=
  match a.form parent with
  | .declarator target _ => target = root
  | .function name params _ _ => name = some root ∨ root ∈ params
  | .catchClause param _ => param = some root
  | .importSpecifier _ name => name = root
  | _ => False

variable {a} {n b : NodeId} {o : NodeId} {kind : BindingKind}

lemma PatternPart.trans {l m : NodeId} (hm : a.PatternPart l m) (hn : a.PatternPart m n) :
    a.PatternPart l n := by
  induction hn with
  | self => exact hm
  | part _ hn ih => exact .part ih hn

lemma mem_children_of_mem_patternParts {m : NodeId} (h : n ∈ a.patternParts m) :
    n ∈ a.children m := by
  unfold patternParts at h
  split at h
  · next hform => rwa [children, hform]
  · next hform => rwa [children, hform]
  · next key _ _ hform =>
    rw [children, hform]
    cases key with
    | named => exact h
    | computed => exact List.mem_cons_of_mem _ h
  · next hform =>
    rw [children, hform]
    exact List.mem_cons.mpr (.inl (List.mem_singleton.mp h))
  · next hform => rwa [children, hform]
  · cases h

lemma patternBindingsFrom_succ (fuel : Nat) (n : NodeId) :
    a.patternBindingsFrom (fuel + 1) n =
      match a.form n with
      | .binding _ => [n]
      | _ => (a.patternParts n).flatMap (a.patternBindingsFrom fuel) := by
  rw [patternBindingsFrom, patternParts]
  cases a.form n <;> simp

/-- The bindings of a pattern are reached going down. -/
lemma part_of_mem_patternBindings (h : b ∈ a.patternBindings n) : a.PatternPart n b := by
  unfold patternBindings at h
  generalize n + 1 = fuel at h
  induction fuel generalizing n with
  | zero => cases h
  | succ fuel ih =>
    rw [patternBindingsFrom_succ] at h
    split at h
    · cases List.mem_singleton.mp h
      exact .self
    · obtain ⟨m, hm, hb⟩ := List.mem_flatMap.mp h
      exact (PatternPart.part .self hm).trans (ih hb)

/-! ## Going up -/

lemma DeclaresAt.mem_children {root parent : NodeId} (h : a.DeclaresAt root parent) :
    root ∈ a.children parent := by
  unfold DeclaresAt at h
  unfold children
  split at h
  · next hform => rw [hform, h]; exact List.mem_cons_self
  · next hform =>
    rw [hform]
    rcases h with rfl | h
    · simp [Form.children]
    · simp [Form.children, h]
  · next hform => rw [hform, h]; simp [Form.children]
  · next hform => rw [hform, h]; exact List.mem_singleton.mpr rfl
  · cases h

/-- What is declared as a whole is where the way up ends. -/
lemma patternRootFrom_of_declaresAt {root parent : NodeId} (hparent : a.parent? root = some parent)
    (h : a.DeclaresAt root parent) (fuel : Nat) (steps : List PatternStep) :
    a.patternRootFrom fuel root steps = (root, steps) := by
  cases fuel with
  | zero => rfl
  | succ fuel =>
    unfold DeclaresAt at h
    split at h
    · next hform => simp only [patternRootFrom, hparent, hform]
    · next hform => simp only [patternRootFrom, hparent, hform]
    · next hform => simp only [patternRootFrom, hparent, hform]
    · next hform => simp only [patternRootFrom, hparent, hform]
    · cases h

section Up

variable (hforest : a.Forest) (htidy : a.Every Form.Tidy)
include hforest htidy

lemma holdsProperties_of_property {m p : NodeId} (hm : (a.form m).isProperty = true)
    (hp : a.parent? m = some p) : (a.form p).holdsProperties = true := by
  have hmem := hforest.parent.mp hp
  have hshape := (htidy p (lt_size_of_mem hmem)).properties (a.form m).shape
    (List.mem_map_of_mem hmem) ((Form.isProperty_shape _).trans hm)
  rwa [Form.holdsProperties_shape] at hshape

lemma objectPattern_of_property {root parent m : NodeId} (hparent : a.parent? root = some parent)
    (hdeclares : a.DeclaresAt root parent) (h : a.PatternPart root m)
    (hproperty : (a.form m).isProperty = true) :
    ∃ p properties, a.parent? m = some p ∧ a.form p = .objectPattern properties := by
  cases h with
  | self =>
    have hholds := holdsProperties_of_property hforest htidy hproperty hparent
    unfold DeclaresAt at hdeclares
    split at hdeclares <;> simp_all [Form.holdsProperties]
  | @part p _ _ hm =>
    have hp := hforest.parent.mpr (mem_children_of_mem_patternParts hm)
    have hholds := holdsProperties_of_property hforest htidy hproperty hp
    refine ⟨p, ?_⟩
    cases hform : a.form p <;> simp_all [Form.holdsProperties, patternParts]

/-- From a part of a declaring pattern the way up ends at the pattern. -/
lemma patternRootFrom_of_part {root parent : NodeId} (hparent : a.parent? root = some parent)
    (hdeclares : a.DeclaresAt root parent) (h : a.PatternPart root n) (fuel : Nat)
    (hfuel : a.size ≤ n + fuel) (steps : List PatternStep) :
    (a.patternRootFrom fuel n steps).1 = root := by
  induction h generalizing fuel steps with
  | self => rw [patternRootFrom_of_declaresAt hparent hdeclares]
  | @part m n hm hn ih =>
    have hmem := mem_children_of_mem_patternParts hn
    have hup : a.parent? n = some m := hforest.parent.mpr hmem
    have hlt : n < m := hforest.lower hmem
    have hsize : m < a.size := lt_size_of_mem hmem
    have henough : fuel ≠ 0 := by
      rintro rfl
      exact absurd (Nat.lt_trans hlt hsize) (Nat.not_lt.mpr hfuel)
    obtain ⟨fuel, rfl⟩ := Nat.exists_eq_succ_of_ne_zero henough
    have hrec : ∀ steps, (a.patternRootFrom fuel m steps).1 = root := by
      refine ih fuel (Nat.le_trans hfuel ?_)
      rw [Nat.succ_eq_add_one, ← Nat.add_assoc, Nat.add_right_comm]
      exact Nat.add_le_add_right hlt fuel
    unfold patternParts at hn
    split at hn
    · next hform => simp only [patternRootFrom, hup, hform, hrec]
    · next elements hform =>
      simp only [patternRootFrom, hup, hform]
      split
      · exact hrec _
      · have hfound : (elements.findIdx? (· = some n)).isSome := by
          obtain ⟨e, he, rfl⟩ := List.mem_filterMap.mp hn
          rw [List.findIdx?_isSome, List.any_eq_true]
          exact ⟨_, he, by simp⟩
        obtain ⟨position, hposition⟩ := Option.isSome_iff_exists.mp hfound
        rw [hposition]
        exact hrec _
    · next key value shorthand hform =>
      obtain rfl := List.mem_singleton.mp hn
      obtain ⟨p, properties, hp, hobject⟩ :=
        objectPattern_of_property hforest htidy hparent hdeclares hm (by rw [hform]; rfl)
      simp [patternRootFrom, hup, hform, parentIs, hp, hobject, hrec]
    · next hform =>
      obtain rfl := List.mem_singleton.mp hn
      simp only [patternRootFrom, hup, hform, if_true, hrec]
    · next hform =>
      simp only [patternRootFrom, hup, hform]
      split
      · next hfunction =>
        -- Only the pattern itself has a function for a parent.
        cases hm with
        | self => rfl
        | @part p _ _ hm =>
          have hp := hforest.parent.mpr (mem_children_of_mem_patternParts hm)
          rw [parentIs, hp] at hfunction
          cases hform : a.form p <;> simp_all [Form.isFunction, patternParts]
      · exact hrec _
    · cases hn

/-- The way up from a variable has one end. -/
lemma DeclaresAt.unique {root parent root' parent' : NodeId} (h : a.DeclaresAt root parent)
    (hb : a.PatternPart root b) (h' : a.DeclaresAt root' parent') (hb' : a.PatternPart root' b) :
    root = root' ∧ parent = parent' := by
  have hup := hforest.parent.mpr h.mem_children
  have hup' := hforest.parent.mpr h'.mem_children
  obtain rfl : root = root' := by
    rw [← patternRootFrom_of_part hforest htidy hup h hb a.size (Nat.le_add_left ..) [],
      patternRootFrom_of_part hforest htidy hup' h' hb' a.size (Nat.le_add_left ..) []]
  exact ⟨rfl, Option.some.inj (hup.symm.trans hup')⟩

end Up

/-! ## Introductions -/

/-- The construct `n` introduces the binding `b`, with the owner `o`. -/
inductive Introduces (a : Arena) (n b o : NodeId) : Prop
  | name {params : List NodeId} {body : NodeId} {flags : FunctionFlags}
      (hn : a.form n = .function (some b) params body flags)
      (ho : o = if flags.isDeclaration then a.scopeAround n else n)
  | parameter {name : Option NodeId} {params : List NodeId} {body : NodeId} {flags : FunctionFlags}
      {param : NodeId} (hn : a.form n = .function name params body flags) (hparam : param ∈ params)
      (hb : a.PatternPart param b) (ho : o = n)
  | declarator {kind : DeclKind} {declarators : List NodeId} {d target : NodeId}
      {init : Option NodeId} (hn : a.form n = .varDecl kind declarators) (hd : d ∈ declarators)
      (htarget : a.form d = .declarator target init) (hb : a.PatternPart target b)
      (ho : o = if kind = .var then a.hoistAround n else a.scopeAround n)
  | caught {param body : NodeId} (hn : a.form n = .catchClause (some param) body)
      (hb : a.PatternPart param b) (ho : o = n)
  | imported {kind : ImportKind} (hn : a.form n = .importSpecifier kind b)
      (ho : o = a.hoistAround n)

lemma introduces_of_mem (h : (b, kind, o) ∈ a.introductions n) : a.Introduces n b o := by
  unfold introductions at h
  split at h
  · next hform =>
    rcases List.mem_append.mp h with h | h
    · obtain ⟨_, hb, heq⟩ := List.mem_map.mp h
      cases heq
      rw [Option.mem_toList.mp hb] at hform
      exact .name hform rfl
    · obtain ⟨_, hb, heq⟩ := List.mem_map.mp h
      cases heq
      obtain ⟨param, hparam, hb⟩ := List.mem_flatMap.mp hb
      exact .parameter hform hparam (part_of_mem_patternBindings hb) rfl
  · next hform =>
    obtain ⟨_, hb, heq⟩ := List.mem_map.mp h
    cases heq
    obtain ⟨target, htarget, hb⟩ := List.mem_flatMap.mp hb
    obtain ⟨d, hd, htarget⟩ := List.mem_filterMap.mp htarget
    split at htarget
    · next hdeclarator =>
      cases htarget
      exact .declarator hform hd hdeclarator (part_of_mem_patternBindings hb) rfl
    · cases htarget
  · next hform =>
    obtain ⟨_, hb, heq⟩ := List.mem_map.mp h
    cases heq
    obtain ⟨param, hparam, hb⟩ := List.mem_flatMap.mp hb
    rw [Option.mem_toList.mp hparam] at hform
    exact .caught hform (part_of_mem_patternBindings hb) rfl
  · next hform =>
    cases List.mem_singleton.mp h
    exact .imported hform rfl
  · cases h

/-- What a construct introduces is found in a pattern that it declares. What is
found in a function is owned by the function, unless it is its name, and what is
found in a `catch` clause by the clause. -/
lemma exists_root_of_introduced (h : (b, kind, o) ∈ a.introductions n) :
    ∃ root parent, a.DeclaresAt root parent ∧ a.PatternPart root b ∧
      (∀ name params body flags, a.form parent = .function name params body flags →
        o = parent ∨ name = some b) ∧
      ∀ param body, a.form parent = .catchClause param body → o = parent := by
  unfold DeclaresAt
  cases introduces_of_mem h with
  | name hn =>
    refine ⟨b, n, by rw [hn]; exact .inl rfl, .self, fun _ _ _ _ hf => ?_, by simp [hn]⟩
    cases hn.symm.trans hf
    exact .inr rfl
  | @parameter _ _ _ _ param hn hparam hb ho =>
    exact ⟨param, n, by rw [hn]; exact .inr hparam, hb, fun _ _ _ _ _ => .inl ho, by simp [hn]⟩
  | @declarator _ _ d target _ _ _ htarget hb =>
    exact ⟨target, d, by rw [htarget], hb, by simp [htarget], by simp [htarget]⟩
  | @caught param _ hn hb ho => exact ⟨param, n, by rw [hn], hb, by simp [hn], fun _ _ _ => ho⟩
  | imported hn => exact ⟨b, n, by rw [hn], .self, by simp [hn], by simp [hn]⟩

/-- The way up from a declared variable ends where its pattern is declared. -/
lemma declaresAt_patternRoot (hforest : a.Forest) (htidy : a.Every Form.Tidy)
    (h : (b, kind, o) ∈ a.introductions n) :
    ∃ parent, a.parent? (a.patternRoot b).1 = some parent ∧
      a.DeclaresAt (a.patternRoot b).1 parent := by
  obtain ⟨root, parent, hdeclares, hpart, -⟩ := exists_root_of_introduced h
  have hparent := hforest.parent.mpr hdeclares.mem_children
  have hroot : (a.patternRoot b).1 = root :=
    patternRootFrom_of_part hforest htidy hparent hdeclares hpart _ (Nat.le_add_left ..) []
  rw [hroot]
  exact ⟨parent, hparent, hdeclares⟩

section Parameter

variable (hforest : a.Forest) {f b : NodeId} {name : Option NodeId} {params : List NodeId}
  {body : NodeId} {flags : FunctionFlags} (hf : a.form f = .function name params body flags)
  {n : NodeId}
include hforest hf

lemma findIdx?_of_parameter {i : Nat} (hi : params[i]? = some b) :
    params.findIdx? (· = b) = some i := by
  have hnodup : params.Nodup := by
    have hchildren := hforest.nodup f
    rw [children, hf] at hchildren
    exact (List.nodup_append.mp (List.nodup_append.mp hchildren).1).2.1
  obtain ⟨hlt, rfl⟩ := List.getElem?_eq_some_iff.mp hi
  refine List.findIdx?_eq_some_iff_getElem.mpr ⟨hlt, by simp, fun j hj => ?_⟩
  simp [hnodup.getElem_inj_iff, Nat.ne_of_lt hj]

variable (hb : b ∈ params)
include hb

omit hforest in
lemma declaresAt_of_parameter : a.DeclaresAt b f := by
  rw [DeclaresAt, hf]
  exact .inr hb

lemma parent_of_parameter : a.parent? b = some f :=
  hforest.parent.mpr (declaresAt_of_parameter hf hb).mem_children

lemma name_ne_of_parameter : name ≠ some b := by
  rintro rfl
  have hnodup := hforest.nodup f
  rw [children, hf, Form.children, List.append_assoc, Option.toList_some,
    List.singleton_append] at hnodup
  exact (List.nodup_cons.mp hnodup).1 (List.mem_append_left _ hb)

/-- The way up from a parameter that is a plain name ends at once. -/
lemma patternRoot_of_parameter : a.patternRoot b = (b, []) :=
  patternRootFrom_of_declaresAt (parent_of_parameter hforest hf hb)
    (declaresAt_of_parameter hf hb) _ _

/-- A function is no pattern, so none of its variables is its name. -/
lemma name_ne_of_part (hpart : a.PatternPart b n) : name ≠ some n := by
  cases hpart with
  | self => exact name_ne_of_parameter hforest hf hb
  | @part m _ _ hm =>
    rintro rfl
    have hparent : a.parent? n = some f := by
      refine hforest.parent.mpr ?_
      rw [children, hf]
      simp [Form.children]
    rw [hforest.parent.mpr (mem_children_of_mem_patternParts hm)] at hparent
    cases hparent
    rw [patternParts, hf] at hm
    cases hm

/-- The variables of a parameter are owned by its function. -/
lemma owner_of_part (htidy : a.Every Form.Tidy) {m o : NodeId} {kind : BindingKind}
    (hpart : a.PatternPart b n) (h : (n, kind, o) ∈ a.introductions m) : o = f := by
  obtain ⟨root, parent, hdeclares, hpart', howner, -⟩ := exists_root_of_introduced h
  obtain ⟨rfl, rfl⟩ := hdeclares.unique hforest htidy hpart' (declaresAt_of_parameter hf hb) hpart
  exact (howner _ _ _ _ hf).resolve_right (name_ne_of_part hforest hf hb hpart)

/-- The way up from the name of a rest parameter ends at the parameter. -/
lemma patternRoot_of_rest (hrest : a.form b = .rest n) : a.patternRoot n = (b, []) := by
  have hmem : n ∈ a.children b := by
    rw [children, hrest]
    exact List.mem_singleton.mpr rfl
  have hparent : a.parent? n = some b := hforest.parent.mpr hmem
  have hfunction : a.parentIs b Form.isFunction = true := by
    rw [parentIs, parent_of_parameter hforest hf hb, Option.any_some, hf]
    rfl
  unfold patternRoot
  obtain ⟨fuel, hfuel⟩ := Nat.exists_eq_add_of_lt (lt_size_of_mem hmem)
  rw [hfuel]
  simp only [patternRootFrom, hparent, hrest, hfunction, if_true]

end Parameter

section Clause

variable (hforest : a.Forest) {clause b body : NodeId}
  (hclause : a.form clause = .catchClause (some b) body)
include hclause

lemma declaresAt_of_catchParameter : a.DeclaresAt b clause := by rw [DeclaresAt, hclause]

include hforest

lemma parent_of_catchParameter : a.parent? b = some clause :=
  hforest.parent.mpr (declaresAt_of_catchParameter hclause).mem_children

/-- The way up from a `catch` parameter that is a plain name ends at once. -/
lemma patternRoot_of_catchParameter : a.patternRoot b = (b, []) :=
  patternRootFrom_of_declaresAt (parent_of_catchParameter hforest hclause)
    (declaresAt_of_catchParameter hclause) _ _

lemma owner_of_catchParameter (htidy : a.Every Form.Tidy) {m o : NodeId} {kind : BindingKind}
    (h : (b, kind, o) ∈ a.introductions m) : o = clause := by
  obtain ⟨root, parent, hdeclares, hpart, -, howner⟩ := exists_root_of_introduced h
  obtain ⟨rfl, rfl⟩ :=
    hdeclares.unique hforest htidy hpart (declaresAt_of_catchParameter hclause) .self
  exact howner _ _ hclause

end Clause

end ValueFlow.Arena
