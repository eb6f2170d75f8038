import ValueFlow.Proofs.Ast.Positions
import ValueFlow.Proofs.Scope.Patterns

/-!
# Owners of names

A binding is owned by a node around it, and which one depends on the construct
that introduces the binding. `Arena.OwnedBy` says so in terms of the nodes that are
above each other. The program collects the bindings going down from the constructs,
and looks for the owner going up.
-/

namespace ValueFlow

open Relation (ReflTransGen TransGen)

/-- What owns the names that are declared anywhere inside of it. -/
def Form.isHoist {α : Type} : Form α → Bool
  | function .. | module _ => true
  | _ => false

lemma Form.isScope_of_isHoist {α : Type} {form : Form α} (h : form.isHoist = true) :
    form.isScope = true := by
  cases form <;> first | rfl | cases h

namespace Arena

structure Nearest (a : Arena) (test : NodeId → Prop) (n o : NodeId) : Prop where
  passes : test o
  above  : TransGen a.Part o n
  inner  : ∀ q, test q → TransGen a.Part q n → ReflTransGen a.Part q o

/-- A module, a function, a block, a loop or a `catch`. -/
def IsScope (a : Arena) (n : NodeId) : Prop := (a.form n).isScope = true

/-- A module or a function. -/
def IsHoist (a : Arena) (n : NodeId) : Prop := (a.form n).isHoist = true

/-- The node `o` owns the name that the binding `b` introduces. -/
inductive OwnedBy (a : Arena) (b o : NodeId) : Prop
  | var {s d target : NodeId} {init : Option NodeId} {declarators : List NodeId}
      (hs : a.form s = .varDecl .var declarators) (hd : d ∈ declarators)
      (htarget : a.form d = .declarator target init) (hb : a.PatternPart target b)
      (ho : a.Nearest a.IsHoist b o)
  | lexical {s d target : NodeId} {init : Option NodeId} {kind : DeclKind}
      {declarators : List NodeId} (hs : a.form s = .varDecl kind declarators) (hkind : kind ≠ .var)
      (hd : d ∈ declarators) (htarget : a.form d = .declarator target init)
      (hb : a.PatternPart target b) (ho : a.Nearest a.IsScope b o)
  | declared {f body : NodeId} {params : List NodeId} {flags : FunctionFlags}
      (hf : a.form f = .function (some b) params body flags)
      (hflags : flags.isDeclaration = true) (ho : a.Nearest a.IsScope f o)
  | expression {body : NodeId} {params : List NodeId} {flags : FunctionFlags}
      (ho : a.form o = .function (some b) params body flags)
      (hflags : flags.isDeclaration = false)
  | parameter {body param : NodeId} {name : Option NodeId} {params : List NodeId}
      {flags : FunctionFlags} (ho : a.form o = .function name params body flags)
      (hparam : param ∈ params) (hb : a.PatternPart param b)
  | caught {param body : NodeId} (ho : a.form o = .catchClause (some param) body)
      (hb : a.PatternPart param b)
  | imported {s : NodeId} {kind : ImportKind} (hs : a.form s = .importSpecifier kind b)
      (ho : a.Nearest a.IsHoist b o)

variable {a : Arena} {test : NodeId → Prop} {o : NodeId} {b : NodeId} {n : NodeId}

lemma isScope_of_isHoist (n : NodeId) (h : a.IsHoist n) : a.IsScope n := Form.isScope_of_isHoist h

lemma patternParts_of_isScope (h : a.IsScope n) : a.patternParts n = [] := by
  unfold IsScope at h
  unfold patternParts
  cases hform : a.form n <;> rw [hform] at h <;> first | rfl | cases h

lemma Nearest.congr {test' : NodeId → Prop} (h : ∀ q, test q ↔ test' q) :
    a.Nearest test n o ↔ a.Nearest test' n o := by
  rw [show test = test' from funext fun q => propext (h q)]

/-! ## Going up -/

namespace Forest

variable (h : Forest a) {n o : NodeId} {p : NodeId} {declarators : List NodeId}
include h

lemma eq_of_nearest {o' : NodeId} (ho : a.Nearest test n o) (ho' : a.Nearest test n o') :
    o = o' :=
  Nat.le_antisymm (h.le_of_below (ho.inner o' ho'.passes ho'.above))
    (h.le_of_below (ho'.inner o ho.passes ho.above))

lemma nearest_of_parent (hp : a.parent? n = some p) :
    a.Nearest test n o ↔ test p ∧ o = p ∨ ¬ test p ∧ a.Nearest test p o := by
  have hpart : a.Part p n := h.parent.mp hp
  have hself : test p → a.Nearest test n p := fun htest =>
    ⟨htest, .single hpart, fun _ _ => (h.above_iff hp).mp⟩
  constructor
  · intro ho
    by_cases htest : test p
    · exact .inl ⟨htest, h.eq_of_nearest ho (hself htest)⟩
    · refine .inr ⟨htest, ho.passes, ?_, fun q hq hqp => ho.inner q hq (hqp.tail hpart)⟩
      obtain heq | habove :=
        Relation.reflTransGen_iff_eq_or_transGen.mp ((h.above_iff hp).mp ho.above)
      · exact absurd (heq ▸ ho.passes) htest
      · exact habove
  · rintro (⟨htest, rfl⟩ | ⟨htest, ho⟩)
    · exact hself htest
    · refine ⟨ho.passes, ho.above.tail hpart, fun q hq hqn => ?_⟩
      obtain rfl | habove := Relation.reflTransGen_iff_eq_or_transGen.mp ((h.above_iff hp).mp hqn)
      · exact absurd hq htest
      · exact ho.inner q hq habove

lemma exists_nearest (ho : test o) (habove : TransGen a.Part o n) : ∃ q, a.Nearest test n q := by
  induction habove with
  | single hpart => exact ⟨o, (h.nearest_of_parent (h.parent.mpr hpart)).mpr (.inl ⟨ho, rfl⟩)⟩
  | @tail m n _ hpart ih =>
    obtain ⟨q, hq⟩ := ih
    by_cases htest : test m
    · exact ⟨m, (h.nearest_of_parent (h.parent.mpr hpart)).mpr (.inl ⟨htest, rfl⟩)⟩
    · exact ⟨q, (h.nearest_of_parent (h.parent.mpr hpart)).mpr (.inr ⟨htest, hq⟩)⟩

omit h in
lemma ancestorsFrom_of_top (hp : a.parent? n = none) (fuel : Nat) :
    a.ancestorsFrom fuel n = [] := by
  cases fuel with
  | zero => rfl
  | succ fuel => rw [ancestorsFrom, hp]

/-- Every step up leads to a greater number, so the steps that are enough from below are
more than enough from above. -/
lemma fuel_of_parent (hp : a.parent? n = some p) {fuel : Nat} (hfuel : a.size ≤ n + fuel) :
    ∃ k, fuel = k + 1 ∧ a.size ≤ p + k := by
  have hsteps : ∀ {n p size : Nat}, n < p → p < size → size ≤ n + fuel →
      ∃ k, fuel = k + 1 ∧ size ≤ p + k := fun _ _ _ => ⟨fuel - 1, by omega, by omega⟩
  exact hsteps (h.lt_parent hp) (lt_size_of_mem (h.parent.mp hp)) hfuel

lemma ancestorsFrom_eq {fuel fuel' : Nat} {n : NodeId} (hfuel : a.size ≤ n + fuel)
    (hfuel' : a.size ≤ n + fuel') : a.ancestorsFrom fuel n = a.ancestorsFrom fuel' n := by
  cases hp : a.parent? n with
  | none => rw [ancestorsFrom_of_top hp, ancestorsFrom_of_top hp]
  | some p =>
    obtain ⟨k, rfl, hk⟩ := h.fuel_of_parent hp hfuel
    obtain ⟨k', rfl, hk'⟩ := h.fuel_of_parent hp hfuel'
    rw [ancestorsFrom, ancestorsFrom, hp]
    exact congrArg (p :: ·) (ancestorsFrom_eq hk hk')

lemma ancestors_of_parent (hp : a.parent? n = some p) : a.ancestors n = p :: a.ancestors p := by
  obtain ⟨k, hsize, hk⟩ := h.fuel_of_parent hp (Nat.le_add_left a.size n)
  have hrest : a.ancestorsFrom k p = a.ancestorsFrom a.size p :=
    h.ancestorsFrom_eq hk (Nat.le_add_left ..)
  rw [ancestors, ancestors, ← hrest, hsize, ancestorsFrom, hp]

/-- Going up from a node, the first result is that of the nearest node that has one. -/
lemma findSome?_ancestors {β : Type} (f : NodeId → Option β) (n : NodeId) (y : β) :
    (a.ancestors n).findSome? f = some y ↔
      ∃ o, a.Nearest (fun o => (f o).isSome = true) n o ∧ f o = some y := by
  cases hp : a.parent? n with
  | none =>
    rw [ancestors, ancestorsFrom_of_top hp]
    constructor
    · intro hnone
      cases hnone
    · rintro ⟨o, ho, -⟩
      exact absurd ho.above (h.not_above hp o)
  | some p =>
    rw [h.ancestors_of_parent hp, List.findSome?_cons]
    simp only [h.nearest_of_parent hp]
    cases hfound : f p with
    | some x =>
      constructor
      · intro heq
        exact ⟨p, .inl ⟨rfl, rfl⟩, hfound.trans heq⟩
      · rintro ⟨o, ⟨-, rfl⟩ | ⟨hnone, -⟩, ho⟩
        · exact hfound.symm.trans ho
        · exact absurd rfl hnone
    | none =>
      refine (findSome?_ancestors f p y).trans ⟨?_, ?_⟩
      · rintro ⟨o, ho, hy⟩
        exact ⟨o, .inr ⟨Bool.false_ne_true, ho⟩, hy⟩
      · rintro ⟨o, ⟨hsome, -⟩ | ⟨-, ho⟩, hy⟩
        · cases hsome
        · exact ⟨o, ho, hy⟩
termination_by a.size - n
decreasing_by
  exact Nat.sub_lt_sub_left (Nat.lt_trans (h.lt_parent hp) (lt_size_of_mem (h.parent.mp hp)))
    (h.lt_parent hp)

lemma find?_ancestors {f : NodeId → Bool} (ho : a.Nearest (fun o => f o = true) n o) :
    (a.ancestors n).find? f = some o := by
  rw [List.find?_eq_findSome?_guard, h.findSome?_ancestors]
  refine ⟨o, (Nearest.congr fun q => ?_).mpr ho, Option.guard_eq_some_iff.mpr ⟨rfl, ho.passes⟩⟩
  rw [Option.isSome_guard]

lemma scopeAround_eq (ho : a.Nearest a.IsScope n o) : a.scopeAround n = o := by
  rw [scopeAround, h.find?_ancestors ho, Option.getD_some]

lemma hoistAround_eq (ho : a.Nearest a.IsHoist n o) : a.hoistAround n = o := by
  have htest : a.hoistAround n = ((a.ancestors n).find? fun p => (a.form p).isHoist).getD n := by
    unfold hoistAround
    congr 2
    funext p
    cases a.form p <;> rfl
  rw [htest, h.find?_ancestors ho, Option.getD_some]

/-- Every construct but a module is inside of one, and so of a scope. -/
lemma nearest_around (hrooted : a.Rooted) (hcovered : a.Covered) {form : Form NodeId}
    (hform : a.form n = form) (hempty : form ≠ .empty) (hother : ∀ body, form ≠ .module body) :
    a.Nearest a.IsHoist n (a.hoistAround n) ∧ a.Nearest a.IsScope n (a.scopeAround n) := by
  obtain ⟨r, ⟨source, hsource, rfl⟩, hbelow⟩ :=
    h.exists_root hcovered (lt_size_of_form (hform ▸ hempty))
  obtain ⟨m, hm⟩ := Array.mem_iff_getElem?.mp hsource
  obtain ⟨-, -, body, hmodule⟩ := hrooted m source hm
  have hhoist : a.IsHoist source.root := by rw [IsHoist, hmodule]; rfl
  obtain rfl | habove := Relation.reflTransGen_iff_eq_or_transGen.mp hbelow
  · exact absurd (hform.symm.trans hmodule) (hother body)
  · obtain ⟨o, ho⟩ := h.exists_nearest hhoist habove
    obtain ⟨q, hq⟩ := h.exists_nearest (isScope_of_isHoist source.root hhoist) habove
    rw [h.hoistAround_eq ho, h.scopeAround_eq hq]
    exact ⟨ho, hq⟩

/-! ## Patterns -/

lemma nearest_of_patternPart {root : NodeId} (hscope : ∀ m, test m → a.IsScope m)
    (hb : a.PatternPart root b) : a.Nearest test b o ↔ a.Nearest test root o := by
  induction hb with
  | self => rfl
  | @part m n _ hn ih =>
    have hp := h.parent.mpr (mem_children_of_mem_patternParts hn)
    have htest : ¬ test m := by
      intro htest
      rw [patternParts_of_isScope (hscope m htest)] at hn
      cases hn
    rw [h.nearest_of_parent hp, ← ih]
    simp [htest]

lemma parent_of_declarator {s d : NodeId} {kind : DeclKind}
    (hs : a.form s = .varDecl kind declarators) (hd : d ∈ declarators) : a.parent? d = some s :=
  h.parent.mpr (by rw [children, hs]; exact hd)

/-- No scope is between a binding and the statement that declares it. -/
lemma nearest_of_declarator {s d target : NodeId} {init : Option NodeId} {kind : DeclKind}
    (hscope : ∀ m, test m → a.IsScope m)
    (hs : a.form s = .varDecl kind declarators) (hd : d ∈ declarators)
    (htarget : a.form d = .declarator target init) (hb : a.PatternPart target b) :
    a.Nearest test b o ↔ a.Nearest test s o := by
  have hparent := h.parent_of_declarator hs hd
  have htop : a.parent? target = some d :=
    h.parent.mpr (by rw [children, htarget]; exact List.mem_cons_self)
  have hnots : ¬ test s := fun htest => by
    have hform := hscope s htest
    rw [IsScope, hs] at hform
    cases hform
  have hnotd : ¬ test d := fun htest => by
    have hform := hscope d htest
    rw [IsScope, htarget] at hform
    cases hform
  rw [h.nearest_of_patternPart hscope hb, h.nearest_of_parent htop, h.nearest_of_parent hparent]
  simp [hnots, hnotd]

lemma nearest_of_specifier {s : NodeId} {kind : ImportKind}
    (hs : a.form s = .importSpecifier kind b) :
    a.Nearest a.IsHoist b o ↔ a.Nearest a.IsHoist s o := by
  have hparent : a.parent? b = some s :=
    h.parent.mpr (by rw [children, hs]; exact List.mem_singleton.mpr rfl)
  have hnot : ¬ a.IsHoist s := by
    rw [IsHoist, hs]
    exact Bool.false_ne_true
  rw [h.nearest_of_parent hparent]
  simp [hnot]

end Forest

/-! ## One owner -/

/-- What owns the binding `b` of the pattern `root`, going by what its parent is. -/
def ownerAt (a : Arena) (root parent b : NodeId) : NodeId :=
  match a.form parent with
  | .declarator .. =>
    match (a.parent? parent).map a.form with
    | some (.varDecl .var _) => a.hoistAround b
    | _ => a.scopeAround b
  | .function name _ _ flags =>
    if name = some root ∧ flags.isDeclaration then a.scopeAround parent else parent
  | .importSpecifier .. => a.hoistAround b
  | _ => parent

/-- A variable with an owner is part of a pattern that is declared. -/
lemma OwnedBy.exists_site (hforest : a.Forest) (h : a.OwnedBy b o) :
    ∃ root parent, a.DeclaresAt root parent ∧ a.PatternPart root b ∧
      a.ownerAt root parent b = o := by
  unfold DeclaresAt ownerAt
  cases h with
  | @var s d target init declarators hs hd htarget hb ho =>
    refine ⟨target, d, ?_, hb, ?_⟩ <;> rw [htarget]
    simp only [hforest.parent_of_declarator hs hd, Option.map_some, hs]
    exact hforest.hoistAround_eq ho
  | @lexical s d target init kind declarators hs hkind hd htarget hb ho =>
    refine ⟨target, d, ?_, hb, ?_⟩ <;> rw [htarget]
    simp only [hforest.parent_of_declarator hs hd, Option.map_some, hs]
    cases kind with
    | var => exact absurd rfl hkind
    | _ => exact hforest.scopeAround_eq ho
  | @declared f body params flags hf hflags ho =>
    refine ⟨b, f, ?_, .self, ?_⟩ <;> rw [hf]
    · exact .inl rfl
    · simp [hflags, hforest.scopeAround_eq ho]
  | expression ho hflags =>
    refine ⟨b, o, ?_, .self, ?_⟩ <;> rw [ho]
    · exact .inl rfl
    · simp [hflags]
  | @parameter body param name params flags ho hparam hb =>
    refine ⟨param, o, ?_, hb, ?_⟩ <;> rw [ho]
    · exact .inr hparam
    · simp [name_ne_of_parameter hforest ho hparam]
  | @caught param body ho hb => refine ⟨param, o, ?_, hb, ?_⟩ <;> rw [ho]
  | @imported s kind hs ho =>
    refine ⟨b, s, ?_, .self, ?_⟩ <;> rw [hs]
    exact hforest.hoistAround_eq ho

/-- A binding has one owner at most. -/
lemma OwnedBy.eq (hforest : a.Forest) (htidy : a.Every Form.Tidy) {o' : NodeId}
    (h : a.OwnedBy b o) (h' : a.OwnedBy b o') : o = o' := by
  obtain ⟨root, parent, hdeclares, hb, rfl⟩ := h.exists_site hforest
  obtain ⟨root', parent', hdeclares', hb', rfl⟩ := h'.exists_site hforest
  obtain ⟨rfl, rfl⟩ := hdeclares.unique hforest htidy hb hdeclares' hb'
  rfl

/-! ## An owner for every binding -/

section Exists

variable {b m n : NodeId} {name : Symbol}

lemma Sits.of_binding {role : Role} (h : a.Sits role b) (hb : a.form b = .binding name) :
    a.Named b ∨ a.InPattern .declares b := by
  obtain ⟨⟨hroles, -⟩, hstands⟩ := h
  rw [hb] at hroles
  cases role with
  | name => exact .inl hstands
  | pattern mode | field mode =>
    cases (Option.ite_none_right_eq_some.mp hroles).1
    exact .inr hstands
  | _ => cases hroles

/-- A pattern that declares goes on where bindings are looked for. -/
lemma mem_patternParts_of_below (h : Fits a.form (.field .declares) m) (hn : n ∈ a.below m) :
    n ∈ a.patternParts m := by
  obtain ⟨hroles, -⟩ := h
  replace hroles : (a.form m).patternRoles .declares = _ := hroles
  unfold below at hn
  unfold patternParts
  generalize a.form m = form at hn hroles
  cases form with
  | binding | identifier | member | index => cases hn
  | objectPattern | arrayPattern | rest | property | assignPattern => exact hn
  | _ => cases hroles

/-- Whatever declares is inside of the pattern of a declarator, a parameter or a `catch`. -/
lemma InPattern.exists_root (hseated : a.Seated) (h : a.InPattern .declares b) :
    ∃ root, a.PatternPart root b ∧
      ((∃ d init, a.form d = .declarator root init) ∨
        (∃ f name params body flags, a.form f = .function name params body flags ∧ root ∈ params) ∨
        ∃ c body, a.form c = .catchClause (some root) body) := by
  generalize hmode : Mode.declares = mode at h
  induction h with
  | @declarator m target init h => exact ⟨target, .self, .inl ⟨m, init, h⟩⟩
  | @param m body param name params flags h hparam =>
    exact ⟨param, .self, .inr (.inl ⟨m, name, params, body, flags, h, hparam⟩)⟩
  | @caught m param body h => exact ⟨param, .self, .inr (.inr ⟨m, body, h⟩)⟩
  | head | assigned => cases hmode
  | part h hn ih =>
    subst hmode
    obtain ⟨root, hpart, hroot⟩ := ih rfl
    exact ⟨root, .part hpart (mem_patternParts_of_below (h.fits hseated) hn), hroot⟩

lemma Seated.exists_varDecl (h : a.Seated) {d target : NodeId} {init : Option NodeId}
    (hd : a.form d = .declarator target init) :
    ∃ s kind declarators, a.form s = .varDecl kind declarators ∧ d ∈ declarators := by
  obtain ⟨role, ⟨hroles, -⟩, hstands⟩ := h d (lt_size_of_form (by rw [hd]; simp))
  rw [hd] at hroles
  cases role with
  | declarator => exact hstands
  | _ => cases hroles

lemma Seated.exists_ownedBy (h : a.Seated) (hforest : a.Forest) (hrooted : a.Rooted)
    (hcovered : a.Covered) (hb : a.form b = .binding name) : ∃ o, a.OwnedBy b o := by
  obtain ⟨hhoist, hscope⟩ := hforest.nearest_around hrooted hcovered hb (by simp) (by simp)
  obtain ⟨role, hsits⟩ := h b (lt_size_of_form (by rw [hb]; simp))
  rcases hsits.of_binding hb with hnamed | hpattern
  · cases hnamed with
    | @function f body params flags hf =>
      cases hflags : flags.isDeclaration with
      | false => exact ⟨f, .expression hf hflags⟩
      | true =>
        exact ⟨_, .declared hf hflags
          (hforest.nearest_around hrooted hcovered hf (by simp) (by simp)).2⟩
    | imported hs => exact ⟨_, .imported hs hhoist⟩
  · obtain ⟨root, hpart, hroot⟩ := hpattern.exists_root h
    rcases hroot with ⟨d, init, hd⟩ | ⟨f, _, params, body, flags, hf, hparam⟩ | ⟨c, body, hc⟩
    · obtain ⟨s, kind, declarators, hs, hmem⟩ := h.exists_varDecl hd
      by_cases hkind : kind = .var
      · subst hkind
        exact ⟨_, .var hs hmem hd hpart hhoist⟩
      · exact ⟨_, .lexical hs hkind hmem hd hpart hscope⟩
    · exact ⟨f, .parameter hf hparam hpart⟩
    · exact ⟨c, .caught hc hpart⟩

end Exists

/-! ## Collected bindings -/

section Collect

variable {b o n : NodeId} {name : Symbol} {kind : BindingKind} {root : NodeId}

lemma PatternPart.cases_head (h : a.PatternPart root b) :
    b = root ∨ ∃ m ∈ a.patternParts root, a.PatternPart m b := by
  induction h with
  | self => exact .inl rfl
  | @part m n _ hn ih =>
    obtain rfl | ⟨c, hc, hm⟩ := ih
    · exact .inr ⟨n, hn, .self⟩
    · exact .inr ⟨c, hc, .part hm hn⟩

lemma mem_patternBindingsFrom_of_part {fuel : Nat} {m : NodeId} (hm : m ∈ a.patternParts n)
    (hb : b ∈ a.patternBindingsFrom fuel m) : b ∈ a.patternBindingsFrom (fuel + 1) n := by
  rw [patternBindingsFrom_succ]
  split
  · next hform =>
    rw [patternParts, hform] at hm
    cases hm
  · exact List.mem_flatMap.mpr ⟨m, hm, hb⟩

/-- Going down a pattern finds all its bindings. -/
lemma Forest.mem_patternBindings (h : a.Forest) (hb : a.form b = .binding name)
    (hpart : a.PatternPart root b) : b ∈ a.patternBindings root := by
  have hgo : ∀ fuel root, root < fuel → a.PatternPart root b →
      b ∈ a.patternBindingsFrom fuel root := by
    intro fuel
    induction fuel with
    | zero => exact fun root hroot => absurd hroot (Nat.not_lt_zero root)
    | succ fuel ih =>
      intro root hroot hpart
      obtain rfl | ⟨m, hm, hpart⟩ := hpart.cases_head
      · rw [patternBindingsFrom, hb]
        exact List.mem_singleton.mpr rfl
      · have hlt : m < fuel := Nat.lt_of_lt_of_le
          (h.lower (mem_children_of_mem_patternParts hm)) (Nat.le_of_lt_succ hroot)
        exact mem_patternBindingsFrom_of_part hm (ih m hlt hpart)
  exact hgo (root + 1) root .refl hpart

lemma Forest.mem_descendants (h : a.Forest) {r : NodeId} (hn : ReflTransGen a.Part r n) :
    n ∈ a.descendants r := by
  have hgo : ∀ fuel r, r < fuel → ReflTransGen a.Part r n → n ∈ a.descendantsFrom fuel r := by
    intro fuel
    induction fuel with
    | zero => exact fun r hr => absurd hr (Nat.not_lt_zero r)
    | succ fuel ih =>
      intro r hr hn
      rw [descendantsFrom]
      obtain rfl | ⟨c, hc, hn⟩ := hn.cases_head
      · exact List.mem_cons_self
      · have hlt : c < fuel := Nat.lt_of_lt_of_le (h.lower hc) (Nat.le_of_lt_succ hr)
        exact List.mem_cons_of_mem _ (List.mem_flatMap.mpr ⟨c, hc, ih c hlt hn⟩)
  exact hgo (r + 1) r .refl hn

/-- What a construct introduces is owned by the node that comes with it. -/
lemma ownedBy_of_mem_introductions (hforest : a.Forest) (hrooted : a.Rooted)
    (hcovered : a.Covered) (h : (b, kind, o) ∈ a.introductions n) : a.OwnedBy b o := by
  cases introduces_of_mem h with
  | name hn ho =>
    split at ho
    · next hflags =>
      subst ho
      exact .declared hn hflags (hforest.nearest_around hrooted hcovered hn (by simp) (by simp)).2
    · next hflags =>
      subst ho
      exact .expression hn (by simpa using hflags)
  | parameter hn hparam hb ho =>
    subst ho
    exact .parameter hn hparam hb
  | declarator hn hd htarget hb ho =>
    obtain ⟨hvar, hscope⟩ := hforest.nearest_around hrooted hcovered hn (by simp) (by simp)
    split at ho
    · next hkind =>
      subst ho hkind
      exact .var hn hd htarget hb
        ((hforest.nearest_of_declarator isScope_of_isHoist hn hd htarget hb).mpr hvar)
    · next hkind =>
      subst ho
      exact .lexical hn hkind hd htarget hb
        ((hforest.nearest_of_declarator (fun _ => id) hn hd htarget hb).mpr hscope)
  | caught hn hb ho =>
    subst ho
    exact .caught hn hb
  | imported hn ho =>
    subst ho
    exact .imported hn ((hforest.nearest_of_specifier hn).mpr
      (hforest.nearest_around hrooted hcovered hn (by simp) (by simp)).1)

/-- Every binding is introduced by a construct, together with its owner. -/
lemma OwnedBy.exists_mem_introductions (hforest : a.Forest) (hb : a.form b = .binding name)
    (h : a.OwnedBy b o) : ∃ n kind, (b, kind, o) ∈ a.introductions n := by
  have hpattern : ∀ {roots : List NodeId} {root : NodeId} {kind : BindingKind}, root ∈ roots →
      a.PatternPart root b →
      (b, kind, o) ∈ (roots.flatMap a.patternBindings).map fun b => (b, kind, o) := by
    intro roots root kind hroot hpart
    have hmem := hforest.mem_patternBindings hb hpart
    exact List.mem_map.mpr ⟨b, List.mem_flatMap.mpr ⟨root, hroot, hmem⟩, rfl⟩
  have hdeclarator : ∀ {d target : NodeId} {init : Option NodeId} {declarators : List NodeId},
      d ∈ declarators → a.form d = .declarator target init →
      target ∈ a.declaredPatterns declarators :=
    fun hd htarget => List.mem_filterMap.mpr ⟨_, hd, by rw [htarget]⟩
  cases h with
  | @var s d target init declarators hs hd htarget hpart ho =>
    refine ⟨s, .variable .var, ?_⟩
    rw [introductions, hs]
    have howner := hforest.hoistAround_eq
      ((hforest.nearest_of_declarator isScope_of_isHoist hs hd htarget hpart).mp ho)
    simp only [if_true, howner]
    exact hpattern (hdeclarator hd htarget) hpart
  | @lexical s d target init kind declarators hs hkind hd htarget hpart ho =>
    refine ⟨s, .variable kind, ?_⟩
    rw [introductions, hs]
    have howner := hforest.scopeAround_eq
      ((hforest.nearest_of_declarator (fun _ => id) hs hd htarget hpart).mp ho)
    simp only [if_neg hkind, howner]
    exact hpattern (hdeclarator hd htarget) hpart
  | @declared f body params flags hf hflags ho =>
    refine ⟨f, .function, ?_⟩
    rw [introductions, hf]
    simp [hflags, hforest.scopeAround_eq ho]
  | expression ho hflags =>
    refine ⟨o, .function, ?_⟩
    rw [introductions, ho]
    simp [hflags]
  | parameter ho hparam hpart =>
    refine ⟨o, .parameter, ?_⟩
    rw [introductions, ho]
    exact List.mem_append_right _ (hpattern hparam hpart)
  | caught ho hpart =>
    refine ⟨o, .catchParameter, ?_⟩
    rw [introductions, ho]
    exact hpattern (Option.mem_toList.mpr rfl) hpart
  | @imported s kind hs ho =>
    refine ⟨s, .imported, ?_⟩
    rw [introductions, hs, hforest.hoistAround_eq ((hforest.nearest_of_specifier hs).mp ho)]
    exact List.mem_singleton.mpr rfl

/-- The bindings that are collected come with their owners. -/
lemma exists_mem_allIntroductions_iff (hforest : a.Forest) (hrooted : a.Rooted)
    (hcovered : a.Covered) (hb : a.form b = .binding name) :
    (∃ kind, (b, kind, o) ∈ a.allIntroductions) ↔ a.OwnedBy b o := by
  constructor
  · rintro ⟨kind, h⟩
    obtain ⟨m, -, h⟩ := List.mem_flatMap.mp h
    obtain ⟨n, -, h⟩ := List.mem_flatMap.mp h
    exact ownedBy_of_mem_introductions hforest hrooted hcovered h
  · intro h
    obtain ⟨n, kind, hn⟩ := h.exists_mem_introductions hforest hb
    have hlt : n < a.size := by
      refine lt_size_of_form fun hempty => ?_
      rw [introductions, hempty] at hn
      cases hn
    obtain ⟨r, ⟨source, hsource, rfl⟩, hbelow⟩ := hforest.exists_root hcovered hlt
    exact ⟨kind, List.mem_flatMap.mpr ⟨source, Array.mem_toList_iff.mpr hsource,
      List.mem_flatMap.mpr ⟨n, hforest.mem_descendants hbelow, hn⟩⟩⟩

end Collect

end Arena

end ValueFlow
