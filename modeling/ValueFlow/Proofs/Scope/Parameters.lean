import ValueFlow.Proofs.Scope.Lexical

/-!
# Parameters

A function owns its parameters and the variables of its body, and its own name as well if it
is an expression. Bindings of one name share one declaration, which is made for the first of
them. Nodes are listed before the nodes under them, so that the first one is a binding of the
function itself: its own name if it is that, and a parameter otherwise.
-/

namespace ValueFlow

open Relation (ReflTransGen TransGen)

namespace Arena

variable {a : Arena} {n b o : NodeId} {kind : BindingKind} {x : Symbol}

/-! ## The order of nodes -/

/-- A prefix of lists that are put together is made of prefixes of them. -/
lemma exists_of_mem_prefix_flatMap {α β : Type} {f : α → List β} {xs : List α} {before : List β}
    (h : before <+: xs.flatMap f) {y : β} (hy : y ∈ before) :
    ∃ x ∈ xs, ∃ own, own <+: f x ∧ y ∈ own ∧ own ⊆ before := by
  induction xs generalizing before with
  | nil =>
    cases List.prefix_nil.mp h
    cases hy
  | cons x xs ih =>
    obtain ⟨rest, hrest⟩ := h
    obtain ⟨own, hown, -⟩ | ⟨more, rfl, hmore⟩ := List.append_eq_append_iff.mp hrest
    · exact ⟨x, .head _, before, ⟨own, hown.symm⟩, hy, List.Subset.refl _⟩
    · obtain hy | hy := List.mem_append.mp hy
      · exact ⟨x, .head _, f x, List.prefix_rfl, hy, List.subset_append_left _ _⟩
      · obtain ⟨z, hz, own, hown, hmem, hsub⟩ := ih ⟨rest, hmore.symm⟩ hy
        exact ⟨z, .tail _ hz, own, hown, hmem, fun _ h => List.mem_append_right _ (hsub h)⟩

lemma Forest.parent_mem_of_prefix (h : a.Forest) (fuel : Nat) {r m p : NodeId}
    {before : List NodeId} (hbefore : before <+: a.descendantsFrom fuel r) (hm : m ∈ before)
    (hp : a.Part p m) : m = r ∨ p ∈ before := by
  induction fuel generalizing r before with
  | zero =>
    cases List.prefix_nil.mp hbefore
    cases hm
  | succ fuel ih =>
    obtain rfl | ⟨rest, rfl, hrest⟩ := List.prefix_cons_iff.mp hbefore
    · cases hm
    obtain rfl | hm := List.mem_cons.mp hm
    · exact .inl rfl
    · obtain ⟨c, hc, own, hown, hm, hsub⟩ := exists_of_mem_prefix_flatMap hrest hm
      obtain rfl | hp' := ih hown hm
      · exact .inr (Option.some.inj ((h.parent.mpr hp).symm.trans (h.parent.mpr hc)) ▸ .head _)
      · exact .inr (.tail _ (hsub hp'))

/-- The nodes of all modules, as they are looked through for declarations. -/
def listed (a : Arena) : List NodeId := a.modules.toList.flatMap fun m => a.descendants m.root

lemma allIntroductions_eq (a : Arena) : a.allIntroductions = a.listed.flatMap a.introductions :=
  List.flatMap_assoc.symm

def NamesItself (a : Arena) (n : NodeId) (x : Symbol) : Prop :=
  ∃ own params body flags, a.form n = .function (some own) params body flags ∧
    flags.isDeclaration = false ∧ a.form own = .binding x

section Order

variable (hforest : a.Forest) (hrooted : a.Rooted)
include hforest hrooted

lemma mem_of_prefix_listed {m : NodeId} {before : List NodeId} (hbefore : before <+: a.listed)
    (hm : m ∈ before) (hn : TransGen a.Part n m) : n ∈ before := by
  have hparent : ∀ {p m}, a.Part p m → m ∈ before → p ∈ before := by
    intro p m hp hm
    obtain ⟨source, hsource, own, hown, hm, hsub⟩ := exists_of_mem_prefix_flatMap hbefore hm
    obtain ⟨i, hi⟩ := Array.mem_iff_getElem?.mp (Array.mem_toList_iff.mp hsource)
    obtain rfl | hp' := hforest.parent_mem_of_prefix _ hown hm hp
    · cases (hforest.parent.mpr hp).symm.trans (hrooted i source hi).2.1
    · exact hsub hp'
  induction hn with
  | single hp => exact hparent hp hm
  | tail _ hp ih => exact ih (hparent hp hm)

variable (hcovered : a.Covered)
include hcovered

lemma owner_of_mem_introductions (h : (b, kind, o) ∈ a.introductions n) :
    o = n ∨ TransGen a.Part o n := by
  cases introduces_of_mem h with
  | name hn ho =>
    split at ho
    · exact .inr (ho ▸ (hforest.nearest_around hrooted hcovered hn (by simp) (by simp)).2.above)
    · exact .inl ho
  | declarator hn _ _ _ ho =>
    obtain ⟨hhoist, hscope⟩ := hforest.nearest_around hrooted hcovered hn (by simp) (by simp)
    split at ho
    · exact .inr (ho ▸ hhoist.above)
    · exact .inr (ho ▸ hscope.above)
  | imported hn ho =>
    exact .inr (ho ▸ (hforest.nearest_around hrooted hcovered hn (by simp) (by simp)).1.above)
  | parameter _ _ _ ho | caught _ _ ho => exact .inl ho

/-- Nothing is declared for a node before the names that it introduces itself. -/
lemma exists_declared_before (h : (b, kind, n) ∈ a.introductions n) :
    ∃ before, (∀ d ∈ before, d.scope ≠ n) ∧
      ∀ d ∈ (a.introductions n).foldl a.declare before, d ∈ a.declarations := by
  have hlisted : n ∈ a.listed := by
    obtain ⟨r, ⟨source, hsource, rfl⟩, hbelow⟩ := hforest.exists_root hcovered
      (n := n) (lt_size_of_form fun hempty => by rw [introductions, hempty] at h; cases h)
    exact List.mem_flatMap.mpr ⟨source, Array.mem_toList_iff.mpr hsource,
      hforest.mem_descendants hbelow⟩
  obtain ⟨before, after, heq, hnew⟩ := List.eq_append_cons_of_mem hlisted
  refine ⟨(before.flatMap a.introductions).foldl a.declare #[], fun d hd hscope => ?_,
    fun d hd => ?_⟩
  · obtain hd | ⟨hintro, -⟩ := introduced_of_mem_foldl hd
    · cases Array.not_mem_empty d hd
    · obtain ⟨m, hm, hintro⟩ := List.mem_flatMap.mp hintro
      rw [hscope] at hintro
      obtain rfl | habove := owner_of_mem_introductions hforest hrooted hcovered hintro
      · exact hnew hm
      · exact hnew (mem_of_prefix_listed hforest hrooted ⟨_, heq.symm⟩ hm habove)
  · rw [declarations, allIntroductions_eq, heq, List.flatMap_append, List.flatMap_cons,
      List.foldl_append, List.foldl_append]
    exact mem_foldl_declare hd _

variable {name : Option NodeId} {params : List NodeId} {body : NodeId} {flags : FunctionFlags}

/-- The name of a function expression comes before its parameters. -/
lemma mem_declarations_of_namesItself (hn : a.NamesItself n x) :
    ∃ own params body flags, a.form n = .function (some own) params body flags ∧
      ⟨x, .function, own, n⟩ ∈ a.declarations := by
  obtain ⟨own, params, body, flags, hf, hflags, hown⟩ := hn
  have hintros : a.introductions n = (own, .function, n) ::
      (params.flatMap a.patternBindings).map fun b => (b, .parameter, n) := by
    rw [introductions, hf]
    simp [hflags]
  have hintro : (own, .function, n) ∈ a.introductions n := hintros ▸ .head _
  obtain ⟨before, hbefore, hafter⟩ := exists_declared_before hforest hrooted hcovered hintro
  refine ⟨own, params, body, flags, hf, hafter _ ?_⟩
  rw [hintros, List.foldl_cons]
  exact mem_foldl_declare (mem_declare.mpr (.inr ⟨hown, rfl, fun e he hscope =>
    absurd hscope (hbefore e he)⟩)) _

lemma exists_parameter (hf : a.form n = .function name params body flags)
    (hb : b ∈ params.flatMap a.patternBindings) (hx : a.form b = .binding x)
    (hnot : ¬ a.NamesItself n x) :
    ∃ c ∈ params.flatMap a.patternBindings, ⟨x, .parameter, c, n⟩ ∈ a.declarations := by
  have hintros : a.introductions n = (name.toList.map fun b =>
      (b, .function, if flags.isDeclaration then a.scopeAround n else n)) ++
      (params.flatMap a.patternBindings).map fun b => (b, .parameter, n) := by
    rw [introductions, hf]
  have hintro : (b, .parameter, n) ∈ a.introductions n :=
    hintros ▸ List.mem_append_right _ (List.mem_map_of_mem hb)
  obtain ⟨before, hbefore, hafter⟩ := exists_declared_before hforest hrooted hcovered hintro
  obtain ⟨d, hd, rfl, rfl⟩ : ∃ d ∈ (a.introductions n).foldl a.declare before, _ :=
    exists_of_introduced hintro hx
  obtain ⟨hmem, hform⟩ := (introduced_of_mem_foldl hd).resolve_left fun hd => hbefore d hd rfl
  rw [hintros] at hmem
  obtain hmem | hmem := List.mem_append.mp hmem
  · obtain ⟨own, hown, heq⟩ := List.mem_map.mp hmem
    obtain ⟨rfl, -, hscope⟩ : own = d.binding ∧ _ ∧ _ := by simpa using heq
    obtain rfl := Option.mem_toList.mp hown
    cases hflags : flags.isDeclaration with
    | false => exact absurd ⟨_, _, _, _, hf, hflags, hform⟩ hnot
    | true =>
      have habove := (hforest.nearest_around hrooted hcovered hf (by simp) (by simp)).2.above
      exact absurd (hforest.lt_of_below habove) (by
        rw [hscope hflags]
        exact Nat.lt_irrefl _)
  · obtain ⟨c, hc, heq⟩ := List.mem_map.mp hmem
    refine ⟨c, hc, ?_⟩
    obtain ⟨name, kind, binding, scope⟩ := d
    cases heq
    exact hafter _ hd

end Order

end Arena

lemma Scopes.Lexical.decl_eq {s : Scopes} {a : Arena} (h : s.Lexical a) {id : DeclId} {d : Decl}
    (hid : s.Declares id d.scope d.name) (hd : d ∈ s.decls) : s.decl id = d := by
  obtain ⟨i, hi⟩ := Array.mem_iff_getElem?.mp hd
  have hdecl : s.decl i = d := by rw [decl, Array.getD_eq_getD_getElem?, hi, Option.getD_some]
  rw [h.unique hid ⟨(Array.getElem?_eq_some_iff.mp hi).1, by rw [hdecl], by rw [hdecl]⟩, hdecl]

/-- **Parameters shadow.** The declaration of a parameter starts at a parameter of the same
function, and inside the function a reference to the name has another declaration than the
function's own name; except in a function expression that has the name itself, where the
declaration is that of the function. -/
theorem Program.parameters_shadow {sources : Sources} {p : Program}
    (h : build sources = .ok p) {n body : NodeId} {name : Option NodeId} {params : List NodeId}
    {flags : FunctionFlags} (hf : p.arena.form n = .function name params body flags) {b : NodeId}
    (hb : b ∈ params.flatMap p.arena.patternBindings) {x : Symbol}
    (hx : p.arena.form b = .binding x) :
    ∃ id, p.scopes.symbolAt b = some id ∧ p.scopes.Declares id n x ∧
      (p.arena.NamesItself n x →
        (p.scopes.decl id).kind = .function ∧ name = some (p.scopes.decl id).binding) ∧
      (¬ p.arena.NamesItself n x →
        (p.scopes.decl id).kind = .parameter ∧
        (p.scopes.decl id).binding ∈ params.flatMap p.arena.patternBindings ∧
        ∀ r, p.arena.form r = .identifier x → TransGen p.arena.Part n r →
          ∃ id', p.scopes.symbolAt r = some id' ∧ ∀ own y, name = some own →
            p.arena.form own = .binding y → p.scopes.symbolAt own ≠ some id') := by
  have hbuilt := built_of_build h
  obtain ⟨hforest, hrooted, hcovered, -⟩ := hbuilt.parsed
  have hlexical : p.scopes.Lexical p.arena := by
    rw [hbuilt.resolved]
    exact Scopes.lexical_ofCodebase hforest hbuilt.parsed.tidy hrooted hcovered hbuilt.parsed.seated
  have hdecls : p.scopes.decls = p.arena.declarations := by rw [hbuilt.resolved]; rfl
  obtain ⟨param, hparam, hpart⟩ := List.mem_flatMap.mp hb
  have howned : p.arena.OwnedBy b n := .parameter hf hparam (Arena.part_of_mem_patternBindings hpart)
  obtain ⟨id, hsymbol, hid⟩ := hlexical.binding hx howned
  have hdecl : ∀ {kind c}, ⟨x, kind, c, n⟩ ∈ p.arena.declarations →
      p.scopes.decl id = ⟨x, kind, c, n⟩ := fun hd => hlexical.decl_eq hid (hdecls ▸ hd)
  refine ⟨id, hsymbol, hid, fun hself => ?_, fun hnot => ?_⟩
  · obtain ⟨own, _, _, _, hf', hd⟩ :=
      Arena.mem_declarations_of_namesItself hforest hrooted hcovered hself
    cases hf.symm.trans hf'
    rw [hdecl hd]
    exact ⟨rfl, rfl⟩
  obtain ⟨c, hc, hd⟩ := Arena.exists_parameter hforest hrooted hcovered hf hb hx hnot
  rw [hdecl hd]
  refine ⟨rfl, hc, fun r hr hbelow => ?_⟩
  have howns : p.arena.OwnsName x n := ⟨b, hx, howned⟩
  obtain ⟨q, hq⟩ := hforest.exists_nearest howns hbelow
  obtain ⟨c, hc, hcq⟩ := hq.passes
  obtain ⟨id', -, hid'⟩ := hlexical.binding hc hcq
  refine ⟨id', (hlexical.resolved hr id').mpr ⟨q, hq, hid'⟩, ?_⟩
  rintro own y rfl hown heq
  -- the name of a declaration is owned further up, and that of an expression is another one
  cases hflags : flags.isDeclaration with
  | false =>
    obtain ⟨_, hid'', -, -, hname⟩ := hlexical.binding hown (.expression hf hflags)
    cases heq.symm.trans hid''
    exact hnot ⟨_, _, _, _, hf, hflags, hid'.name.symm.trans hname ▸ hown⟩
  | true =>
    have hscope := (hforest.nearest_around hrooted hcovered hf (by simp) (by simp)).2
    obtain ⟨_, hid'', -, hscope', -⟩ := hlexical.binding hown (.declared hf hflags hscope)
    cases heq.symm.trans hid''
    have hle := hforest.le_of_below (hq.inner n howns hbelow)
    rw [hid'.scope.symm.trans hscope'] at hle
    exact absurd (hforest.lt_of_below hscope.above) (Nat.not_lt.mpr hle)

/-- A function declaration and a parameter of one name. -/
theorem Program.parameters_shadow_of_declaration : ∃ p,
    build [("a.ts", "function f(f) { f; }")] = .ok p ∧
      (p.arena.form 5 = .function (some 0) [1] 4 ⟨false, false, true, false⟩ ∧
        1 ∈ [1].flatMap p.arena.patternBindings ∧ p.arena.form 1 = .binding 0) ∧
      ∃ id, p.scopes.symbolAt 1 = some id ∧ (p.scopes.decl id).kind = .parameter := by
  refine exists_of_test_and (by decide +kernel) fun h ⟨hf, hb, hx⟩ => ?_
  obtain ⟨id, hid, -, -, hkind⟩ := parameters_shadow h hf hb hx
  refine ⟨id, hid, (hkind ?_).1⟩
  rintro ⟨_, _, _, _, hf', hflags, -⟩
  cases hf.symm.trans hf'
  cases hflags

/-- The parameter of a function expression of the same name, and the reference to it, have the
declaration of the function. -/
theorem Program.parameter_shares_own_name : ∃ p,
    build [("a.ts", "(function f(f) { f; });")] = .ok p ∧
      p.arena.form 5 = .function (some 0) [1] 4 ⟨false, false, false, false⟩ ∧
      p.arena.form 2 = .identifier 0 ∧ [0, 1, 2].map p.scopes.symbolAt = [some 0, some 0, some 0] ∧
      (p.scopes.decl 0).kind = .function ∧ (p.scopes.decl 0).binding = 0 :=
  exists_of_test _ _ (by decide +kernel)

end ValueFlow
