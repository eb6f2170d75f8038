import ValueFlow.Proofs.Scope.Inside

/-!
# The functions around a point

The functions around a node, innermost first, form a *chain*: behind each of
them come the functions around it. Most steps from one node to another stay
within one function, so the chain stays the same; the others enter a function
from the node that stands for it, or leave functions for a name that is owned
further out. In either case one of the two chains is the end of the other.
-/

namespace ValueFlow

namespace Arena

variable {a : Arena} {n : NodeId}

/-- The functions around some point. -/
def Chain (a : Arena) (chain : List NodeId) : Prop :=
  chain = [] ∨ ∃ f, a.isFunction f = true ∧ chain = a.functionsWithin f

/-- One chain is the end of the other. -/
def Nested (chain other : List NodeId) : Prop := chain <:+ other ∨ other <:+ chain

def Under (a : Arena) (chain : List NodeId) (n : NodeId) : Prop :=
  n < a.size ∧ a.functionsAround n = chain

lemma nested_self (chain : List NodeId) : Nested chain chain := .inl (List.suffix_refl chain)

lemma functionsWithin_of_function {f : NodeId} (hf : a.isFunction f = true) :
    a.functionsWithin f = f :: a.functionsAround f := if_pos hf

lemma functionsWithin_of_not (hn : a.isFunction n = false) :
    a.functionsWithin n = a.functionsAround n := if_neg (by simp [hn])

lemma around_suffix_within (n : NodeId) : a.functionsAround n <:+ a.functionsWithin n := by
  unfold functionsWithin
  split
  · exact List.suffix_cons n _
  · exact List.suffix_refl _

lemma chain_nil : a.Chain [] := .inl rfl

/-- The chain is that of the names which a pattern introduces: that of the
pattern, or else that of the function which it names. -/
def Owns (a : Arena) (root parent : NodeId) (chain : List NodeId) : Prop :=
  chain = a.functionsAround root ∨
    ∃ params body flags, a.form parent = .function (some root) params body flags ∧
      chain = a.functionsAround parent

lemma form_of_isBinding (h : (a.form n).isBinding = true) (name : Symbol) :
    a.form n ≠ .identifier name := by
  intro hform
  rw [hform] at h
  cases h

namespace Forest

variable (h : Forest a) {n p f call : NodeId} {chain : List NodeId} {c : NodeId}
  {form : Form NodeId} {d : NodeId}
include h

/-! ## Parts and wholes -/

lemma functionsAround_of_none (hn : (a.node n).function = none) : a.functionsAround n = [] := by
  rw [functionsAround, (h.depth_eq n).2 hn, functionsFrom]

lemma functionsAround_of_parent (hp : a.parent? n = some p) :
    a.functionsAround n = a.functionsWithin p := by
  rcases h.around_parent hp with ⟨hf, hfunction, -⟩ | ⟨hf, hfunction, hdepth⟩
  · rw [h.functionsAround_of_function hfunction, functionsWithin_of_function hf]
  · rw [functionsWithin_of_not hf]
    cases hnone : (a.node p).function with
    | none =>
      rw [h.functionsAround_of_none hnone, h.functionsAround_of_none (hfunction.trans hnone)]
    | some f =>
      rw [h.functionsAround_of_function hnone,
        h.functionsAround_of_function (hfunction.trans hnone)]

lemma functionsAround_of_part (hc : c ∈ (a.form n).children) :
    a.functionsAround c = a.functionsWithin n :=
  h.functionsAround_of_parent (h.parent.mpr hc)

lemma functionsAround_of_top (hn : a.parent? n = none) : a.functionsAround n = [] :=
  h.functionsAround_of_none (h.top hn).1

/-! ## Chains -/

lemma chain_around (n : NodeId) : a.Chain (a.functionsAround n) := by
  cases hf : (a.node n).function with
  | none => exact .inl (h.functionsAround_of_none hf)
  | some f =>
    have hfunction := ((h.depth_eq n).1 f hf).1
    refine .inr ⟨f, hfunction, ?_⟩
    rw [h.functionsAround_of_function hf, functionsWithin_of_function hfunction]

lemma chain_within (n : NodeId) : a.Chain (a.functionsWithin n) := by
  cases hn : a.isFunction n with
  | true => exact .inr ⟨n, hn, rfl⟩
  | false =>
    rw [functionsWithin_of_not hn]
    exact h.chain_around n

/-- What comes behind a function in a chain are the functions around it. -/
lemma drop_of_getElem? (hchain : a.Chain chain) {i : Nat} (hf : chain[i]? = some f) :
    a.isFunction f = true ∧ chain.drop i = a.functionsWithin f := by
  induction i generalizing chain with
  | zero =>
    obtain rfl | ⟨g, hg, rfl⟩ := hchain
    · exact nomatch hf
    · rw [functionsWithin_of_function hg] at hf
      cases hf
      exact ⟨hg, rfl⟩
  | succ i ih =>
    obtain rfl | ⟨g, hg, rfl⟩ := hchain
    · exact nomatch hf
    · rw [functionsWithin_of_function hg] at hf ⊢
      exact ih (h.chain_around g) hf

lemma within_suffix_of_mem (hchain : a.Chain chain) (hf : f ∈ chain) :
    a.functionsWithin f <:+ chain := by
  obtain ⟨i, hi⟩ := List.getElem?_of_mem hf
  rw [← (h.drop_of_getElem? hchain hi).2]
  exact List.drop_suffix i chain

lemma isFunction_of_mem_chain (hchain : a.Chain chain) (hf : f ∈ chain) :
    a.isFunction f = true := by
  obtain ⟨i, hi⟩ := List.getElem?_of_mem hf
  exact (h.drop_of_getElem? hchain hi).1

/-- The functions around a node are around everything that is inside of it. -/
lemma within_suffix_of_mem_ancestors (hp : p ∈ a.ancestors n) :
    a.functionsWithin p <:+ a.functionsAround n := by
  unfold ancestors at hp
  generalize a.size = fuel at hp
  induction fuel generalizing n with
  | zero => cases hp
  | succ fuel ih =>
    unfold ancestorsFrom at hp
    split at hp
    · next q hq =>
      rw [h.functionsAround_of_parent hq]
      obtain rfl | hp := List.mem_cons.mp hp
      · exact List.suffix_refl _
      · exact (ih hp).trans (around_suffix_within q)
    · cases hp

/-- A search outwards for a node, which stops at functions, stays within one
function. If it finds nothing it ends where it began. -/
lemma within_of_find_ancestors {test : NodeId → Bool}
    (htest : ∀ p, a.isFunction p = true → test p = true) (n : NodeId) :
    ((a.ancestors n).find? test).getD n = n ∨
      a.functionsWithin (((a.ancestors n).find? test).getD n) = a.functionsAround n := by
  have hfound : ∀ fuel n p, (a.ancestorsFrom fuel n).find? test = some p →
      a.functionsWithin p = a.functionsAround n := by
    intro fuel
    induction fuel with
    | zero => exact fun _ _ hp => nomatch hp
    | succ fuel ih =>
      intro n p hp
      unfold ancestorsFrom at hp
      split at hp
      · next q hq =>
        rw [h.functionsAround_of_parent hq]
        rw [List.find?_cons] at hp
        split at hp
        · cases hp
          rfl
        · next hq =>
          have hnot : a.isFunction q = false := by
            by_contra hf
            rw [htest q (by simpa using hf)] at hq
            cases hq
          rw [functionsWithin_of_not hnot]
          exact ih q p hp
      · cases hp
  cases hp : (a.ancestors n).find? test with
  | none => exact .inl rfl
  | some p => exact .inr (hfound _ n p hp)

lemma within_scopeAround (n : NodeId) :
    a.scopeAround n = n ∨ a.functionsWithin (a.scopeAround n) = a.functionsAround n := by
  refine h.within_of_find_ancestors (fun p hp => ?_) n
  unfold isFunction at hp
  cases hform : a.form p <;> rw [hform] at hp <;> first | rfl | cases hp

lemma within_hoistAround (n : NodeId) :
    a.hoistAround n = n ∨ a.functionsWithin (a.hoistAround n) = a.functionsAround n := by
  refine h.within_of_find_ancestors (fun p hp => ?_) n
  unfold isFunction at hp
  cases hform : a.form p <;> rw [hform] at hp <;> first | rfl | cases hp

/-! ## Steps within one function -/

lemma under_of_part (hform : a.form n = form) (hc : c ∈ form.children)
    (hn : form.isFunction = false) : a.Under (a.functionsAround n) c := by
  subst hform
  refine ⟨h.lt_size_of_part hc, ?_⟩
  rw [h.functionsAround_of_part hc, functionsWithin_of_not hn]

lemma under_of_parent (hp : a.parent? n = some p) (hform : a.form p = form)
    (hn : form.isFunction = false) : a.Under (a.functionsAround n) p :=
  ⟨h.lt_size_of_parent hp, (h.under_of_part hform (hform ▸ h.parent.mp hp) hn).2.symm⟩

lemma around_of_mem_localFrom {fuel : Nat} (hd : d ∈ a.localFrom fuel n) :
    a.functionsAround d = a.functionsAround n := by
  induction fuel generalizing n with
  | zero => cases hd
  | succ fuel ih =>
    unfold localFrom at hd
    split at hd
    · rw [List.mem_singleton.mp hd]
    · next hn =>
      obtain rfl | hd := List.mem_cons.mp hd
      · rfl
      · obtain ⟨c, hc, hd⟩ := List.mem_flatMap.mp hd
        rw [ih hd]
        exact (h.under_of_part rfl hc (by simpa [isFunction] using hn)).2

lemma around_of_mem_localDescendants (hn : a.isFunction n = false) (hd : d ∈ a.localDescendants n) :
    a.functionsAround d = a.functionsAround n := by
  obtain rfl | hd := List.mem_cons.mp hd
  · rfl
  · obtain ⟨c, hc, hd⟩ := List.mem_flatMap.mp hd
    rw [h.around_of_mem_localFrom hd]
    exact (h.under_of_part rfl hc hn).2

lemma under_of_callParts {callee : NodeId} {arguments : List NodeId}
    (hparts : (a.form call).callParts? = some (callee, arguments)) (hc : c = callee ∨ c ∈ arguments) :
    a.Under (a.functionsAround call) c := by
  cases hform : a.form call with
  | call | new =>
    rw [hform] at hparts
    cases hparts
    exact h.under_of_part hform (List.mem_cons.mpr hc) rfl
  | _ =>
    rw [hform] at hparts
    exact nomatch hparts

lemma under_of_calleeOf? (hcall : a.calleeOf? n = some call) :
    a.Under (a.functionsAround n) call := by
  obtain ⟨p, hp, hcall⟩ := Option.bind_eq_some_iff.mp hcall
  obtain ⟨⟨callee, arguments⟩, hparts, hcall⟩ := Option.bind_eq_some_iff.mp hcall
  dsimp only at hcall
  split at hcall
  · next heq =>
    cases hcall
    exact ⟨h.lt_size_of_parent hp, (h.under_of_callParts hparts (.inl heq.symm)).2.symm⟩
  · exact nomatch hcall

lemma under_of_argumentOf? {position : NodeId} (hcall : a.argumentOf? n = some (call, position)) :
    a.Under (a.functionsAround n) call := by
  obtain ⟨p, hp, hcall⟩ := Option.bind_eq_some_iff.mp hcall
  obtain ⟨⟨callee, arguments⟩, hparts, hcall⟩ := Option.bind_eq_some_iff.mp hcall
  obtain ⟨i, hi, hcall⟩ := Option.bind_eq_some_iff.mp hcall
  cases hcall
  obtain ⟨hlt, hn, -⟩ := List.findIdx?_eq_some_iff_getElem.mp hi
  have hmem : n ∈ arguments := of_decide_eq_true hn ▸ List.getElem_mem hlt
  exact ⟨h.lt_size_of_parent hp, (h.under_of_callParts hparts (.inr hmem)).2.symm⟩

lemma under_of_assignedValue? {target value : NodeId}
    (hvalue : a.assignedValue? target = some value) :
    a.Under (a.functionsAround target) value := by
  obtain ⟨p, hp, hvalue⟩ := Option.bind_eq_some_iff.mp hvalue
  -- the value is a part of the assignment
  have hassign : ∀ {op assigned stored}, a.form p = .assign op assigned stored →
      (if assigned = target then some stored else none) = some value →
      a.Under (a.functionsAround target) value := by
    intro op assigned stored hform hstored
    split at hstored
    · cases hstored
      rw [← (h.under_of_parent hp hform rfl).2]
      exact h.under_of_part hform (by simp [Form.children]) rfl
    · cases hstored
  split at hvalue
  · next hform => exact hassign hform hvalue
  · next hform => exact hassign hform hvalue
  · cases hvalue

/-- What is thrown in a function is caught there, by a variable. -/
lemma caught_of_catchBinding? {b : NodeId} (hb : a.catchBinding? n = some b) :
    a.functionsAround b = a.functionsAround n ∧ (a.form b).isBinding = true ∧
      ∃ clause body, a.form clause = .catchClause (some b) body := by
  have hgo : ∀ fuel n, catchBinding?.go a n (a.ancestorsFrom fuel n) = some b →
      a.functionsAround b = a.functionsAround n ∧ (a.form b).isBinding = true ∧
        ∃ clause body, a.form clause = .catchClause (some b) body := by
    intro fuel
    induction fuel with
    | zero => exact fun _ hb => nomatch hb
    | succ fuel ih =>
      intro n hb
      unfold ancestorsFrom at hb
      split at hb
      · next p hp =>
        unfold catchBinding?.go at hb
        split at hb
        · cases hb
        · next block handler _ hform =>
          have hsame := (h.under_of_parent hp hform rfl).2
          split at hb
          · split at hb
            · next param _ hclause =>
              split at hb
              · next hbinding =>
                cases hb
                refine ⟨?_, hbinding, handler, _, hclause⟩
                rw [(h.under_of_part hclause (by simp [Form.children]) rfl).2,
                  (h.under_of_part hform (by simp [Form.children]) rfl).2, hsame]
              · cases hb
            · cases hb
          · rw [← hsame]
            exact ih p hb
        · next hfunction _ =>
          have hnot : a.isFunction p = false := by
            cases hform : a.form p <;> first
              | exact absurd hform (hfunction _ _ _ _)
              | rw [isFunction, hform]; rfl
          rw [← (h.under_of_parent hp rfl hnot).2]
          exact ih p hb
      · cases hb
  exact hgo _ n hb

section Tidy

variable (htidy : a.Every Form.Tidy) {name : Option NodeId} {params : List NodeId}
  {flags : FunctionFlags}
include htidy

omit h in
lemma isFunction_body {body : NodeId} (hform : a.form f = .function name params body flags)
    (hflags : flags.expressionBody = false) : a.isFunction body = false := by
  have hsorted := (htidy f (lt_size_of_form (by simp [hform]))).sorted
  rw [children, hform] at hsorted
  have hbody := hsorted.2 hflags (a.form body).shape (by simp [Form.children])
  rwa [Form.isFunction_shape] at hbody

omit h in
/-- A parameter is no reference. -/
lemma form_of_param {body param : NodeId} (hform : a.form f = .function name params body flags)
    (hparam : param ∈ params) (s : Symbol) : a.form param ≠ .identifier s := by
  have hsorted := (htidy f (lt_size_of_form (by simp [hform]))).sorted
  rw [children, hform] at hsorted
  have hkind := hsorted.1 (a.form param).shape (by
    rw [Form.children, List.map_append, List.map_singleton, List.dropLast_concat]
    exact List.mem_map_of_mem (List.mem_append_right _ hparam))
  rw [Form.isReference_shape] at hkind
  intro hreference
  rw [hreference] at hkind
  cases hkind

omit h in
lemma isFunction_block {block : NodeId} {handler finalizer : Option NodeId}
    (hform : a.form n = .tryStmt block handler finalizer) : a.isFunction block = false := by
  have hsorted := (htidy n (lt_size_of_form (by simp [hform]))).sorted
  rw [children, hform] at hsorted
  have hblock := hsorted (a.form block).shape (by simp [Form.children])
  rwa [Form.isFunction_shape] at hblock

lemma under_of_mem_returnedValues {value : NodeId} (hvalue : value ∈ a.returnedValues f) :
    a.Under (a.functionsWithin f) value := by
  unfold returnedValues at hvalue
  split at hvalue
  · next body flags hform =>
    have hbody : body ∈ (a.form f).children := by simp [hform, Form.children]
    split at hvalue
    · cases List.mem_singleton.mp hvalue
      exact ⟨h.lt_size_of_part hbody, h.functionsAround_of_part hbody⟩
    · next hflags =>
      obtain ⟨d, hd, hvalue⟩ := List.mem_filterMap.mp hvalue
      split at hvalue
      · next hreturn =>
        have hnot := isFunction_body htidy hform (by simpa using hflags)
        rw [← h.functionsAround_of_part hbody, ← h.around_of_mem_localDescendants hnot hd]
        exact h.under_of_part hreturn (by simp [hvalue, Form.children]) rfl
      · cases hvalue
  · cases hvalue

end Tidy

/-- From a variable up to its pattern, no function is left; and neither do the
defaults on the way lead into one. -/
lemma under_patternRootFrom {fuel : Nat} {steps : List PatternStep}
    (hn : a.functionsAround n = chain) (hsteps : ∀ step ∈ steps, step.Leads (a.Under chain)) :
    a.functionsAround (a.patternRootFrom fuel n steps).1 = chain ∧
      ∀ step ∈ (a.patternRootFrom fuel n steps).2, step.Leads (a.Under chain) := by
  induction fuel generalizing n steps with
  | zero => exact ⟨hn, hsteps⟩
  | succ fuel ih =>
    unfold patternRootFrom
    split
    · exact ⟨hn, hsteps⟩
    · next parent hparent =>
      have hup : ∀ {form : Form NodeId}, a.form parent = form → form.isFunction = false →
          a.functionsAround parent = chain := fun hform hnot =>
        (h.under_of_parent hparent hform hnot).2.trans hn
      have hcons : ∀ {step : PatternStep}, step.Leads (a.Under chain) →
          ∀ s ∈ step :: steps, s.Leads (a.Under chain) := fun hstep =>
        List.forall_mem_cons.mpr ⟨hstep, hsteps⟩
      split
      · next hform =>
        split
        · exact ih (hup hform rfl) (hcons trivial)
        · exact ⟨hn, hsteps⟩
      · next hform => exact ih (hup hform rfl) hsteps
      · next hform =>
        split
        · exact ih (hup hform rfl) hsteps
        · split
          · exact ih (hup hform rfl) (hcons trivial)
          · exact ⟨hn, hsteps⟩
      · next target value hform =>
        split
        · refine ih (hup hform rfl) (hcons ?_)
          exact hup hform rfl ▸ h.under_of_part hform (by simp [Form.children]) rfl
        · exact ⟨hn, hsteps⟩
      · next hform =>
        split
        · exact ⟨hup hform rfl, hsteps⟩
        · exact ih (hup hform rfl) (hcons trivial)
      · exact ⟨hn, hsteps⟩

lemma around_patternRoot (n : NodeId) :
    a.functionsAround (a.patternRoot n).1 = a.functionsAround n :=
  (h.under_patternRootFrom rfl (by simp)).1

/-- The defaults on the way up from a node to its pattern. -/
lemma leads_patternRoot (n : NodeId) :
    ∀ step ∈ (a.patternRoot n).2, step.Leads (a.Under (a.functionsAround n)) :=
  (h.under_patternRootFrom rfl (by simp)).2

omit h in
lemma patternRoot_of_function {body : NodeId} {name : Option NodeId} {params : List NodeId}
    {flags : FunctionFlags} (hparent : a.parent? n = some f)
    (hform : a.form f = .function name params body flags) : a.patternRoot n = (n, []) := by
  unfold patternRoot
  cases a.size with
  | zero => rfl
  | succ fuel => simp only [patternRootFrom, hparent, hform]

lemma around_of_patternPart {root : NodeId} (hn : a.PatternPart root n) :
    a.functionsAround n = a.functionsAround root := by
  induction hn with
  | self => rfl
  | @part m n _ hn ih =>
    rw [← ih]
    refine (h.under_of_part rfl (mem_children_of_mem_patternParts hn) ?_).2
    unfold patternParts at hn
    cases hform : a.form m <;> rw [hform] at hn <;> first | rfl | cases hn

/-! ## Names -/

/-- What owns an introduced name is around its binding, with no function in
between; unless the name is that of a declared function, which is owned where the
function stands. -/
lemma within_owner {b o : NodeId} {kind : BindingKind} (hintro : (b, kind, o) ∈ a.introductions n) :
    a.functionsWithin o = a.functionsAround b ∨
      ∃ f params body flags, a.form f = .function (some b) params body flags ∧
        a.functionsWithin o = a.functionsAround f := by
  cases introduces_of_mem hintro with
  | @name params body flags hn ho =>
    have haround : a.functionsAround b = a.functionsWithin n :=
      h.functionsAround_of_part (by simp [hn, Form.children])
    subst ho
    split
    · rcases h.within_scopeAround n with hself | hscope
      · rw [hself]
        exact .inl haround.symm
      · exact .inr ⟨n, params, body, flags, hn, hscope⟩
    · exact .inl haround.symm
  | parameter hn hparam hb ho =>
    left
    rw [ho, h.around_of_patternPart hb,
      h.functionsAround_of_part (n := n) (by simp [hn, Form.children, hparam])]
  | declarator hn hd htarget hb ho =>
    left
    rw [ho, h.around_of_patternPart hb,
      (h.under_of_part htarget (by simp [Form.children]) rfl).2, (h.under_of_part hn hd rfl).2]
    have hself : a.functionsWithin n = a.functionsAround n :=
      functionsWithin_of_not (by rw [isFunction, hn]; rfl)
    split
    · exact (h.within_hoistAround n).elim (fun heq => by rw [heq, hself]) id
    · exact (h.within_scopeAround n).elim (fun heq => by rw [heq, hself]) id
  | caught hn hb ho =>
    left
    rw [ho, h.around_of_patternPart hb,
      h.functionsAround_of_part (n := n) (by simp [hn, Form.children])]
  | imported hn ho =>
    left
    rw [ho, (h.under_of_part hn (List.mem_singleton.mpr rfl) rfl).2]
    refine (h.within_hoistAround n).elim (fun heq => ?_) id
    rw [heq]
    exact functionsWithin_of_not (by rw [isFunction, hn]; rfl)

end Forest

end Arena

/-! ## The scopes of a program -/

lemma scope_of_declared? {decls : Array Decl} {owner : NodeId} {name : Symbol} {id : DeclId}
    (h : declared? decls owner name = some id) : (decls.getD id default).scope = owner := by
  obtain ⟨hlt, hid, -⟩ := Array.findIdx?_eq_some_iff_getElem.mp h
  rw [Array.getD_eq_getD_getElem?, Array.getElem?_eq_getElem hlt, Option.getD_some]
  exact (by simpa using hid : _ ∧ _).1

namespace Scopes

variable {c : Codebase} {decls : Array Decl} {n : NodeId} {id : DeclId}

lemma introduction_of_bindingSymbols (h : (bindingSymbols c decls).getD n none = some id) :
    ∃ kind, (n, kind, (decls.getD id default).scope) ∈ c.arena.allIntroductions := by
  rw [bindingSymbols_eq] at h
  -- whatever was written, its introduction comes before
  have hfold : ∀ (intros : List (NodeId × BindingKind × NodeId)) (symbols : Array (Option DeclId)),
      (intros.foldl (writeBinding c decls) symbols).getD n none = some id →
      symbols.getD n none = some id ∨
        ∃ kind, (n, kind, (decls.getD id default).scope) ∈ intros := by
    intro intros
    induction intros with
    | nil => exact fun _ h => .inl h
    | cons intro intros ih =>
      intro symbols hwritten
      obtain hwritten | ⟨kind, hmem⟩ := ih _ hwritten
      · obtain ⟨b, kind, o⟩ := intro
        unfold writeBinding at hwritten
        split at hwritten
        · rw [getD_set!] at hwritten
          split at hwritten
          · next heq =>
            rw [scope_of_declared? hwritten, ← heq.1]
            exact .inr ⟨kind, .head _⟩
          · exact .inl hwritten
        · exact .inl hwritten
      · exact .inr ⟨kind, .tail _ hmem⟩
  refine (hfold _ _ h).resolve_left fun h => ?_
  rw [Array.getD_eq_getD_getElem?, Array.getElem?_replicate] at h
  split at h <;> cases h

/-- What owns a name is found on the way out of it, or the name is introduced
there. -/
lemma scope_of_symbolAt (h : (ofCodebase c).symbolAt n = some id) :
    (∃ name, c.arena.form n = .identifier name) ∧
        ((ofCodebase c).decl id).scope ∈ c.arena.ancestors n ∨
      ∃ m kind, (n, kind, ((ofCodebase c).decl id).scope) ∈ c.arena.introductions m := by
  have hlt : n < c.arena.size := by
    by_contra hge
    change (allSymbols c c.arena.declarations).getD n none = some id at h
    rw [Array.getD_eq_getD_getElem?, Array.getElem?_eq_none (size_allSymbols ▸ Nat.not_lt.mp hge)]
      at h
    cases h
  change (allSymbols c c.arena.declarations).getD n none = some id at h
  rw [getD_allSymbols hlt, Option.or_eq_some_iff] at h
  obtain h | ⟨-, h⟩ := h
  · unfold Codebase.resolveName at h
    split at h
    · next name hform =>
      obtain ⟨p, hp, hid⟩ := List.exists_of_findSome?_eq_some h
      exact .inl ⟨⟨name, hform⟩, scope_of_declared? hid ▸ hp⟩
    · cases h
  · obtain ⟨kind, hintro⟩ := introduction_of_bindingSymbols h
    obtain ⟨_, -, hmodule⟩ := List.mem_flatMap.mp hintro
    obtain ⟨m, -, hm⟩ := List.mem_flatMap.mp hmodule
    exact .inr ⟨m, kind, hm⟩

end Scopes

namespace Program.Built

variable {p : Program} (h : p.Built) {id : DeclId} {b : NodeId} {n parent : NodeId}
include h

lemma forest : p.arena.Forest := h.parsed.forest

lemma tidy : p.arena.Every Form.Tidy := h.parsed.tidy

lemma scope_of_symbolAt (hid : p.scopes.symbolAt n = some id) :
    (∃ name, p.arena.form n = .identifier name) ∧
        (p.scopes.decl id).scope ∈ p.arena.ancestors n ∨
      ∃ m kind, (n, kind, (p.scopes.decl id).scope) ∈ p.arena.introductions m := by
  rw [h.resolved] at hid ⊢
  exact Scopes.scope_of_symbolAt hid

/-- What owns the name that a binding introduces. -/
lemma within_scope_of_binding (hb : ∀ name, p.arena.form b ≠ .identifier name)
    (hid : p.scopes.symbolAt b = some id) :
    p.arena.functionsWithin (p.scopes.decl id).scope = p.arena.functionsAround b ∨
      ∃ f params body flags, p.arena.form f = .function (some b) params body flags ∧
        p.arena.functionsWithin (p.scopes.decl id).scope = p.arena.functionsAround f := by
  obtain ⟨⟨_, hform⟩, -⟩ | ⟨m, kind, hintro⟩ := h.scope_of_symbolAt hid
  · exact absurd hform (hb _)
  · exact h.forest.within_owner hintro

lemma within_scope_of_part (hb : ∀ name, p.arena.form b ≠ .identifier name)
    (hid : p.scopes.symbolAt b = some id) (hparent : p.arena.parent? b = some parent)
    (hnot : p.arena.isFunction parent = false) :
    p.arena.functionsWithin (p.scopes.decl id).scope = p.arena.functionsAround b := by
  refine (h.within_scope_of_binding hb hid).resolve_right ?_
  rintro ⟨f, params, body, flags, hform, -⟩
  have hpart : b ∈ p.arena.children f := by simp [Arena.children, hform, Form.children]
  cases (h.forest.parent.mpr hpart).symm.trans hparent
  rw [Arena.isFunction, hform] at hnot
  cases hnot

lemma within_scope_of_param {f body : NodeId} {name : Option NodeId} {params : List NodeId}
    {flags : FunctionFlags} (hform : p.arena.form f = .function name params body flags)
    (hb : b ∈ params) (hid : p.scopes.symbolAt b = some id) :
    p.arena.functionsWithin (p.scopes.decl id).scope = p.arena.functionsWithin f := by
  have hparent := Arena.parent_of_parameter h.forest hform hb
  rw [← h.forest.functionsAround_of_parent hparent]
  refine (h.within_scope_of_binding (Arena.Forest.form_of_param h.tidy hform hb) hid).resolve_right ?_
  rintro ⟨g, params', body', flags', hform', -⟩
  have hpart : b ∈ p.arena.children g := by simp [Arena.children, hform', Form.children]
  cases (h.forest.parent.mpr hpart).symm.trans hparent
  cases hform.symm.trans hform'
  exact Arena.name_ne_of_parameter h.forest hform hb rfl

/-- What owns a declared name, seen from the first binding of it. -/
lemma within_scope_of_decl (hid : id < p.scopes.decls.size) :
    p.arena.functionsWithin (p.scopes.decl id).scope =
        p.arena.functionsAround (p.scopes.decl id).binding ∨
      ∃ f params body flags,
        p.arena.form f = .function (some (p.scopes.decl id).binding) params body flags ∧
        p.arena.functionsWithin (p.scopes.decl id).scope = p.arena.functionsAround f := by
  obtain ⟨n, hn⟩ := h.exists_introduction hid
  exact h.forest.within_owner hn

lemma owns_scope (hid : id < p.scopes.decls.size)
    (hparent : p.arena.parent? (p.arena.patternRoot (p.scopes.decl id).binding).1 = some parent) :
    p.arena.Owns (p.arena.patternRoot (p.scopes.decl id).binding).1 parent
        (p.arena.functionsWithin (p.scopes.decl id).scope) ∧
      ∀ step ∈ (p.arena.patternRoot (p.scopes.decl id).binding).2,
        step.Leads (p.arena.Under (p.arena.functionsWithin (p.scopes.decl id).scope)) := by
  obtain heq | ⟨f, params, body, flags, hform, heq⟩ := h.within_scope_of_decl hid
  · rw [heq]
    exact ⟨.inl (h.forest.around_patternRoot _).symm, h.forest.leads_patternRoot _⟩
  · have hpart : (p.scopes.decl id).binding ∈ p.arena.children f := by
      simp [Arena.children, hform, Form.children]
    have hf := h.forest.parent.mpr hpart
    have hroot := Arena.Forest.patternRoot_of_function hf hform
    rw [hroot] at hparent ⊢
    cases hf.symm.trans hparent
    exact ⟨.inr ⟨params, body, flags, hform, heq⟩, by simp⟩

/-- What owns a name is around all uses of the name. -/
lemma within_scope_suffix (hid : p.scopes.symbolAt n = some id) :
    p.arena.functionsWithin (p.scopes.decl id).scope <:+ p.arena.functionsAround n := by
  obtain ⟨-, hscope⟩ | ⟨m, kind, hintro⟩ := h.scope_of_symbolAt hid
  · exact h.forest.within_suffix_of_mem_ancestors hscope
  · obtain heq | ⟨f, params, body, flags, hform, heq⟩ := h.forest.within_owner hintro
    · exact heq ▸ List.suffix_refl _
    · have hpart : n ∈ (p.arena.form f).children := by simp [hform, Form.children]
      rw [heq]
      exact h.forest.functionsAround_of_part hpart ▸ Arena.around_suffix_within f

lemma within_scope_suffix_of_reference {r : NodeId} (hr : r ∈ p.scopes.referencesOf id) :
    p.arena.functionsWithin (p.scopes.decl id).scope <:+ p.arena.functionsAround r := by
  refine h.within_scope_suffix ?_
  rw [h.resolved] at hr ⊢
  exact (Scopes.symbolAt_of_mem_referencesOf hr).2

end Program.Built

end ValueFlow
