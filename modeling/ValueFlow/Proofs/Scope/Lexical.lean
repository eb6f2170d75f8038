import ValueFlow.Proofs.Scope.Owners
import ValueFlow.Proofs.Scope.Symbols

/-!
# Lexical scoping

A name refers to the declaration of that name which is owned by the nearest node
around it. The declarations are collected from the whole codebase first, one for
each name of each owner, and names are looked up afterwards; `Scopes.Lexical` says
what comes out in terms of owners (`Arena.OwnedBy`) and of the nodes above a node.
-/

namespace ValueFlow

open Relation (TransGen)

variable {decls : Array Decl}

/-! ## Declarations -/

/-- An owner has at most one declaration of a name. -/
def Distinct (decls : Array Decl) : Prop :=
  ∀ {i j : Nat} {d e : Decl}, decls[i]? = some d → decls[j]? = some e →
    d.scope = e.scope → d.name = e.name → i = j

lemma Distinct.push (h : Distinct decls) {d : Decl}
    (hd : ∀ e ∈ decls, e.scope = d.scope → e.name ≠ d.name) : Distinct (decls.push d) := by
  intro i j e f he hf hscope hname
  rw [Array.getElem?_push] at he hf
  split at he
  · next hi =>
    split at hf
    · next hj => rw [hi, hj]
    · cases he
      exact absurd hname.symm (hd f (Array.mem_of_getElem? hf) hscope.symm)
  · split at hf
    · cases hf
      exact absurd hname (hd e (Array.mem_of_getElem? he) hscope)
    · exact h he hf hscope hname

lemma declared?_eq_some_iff (h : Distinct decls) {owner : NodeId} {name : Symbol} {id : DeclId} :
    declared? decls owner name = some id ↔
      ∃ d, decls[id]? = some d ∧ d.scope = owner ∧ d.name = name := by
  constructor
  · intro hid
    obtain ⟨hlt, htest, -⟩ := Array.findIdx?_eq_some_iff_getElem.mp hid
    rw [Bool.and_eq_true, decide_eq_true_iff, decide_eq_true_iff] at htest
    exact ⟨decls[id], Array.getElem?_eq_getElem hlt, htest⟩
  · rintro ⟨d, hd, hscope, hname⟩
    have hsome : (declared? decls owner name).isSome = true :=
      isSome_declared?.mpr ⟨d, Array.mem_of_getElem? hd, hscope, hname⟩
    obtain ⟨k, hk⟩ := Option.isSome_iff_exists.mp hsome
    obtain ⟨hlt, htest, -⟩ := Array.findIdx?_eq_some_iff_getElem.mp hk
    rw [Bool.and_eq_true, decide_eq_true_iff, decide_eq_true_iff] at htest
    rw [hk, h (Array.getElem?_eq_getElem hlt) hd (htest.1.trans hscope.symm)
      (htest.2.trans hname.symm)]

namespace Arena

variable {a : Arena}

lemma distinct_declare {decls : Array Decl} (h : Distinct decls)
    (intro : NodeId × BindingKind × NodeId) : Distinct (a.declare decls intro) := by
  unfold declare
  dsimp only
  split
  · split
    · exact h
    · next hfresh =>
      rw [isSome_declared?] at hfresh
      exact h.push fun e he hscope hname => hfresh ⟨e, he, hscope, hname⟩
  · exact h

lemma distinct_declarations (a : Arena) : Distinct a.declarations := by
  refine List.foldlRecOn (motive := fun decls : Array Decl => Distinct decls) _ _ ?_
    fun decls h intro _ => distinct_declare h intro
  intro i j d e hd
  cases hd

def OwnsName (a : Arena) (name : Symbol) (o : NodeId) : Prop :=
  ∃ b, a.form b = .binding name ∧ a.OwnedBy b o

end Arena

namespace Scopes

structure Declares (s : Scopes) (id : DeclId) (owner : NodeId) (name : Symbol) : Prop where
  lt    : id < s.decls.size
  scope : (s.decl id).scope = owner
  name  : (s.decl id).name = name

/-- Names are looked up in the nodes around them, the nearest first. -/
structure Lexical (s : Scopes) (a : Arena) : Prop where
  owned      : ∀ {b : NodeId} {name : Symbol}, a.form b = .binding name → ∃! o, a.OwnedBy b o
  unique     : ∀ {id id' : DeclId} {o : NodeId} {name : Symbol}, s.Declares id o name →
                 s.Declares id' o name → id = id'
  binding    : ∀ {b o : NodeId} {name : Symbol}, a.form b = .binding name → a.OwnedBy b o →
                 ∃ id, s.symbolAt b = some id ∧ s.Declares id o name
  shared     : ∀ {b b' o o' : NodeId} {name name' : Symbol}, a.form b = .binding name →
                 a.form b' = .binding name' → a.OwnedBy b o → a.OwnedBy b' o' →
                 (s.symbolAt b = s.symbolAt b' ↔ name = name' ∧ o = o')
  /-- The declaration of a reference is that of its name with the nearest owner around it. -/
  resolved   : ∀ {n : NodeId} {name : Symbol}, a.form n = .identifier name → ∀ id,
                 s.symbolAt n = some id ↔ ∃ o, a.Nearest (a.OwnsName name) n o ∧
                   s.Declares id o name
  unresolved : ∀ {n : NodeId} {name : Symbol}, a.form n = .identifier name →
                 (s.symbolAt n = none ↔ ∀ o, a.OwnsName name o → ¬ TransGen a.Part o n)
  references : ∀ id n, n ∈ s.referencesOf id ↔
                 (∃ name, a.form n = .identifier name) ∧ s.symbolAt n = some id
  /-- References are listed once each, in the order of their numbers. -/
  ordered    : ∀ id, (s.referencesOf id).Pairwise (· < ·)

/-! ## Symbols -/

variable {c : Codebase} {name : Symbol}

lemma declares_iff {id : DeclId} {o : NodeId} :
    (ofCodebase c).Declares id o name ↔ declared? c.arena.declarations o name = some id := by
  have hdecl : ∀ {d}, c.arena.declarations[id]? = some d → (ofCodebase c).decl id = d := by
    intro d hd
    change c.arena.declarations.getD id default = d
    rw [Array.getD_eq_getD_getElem?, hd, Option.getD_some]
  rw [declared?_eq_some_iff c.arena.distinct_declarations]
  constructor
  · rintro ⟨hlt, hscope, hname⟩
    have hd : c.arena.declarations[id]? = some c.arena.declarations[id] :=
      Array.getElem?_eq_getElem hlt
    rw [hdecl hd] at hscope hname
    exact ⟨_, hd, hscope, hname⟩
  · rintro ⟨d, hd, hscope, hname⟩
    obtain ⟨hlt, -⟩ := Array.getElem?_eq_some_iff.mp hd
    rw [← hdecl hd] at hscope hname
    exact ⟨hlt, hscope, hname⟩

lemma symbolAt_of_identifier {n : NodeId} (hn : c.arena.form n = .identifier name) :
    (ofCodebase c).symbolAt n =
      (c.arena.ancestors n).findSome? fun o => declared? c.arena.declarations o name := by
  have hlt : n < c.arena.size := Arena.lt_size_of_form (by rw [hn]; simp)
  -- no declaration is ever written for what is no binding
  have hnone : (bindingSymbols c c.arena.declarations).getD n none = none := by
    rw [bindingSymbols_eq]
    refine foldl_writeBinding_induction (P := fun id => id = none) (fun _ _ _ _ hb => ?_)
      (by rwa [Array.size_replicate]) (.inl ?_)
    · rw [hn] at hb
      cases hb
    · rw [Array.getD_eq_getD_getElem?, Array.getElem?_replicate]
      split <;> rfl
  change (allSymbols c c.arena.declarations).getD n none = _
  rw [getD_allSymbols hlt, hnone, Option.or_none, Codebase.resolveName, hn]

section Owned

variable (hforest : c.arena.Forest) (htidy : c.arena.Every Form.Tidy) (hrooted : c.arena.Rooted)
  (hcovered : c.arena.Covered) {name : Symbol}
include hforest hrooted hcovered

lemma isSome_declared?_iff {o : NodeId} :
    (declared? c.arena.declarations o name).isSome = true ↔ c.arena.OwnsName name o := by
  constructor
  · intro hsome
    obtain ⟨d, hd, rfl, rfl⟩ := isSome_declared?.mp hsome
    obtain ⟨hintro, hb⟩ := Arena.introduced_of_mem_declarations hd
    exact ⟨d.binding, hb,
      (Arena.exists_mem_allIntroductions_iff hforest hrooted hcovered hb).mp ⟨d.kind, hintro⟩⟩
  · rintro ⟨b, hb, ho⟩
    obtain ⟨kind, hintro⟩ :=
      (Arena.exists_mem_allIntroductions_iff hforest hrooted hcovered hb).mpr ho
    exact Arena.isSome_declared?_declarations hintro hb

/-- A reference has the declaration of its name with the nearest owner around it. -/
lemma symbolAt_eq_some_iff {n : NodeId} (hn : c.arena.form n = .identifier name) (id : DeclId) :
    (ofCodebase c).symbolAt n = some id ↔ ∃ o, c.arena.Nearest (c.arena.OwnsName name) n o ∧
      (ofCodebase c).Declares id o name := by
  rw [symbolAt_of_identifier hn, hforest.findSome?_ancestors]
  refine exists_congr fun o => ?_
  rw [Arena.Nearest.congr fun _ => isSome_declared?_iff hforest hrooted hcovered, declares_iff]

include htidy in
lemma symbolAt_of_ownedBy {b o : NodeId} (hb : c.arena.form b = .binding name)
    (ho : c.arena.OwnedBy b o) :
    (ofCodebase c).symbolAt b = declared? c.arena.declarations o name := by
  have hintros := Arena.exists_mem_allIntroductions_iff (o := o) hforest hrooted hcovered hb
  have hlt : b < c.arena.size := Arena.lt_size_of_binding hb
  have hresolve : c.resolveName c.arena.declarations b = none := by rw [Codebase.resolveName, hb]
  change (allSymbols c c.arena.declarations).getD b none = _
  rw [getD_allSymbols hlt, hresolve, Option.none_or, bindingSymbols_eq]
  obtain ⟨kind, hintro⟩ := hintros.mpr ho
  refine foldl_writeBinding_induction
    (P := fun id => id = declared? c.arena.declarations o name) (fun kind o' name' hmem hb' => ?_)
    (by rwa [Array.size_replicate]) (.inr ⟨kind, o, name, hintro, hb⟩)
  cases hb.symm.trans hb'
  -- whatever is written comes from a construct that has the same owner
  have ho' := (Arena.exists_mem_allIntroductions_iff hforest hrooted hcovered hb).mp ⟨kind, hmem⟩
  rw [ho.eq hforest htidy ho']

end Owned

/-- Going up from a name, its nearest owner is met first. -/
lemma lexical_ofCodebase (hforest : c.arena.Forest) (htidy : c.arena.Every Form.Tidy)
    (hrooted : c.arena.Rooted) (hcovered : c.arena.Covered) (hseated : c.arena.Seated) :
    (ofCodebase c).Lexical c.arena := by
  have hsome : ∀ {o name}, (declared? c.arena.declarations o name).isSome = true ↔
      c.arena.OwnsName name o := isSome_declared?_iff hforest hrooted hcovered
  have hsymbol : ∀ {b o name}, c.arena.form b = .binding name → c.arena.OwnedBy b o →
      (ofCodebase c).symbolAt b = declared? c.arena.declarations o name :=
    symbolAt_of_ownedBy hforest htidy hrooted hcovered
  have hbinding : ∀ {b o name}, c.arena.form b = .binding name → c.arena.OwnedBy b o →
      ∃ id, (ofCodebase c).symbolAt b = some id ∧ (ofCodebase c).Declares id o name := by
    intro b o name hb ho
    obtain ⟨id, hid⟩ := Option.isSome_iff_exists.mp (hsome.mpr ⟨b, hb, ho⟩)
    exact ⟨id, (hsymbol hb ho).trans hid, declares_iff.mpr hid⟩
  have hresolved : ∀ {n name}, c.arena.form n = .identifier name → ∀ id, _ :=
    symbolAt_eq_some_iff hforest hrooted hcovered
  refine
    { owned := fun hb => ?_
      unique := fun hid hid' =>
        Option.some.inj ((declares_iff.mp hid).symm.trans (declares_iff.mp hid'))
      binding := hbinding
      shared := fun hb hb' ho ho' => ⟨fun heq => ?_, fun ⟨hname, howner⟩ => ?_⟩
      resolved := hresolved
      unresolved := fun {n name} hn => ⟨fun hnone o ho habove => ?_, fun hno => ?_⟩
      references := fun id n => ⟨symbolAt_of_mem_referencesOf, fun ⟨⟨name, hn⟩, hsymbol⟩ => ?_⟩
      ordered := fun id => ?_ }
  · obtain ⟨o, ho⟩ := hseated.exists_ownedBy hforest hrooted hcovered hb
    exact ⟨o, ho, fun o' ho' => ho'.eq hforest htidy ho⟩
  · obtain ⟨id, hid, -, hscope, hname⟩ := hbinding hb ho
    obtain ⟨id', hid', -, hscope', hname'⟩ := hbinding hb' ho'
    cases hid.symm.trans (heq.trans hid')
    exact ⟨hname.symm.trans hname', hscope.symm.trans hscope'⟩
  · rw [hsymbol hb ho, hsymbol hb' ho', hname, howner]
  · obtain ⟨q, hq⟩ := hforest.exists_nearest ho habove
    obtain ⟨b, hb, howned⟩ := hq.passes
    obtain ⟨id, -, hid⟩ := hbinding hb howned
    rw [(hresolved hn id).mpr ⟨q, hq, hid⟩] at hnone
    cases hnone
  · refine Option.eq_none_iff_forall_ne_some.mpr fun id hid => ?_
    obtain ⟨o, ho, -⟩ := (hresolved hn id).mp hid
    exact hno o ho.passes ho.above
  · rw [symbolAt_of_identifier hn] at hsymbol
    refine mem_referencesOf.mpr ⟨Arena.lt_size_of_form (by rw [hn]; simp), ?_⟩
    rwa [Codebase.resolveName, hn]
  · change ((allReferences c c.arena.declarations).getD id []).Pairwise (· < ·)
    rw [getD_allReferences]
    exact List.Pairwise.filter _ List.pairwise_lt_range

end Scopes

/-- **Names resolve lexically.** In every program, a binding has the declaration of its name with
the node that owns it, a reference has the declaration of its name with the nearest node around it
that owns one, and a declaration has the references that have it. -/
theorem Program.names_resolve_lexically {sources : Sources} {p : Program}
    (h : build sources = .ok p) : p.scopes.Lexical p.arena := by
  have hbuilt := built_of_build h
  have hparsed := hbuilt.parsed
  rw [hbuilt.resolved]
  exact Scopes.lexical_ofCodebase hparsed.forest hparsed.tidy hparsed.rooted hparsed.covered
    hparsed.seated

/-- One name with three owners, the module, the function and a block of it. -/
theorem Program.names_resolve_lexically_of_shadowed : ∃ p,
    build [("a.ts", "var x; function f(x) { { let x; x; } x; y; }")] = .ok p ∧
      (p.scopes.decls.size = 4 ∧
        (p.arena.nodeIds.filter fun n => (p.arena.form n).isPlace).map p.scopes.symbolAt =
          [some 3, some 2, none]) ∧
      p.scopes.Lexical p.arena :=
  exists_of_test_and (by decide +kernel) fun h _ => names_resolve_lexically h

end ValueFlow
