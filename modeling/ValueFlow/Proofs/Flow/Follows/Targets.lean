import ValueFlow.Proofs.Flow.Follows

/-!
# What is called, on less

Outside of plain sessions awaiting is not monotone. A value stands for itself until it
is known to be a promise, so elements of values can be lost while answers grow. What a
callee invokes depends on no elements, with one exception: the message of an error that
was constructed with a spread.

In a program without such errors (`Program.spreadsError`), with the catalogue of the
standard library, callees and kinds are compared in any session. The point is where a
switch could go the other way later: a builtin that is found among those that made a
value has its properties described only if it is the constructor of errors, and which
constructor is invoked can be read off.
-/

namespace ValueFlow

/-! ## Errors -/

namespace Program

variable {p : Program}

def isUndeclared (p : Program) (n : NodeId) (text : String) : Bool :=
  match p.arena.form n with
  | .identifier name => (p.scopes.symbolAt n).isNone && p.text name == text
  | _ => false

def spreadsErrorAt (p : Program) (n : NodeId) : Bool :=
  match p.arena.form n with
  | .new callee (first :: _) => p.isUndeclared callee "Error" && (p.arena.form first).isSpread
  | _ => false

/-- Whether an `Error` is constructed with a spread as its first argument. -/
def spreadsError (p : Program) : Bool := (List.range p.arena.nodes.size).any p.spreadsErrorAt

lemma spreadsErrorAt_eq_false (h : p.spreadsError = false) (n : NodeId) :
    p.spreadsErrorAt n = false := by
  rcases Nat.lt_or_ge n p.arena.nodes.size with hn | hn
  · exact Bool.eq_false_iff.mpr fun hat =>
      Bool.eq_false_iff.mp h (List.any_eq_true.mpr ⟨n, List.mem_range.mpr hn, hat⟩)
  · have hform : p.arena.form n = .empty := by
      rw [Arena.form, Arena.node, Array.getD_eq_getD_getElem?, Array.getElem?_eq_none hn]
      rfl
    rw [spreadsErrorAt, hform]

lemma isSpread_eq_false (h : p.spreadsError = false) {n callee first : NodeId}
    {arguments : List NodeId} (hform : p.arena.form n = .new callee arguments)
    (hfirst : arguments[0]? = some first) (hcallee : p.isUndeclared callee "Error" = true) :
    (p.arena.form first).isSpread = false := by
  have hat := spreadsErrorAt_eq_false h n
  cases arguments with
  | nil => cases hfirst
  | cons x rest =>
    obtain rfl : x = first := Option.some.inj hfirst
    simpa only [spreadsErrorAt, hform, hcallee, Bool.true_and] using hat

end Program

namespace Rule

section Comes

variable {P : Request → Prop} {st : Setting} {perform : Meaning} {n : NodeId} {id : BuiltinId}

lemma Comes.lookup {shape : Shape} (h : Comes P st (lookup n shape) (some id)) :
    id ∈ st.world.catalogue.lookup shape := by
  unfold Rule.lookup at h
  rw [comes_bind_catalogue] at h
  split at h
  · cases h.pure
  · next heq =>
    cases h.pure
    rw [heq]
    exact List.mem_singleton.mpr rfl
  · rw [comes_bind_arena] at h
    obtain ⟨candidates, -, h⟩ := h.bind
    exact absurd h (not_comes_fail _ _)

lemma Comes.globalName? {name : String} (h : Comes P st (globalName? n) (some name)) :
    st.world.program.isUndeclared n name = true := by
  unfold Rule.globalName? at h
  rw [comes_bind_formOf] at h
  unfold Program.isUndeclared
  split at h
  · next symbol hform =>
    rw [comes_bind_scopes] at h
    split at h
    · cases h.pure
    · next hundeclared =>
      rw [comes_bind_textOf, comes_bind_catalogue] at h
      have h := h.pure
      split at h
      · cases h
        simpa [hform] using hundeclared
      · cases h
  · cases h.pure

lemma Comes.constructor? (h : Comes P st (constructor? n) (some id)) :
    ∃ callee arguments name,
      (st.world.arena.form n).callParts? = some (callee, arguments) ∧
      st.world.program.isUndeclared callee name = true ∧
      id ∈ st.world.catalogue.lookup (.constructor name) := by
  unfold Rule.constructor? at h
  rw [comes_bind_formOf] at h
  split at h
  · cases h.pure
  · next callee arguments hparts =>
    obtain ⟨name, hname, h⟩ := h.bind
    cases name with
    | none => cases h.pure
    | some name => exact ⟨callee, arguments, name, hparts, hname.globalName?, h.lookup⟩

end Comes

/-! ## What calls and accesses result from -/

section Bare

variable {P : Request → Prop} {st : Setting} {perform : Meaning} {found : List Target}
  {callee n : NodeId} {depth : Nat} {env : Env} {name : String} {ids : List BuiltinId}
  {shape : Shape} {id : BuiltinId} {receiver : Config}

/-- The shapes that a callee can be looked up by: those of global functions, and if it accesses
a member, those of static members and methods of its name. -/
def CalledBy (p : Program) (callee : NodeId) : Shape → Prop
  | .global _ => True
  | .static _ name | .method _ name => ∃ object property optional,
      p.arena.form callee = .member object property optional ∧ p.text property = name
  | .constructor _ => False

def LookedUp (w : World) (callee : NodeId) (targets : List Target) : Prop :=
  ∀ id, .builtin id ∈ targets →
    ∃ shape, CalledBy w.program callee shape ∧ id ∈ w.catalogue.lookup shape

lemma lookedUp_nil {w : World} : LookedUp w callee [] := fun _ h => absurd h List.not_mem_nil

lemma lookedUp_builtin {w : World} (h : id ∈ w.catalogue.lookup shape)
    (hshape : CalledBy w.program callee shape) :
    LookedUp w callee [.builtin id] := fun id' hid => by
  cases List.mem_singleton.mp hid
  exact ⟨shape, hshape, h⟩

lemma Comes.lookedUp_valueTargets {value : Config}
    (h : Comes P st (Rule.valueTargets callee value) found) : LookedUp st.world callee found := by
  have hnone : ∀ {message : String}, Comes P st
      (do unsupported callee message; return ([] : List Target)) found →
        LookedUp st.world callee found := fun h => by
    obtain ⟨-, -, h⟩ := h.bind
    cases h.pure
    exact lookedUp_nil
  unfold Rule.valueTargets at h
  split at h
  · cases h.pure
    exact fun id hid => by cases List.mem_singleton.mp hid
  · rw [comes_bind_arena] at h
    split at h
    · cases h.pure
      exact fun id hid => by cases List.mem_singleton.mp hid
    · obtain ⟨name, -, h⟩ := h.bind
      cases name with
      | none => exact hnone h
      | some name =>
        obtain ⟨id, hid, h⟩ := h.bind
        cases id with
        | none => exact hnone h
        | some id =>
          cases h.pure
          exact lookedUp_builtin hid.lookup trivial
  · exact hnone h

lemma Comes.lookedUp_targetsOver {set : ConfigSet} {f : Config → Rule (List Target)}
    (hf : ∀ value part, Comes P st (f value) part → LookedUp st.world callee part)
    (h : Comes P st (Rule.targetsOver set f) found) : LookedUp st.world callee found := by
  obtain ⟨items, -, h⟩ := h.bind
  intro id hid
  obtain hid | ⟨value, -, part, hpart, hid⟩ :=
    (Comes.gather (fun _ _ _ => List.mem_append) h).2.2 _ hid
  · exact absurd hid List.not_mem_nil
  · exact hf value part hpart id hid

section Member

variable {callee object : NodeId} {property : Symbol} {optional : Bool} {receiver : Config}
  (hcallee : st.world.arena.form callee = .member object property optional)
include hcallee

lemma Comes.lookedUp_methodTargets
    (h : Comes P st (Rule.methodTargets perform callee receiver (st.world.program.text property))
      found) : LookedUp st.world callee found := by
  obtain ⟨kinds, -, h⟩ := h.bind
  obtain ⟨ids, hids, h⟩ := h.bind
  obtain rfl : ids.map Target.builtin = found := by
    dsimp only at h
    split at h
    · obtain ⟨-, -, h⟩ := h.bind
      exact h.pure
    · exact h.pure
  intro id hid
  obtain ⟨id', hid', heq⟩ := List.mem_map.mp hid
  cases heq
  obtain ⟨kind, -, hlookup⟩ := hids.exists_of_mem_filterMapM id hid'
  exact ⟨.method kind _, ⟨object, property, optional, hcallee, rfl⟩, hlookup.lookup⟩

lemma Comes.lookedUp_memberTargets
    (h : Comes P st (Rule.memberTargets perform callee (st.world.program.text property) receiver)
      found) : LookedUp st.world callee found := by
  have hobject : Comes P st
      (perform (.property (.singleton receiver) (st.world.program.text property) none) >>=
        fun methods => Rule.targetsOver methods (Rule.valueTargets callee)) found →
      LookedUp st.world callee found := fun h => by
    obtain ⟨methods, -, h⟩ := h.bind
    exact h.lookedUp_targetsOver fun value part hpart => hpart.lookedUp_valueTargets
  unfold Rule.memberTargets at h
  split at h
  · cases h.pure
    exact fun id hid => by cases List.mem_singleton.mp hid
  · rw [comes_bind_formOf] at h
    split at h
    · exact hobject h
    · exact hobject h
    · obtain ⟨owner, -, h⟩ := h.bind
      cases owner with
      | none => exact h.lookedUp_methodTargets hcallee
      | some owner =>
        obtain ⟨id, hid, h⟩ := h.bind
        cases id with
        | none =>
          obtain ⟨-, -, h⟩ := h.bind
          cases h.pure
          exact lookedUp_nil
        | some id =>
          cases h.pure
          exact lookedUp_builtin hid.lookup ⟨object, property, optional, hcallee, rfl⟩
  · exact h.lookedUp_methodTargets hcallee

end Member

lemma Comes.lookedUp_targets (h : Comes P st (meaning depth (.targets callee env)) found) :
    LookedUp st.world callee found := by
  cases depth with
  | zero => exact absurd h (not_comes_diverge _)
  | succ depth =>
    have h : Comes P st (Rule.calleeTargets (meaning depth) callee env) found := h
    unfold Rule.calleeTargets at h
    rw [comes_bind_formOf] at h
    suffices hall : ∃ targets, LookedUp st.world callee targets ∧
        firstOccurrences targets = found by
      obtain ⟨targets, hfound, rfl⟩ := hall
      exact fun id hid => hfound id (mem_firstOccurrences.mp hid)
    split at h
    · next hcallee =>
      rw [comes_bind_textOf] at h
      obtain ⟨receivers, -, h⟩ := h.bind
      obtain ⟨targets, htargets, h⟩ := h.bind
      exact ⟨targets,
        htargets.lookedUp_targetsOver fun _ _ hpart => hpart.lookedUp_memberTargets hcallee, h.pure⟩
    · obtain ⟨callees, -, h⟩ := h.bind
      obtain ⟨targets, htargets, h⟩ := h.bind
      exact ⟨targets,
        htargets.lookedUp_targetsOver fun _ _ hpart => hpart.lookedUp_valueTargets, h.pure⟩

variable (hc : st.world.catalogue = .standard)
include hc

lemma Comes.bare_lookup (h : Comes P st (Rule.lookup n shape) (some id))
    (hshape : ∀ name, shape ≠ .constructor name) : st.world.catalogue.Bare id := by
  have hid := h.lookup
  rw [hc] at hid ⊢
  exact Catalogue.bare_of_mem_lookup hid (hshape _)

/-- No builtin among the targets of a callee describes the properties of what it makes. -/
lemma Comes.bare_targets (h : Comes P st (meaning depth (.targets callee env)) found)
    (id : BuiltinId) (hid : .builtin id ∈ found) : st.world.catalogue.Bare id := by
  obtain ⟨shape, hshape, hlookup⟩ := h.lookedUp_targets id hid
  rw [hc] at hlookup ⊢
  refine Catalogue.bare_of_mem_lookup hlookup ?_
  rintro rfl
  exact hshape

omit hc in
lemma Comes.memberShapes {shapes : List Shape}
    (h : Comes P st (Rule.memberShapes perform name receiver) shapes) :
    ∀ shape ∈ shapes, ∀ name, shape ≠ .constructor name := by
  unfold Rule.memberShapes at h
  extract_lets next at h
  have hnext : ∀ owner, Comes P st (next owner) shapes →
      ∀ shape ∈ shapes, ∀ name, shape ≠ .constructor name := by
    intro owner h
    cases owner with
    | some owner =>
      cases h.pure
      simp
    | none =>
      obtain ⟨kinds, -, h⟩ := h.bind
      cases h.pure
      simp
  split at h
  · obtain ⟨owner, -, h⟩ := h.bind
    exact hnext owner h
  · exact hnext none h

lemma Comes.bare_gettersOf (h : Comes P st (gettersOf perform n name receiver) ids) :
    ∀ id ∈ ids, st.world.catalogue.Bare id := by
  obtain ⟨shapes, hshapes, h⟩ := h.bind
  have hshapes := hshapes.memberShapes
  intro id hid
  obtain ⟨shape, hshape, hfound⟩ := h.exists_of_mem_filterMapM id hid
  obtain ⟨id', hlookup, hfound⟩ := hfound.bind
  cases id' with
  | none => cases hfound.pure
  | some id' =>
    obtain ⟨entry, -, hfound⟩ := hfound.bind
    have hfound := hfound.pure
    split at hfound
    · cases hfound
      exact hlookup.bare_lookup hc (hshapes shape hshape)
    · cases hfound

lemma Comes.bare_gettersAt {receivers : ConfigSet}
    (h : Comes P st (Rule.gettersAt perform n name receivers) ids) :
    ∀ id ∈ ids, st.world.catalogue.Bare id := by
  rw [gettersAt_eq] at h
  obtain ⟨items, -, h⟩ := h.bind
  obtain ⟨all, hall, h⟩ := h.bind
  cases h.pure
  intro id hid
  obtain hid | ⟨receiver, -, part, hpart, hid⟩ :=
    (Comes.gather (fun _ _ _ => List.mem_append) hall).2.2 _ (mem_firstOccurrences.mp hid)
  · exact absurd hid List.not_mem_nil
  · exact hpart.bare_gettersOf hc id hid

/-- What a call or an access results from has no properties described. -/
lemma Comes.bare_builtinsAt (h : Comes P st (Rule.builtinsAt (meaning depth) n env) ids)
    (hform : ∀ callee arguments, st.world.arena.form n ≠ .new callee arguments) :
    ∀ id ∈ ids, st.world.catalogue.Bare id := by
  unfold Rule.builtinsAt at h
  rw [comes_bind_formOf] at h
  split at h
  · obtain ⟨targets, htargets, h⟩ := h.bind
    cases h.pure
    intro id hid
    obtain ⟨target, htarget, heq⟩ := List.mem_filterMap.mp hid
    cases target with
    | builtin id' =>
      cases heq
      exact htargets.bare_targets hc id htarget
    | _ => cases heq
  · next heq => exact absurd heq (hform _ _)
  · rw [comes_bind_textOf] at h
    obtain ⟨receivers, -, h⟩ := h.bind
    exact h.bare_gettersAt hc
  · cases h.pure
    exact fun id hid => absurd hid List.not_mem_nil

end Bare

/-! ## Properties -/

section Properties

variable {w : World} {perform perform' : Meaning} {n callee : NodeId} {arguments : List NodeId}
  {ids : List BuiltinId} {value : Config}

/-- The property of what one builtin has made, added to what was found before. -/
def describedBy (perform : Meaning) (site : Site) (name : String) (found : Option ConfigSet) :
    Option PropertySummary → Rule (Option ConfigSet)
  | none => return found
  | some summary => do
    match ← propertySummary perform site name summary with
    | some values => return some (found.getD .empty ∪ values)
    | none => return found

def described (perform : Meaning) (site : Site) (name : String) (found : Option ConfigSet)
    (id : BuiltinId) : Rule (Option ConfigSet) := do
  describedBy perform site name found (← entry id).property

lemma producedProperty_eq (hn : value.node? = some n) (name : String) :
    producedProperty perform value name = (do
      (← builtinsAt perform n value.env).foldlM (described perform ⟨n, value.env⟩ name) none) := by
  unfold producedProperty
  rw [hn]
  rfl

lemma described_of_bare {id : BuiltinId} (h : w.catalogue.Bare id) (site : Site) (name : String)
    (found : Option ConfigSet) (visiting : List Visit) :
    described perform site name found id ⟨w, visiting⟩ = .done found := by
  have hproperty : ((w.catalogue.get? id).getD { shape := .global "" }).property = none := by
    cases he : w.catalogue.get? id with
    | none => rfl
    | some e => exact h e he
  change describedBy perform site name found
    ((w.catalogue.get? id).getD { shape := .global "" }).property ⟨w, visiting⟩ = _
  rw [hproperty]
  rfl

lemma foldlM_described (h : ∀ id ∈ ids, w.catalogue.Bare id) (site : Site) (name : String)
    (visiting : List Visit) :
    ids.foldlM (described perform site name) none ⟨w, visiting⟩ = .done none := by
  induction ids with
  | nil => rfl
  | cons id ids ih =>
    obtain ⟨hid, hids⟩ := List.forall_mem_cons.mp h
    rw [List.foldlM_cons]
    change (described perform site name none id ⟨w, visiting⟩).bind _ = _
    rw [described_of_bare hid]
    exact ih hids

def PlainFirst (a : Arena) (arguments : List NodeId) : Prop :=
  ∀ first, arguments[0]? = some first → (a.form first).isSpread = false

/-- What a construction results from describes properties only if it is the constructor
of errors, and then no spread comes first. -/
lemma Comes.bare_or_plain {P : Request → Prop} {st : Setting}
    (hc : st.world.catalogue = .standard) (herror : st.world.program.spreadsError = false)
    {env : Env} (hform : st.world.arena.form n = .new callee arguments)
    (h : Comes P st (Rule.builtinsAt perform n env) ids) :
    ∀ id ∈ ids, st.world.catalogue.Bare id ∨ PlainFirst st.world.arena arguments := by
  unfold Rule.builtinsAt at h
  rw [comes_bind_formOf, hform] at h
  obtain ⟨made, hmade, h⟩ := h.bind
  cases h.pure
  intro id hid
  rw [Option.mem_toList.mp hid] at hmade
  obtain ⟨callee', arguments', name, hparts, hname, hid⟩ := hmade.constructor?
  rw [hform] at hparts
  cases hparts
  by_cases herr : name = "Error"
  · subst herr
    exact .inr fun first hfirst => Program.isSpread_eq_false herror hform hfirst hname
  · rw [hc] at hid ⊢
    exact .inl (Catalogue.bare_of_mem_lookup hid (by simpa using herr))

section Constructed

variable {C : Comparison w} (hvalue : C.At n value.env)
  (hform : w.arena.form n = .new callee arguments) (hplain : PlainFirst w.arena arguments)
include hvalue hform hplain

/-- What was constructed with no spread has a message that grows. -/
lemma compares_propertySummary_of_plain (name : String) (summary : PropertySummary) :
    Compares C (Option.Rel C.values) (propertySummary perform ⟨n, value.env⟩ name summary)
      (propertySummary perform' ⟨n, value.env⟩ name summary) := by
  have hparts : (w.arena.form n).callParts? = some (callee, arguments) := by
    rw [hform]
    rfl
  have harguments : Compares C (Same (· = arguments)) (argumentsOf n) (argumentsOf n) := by
    unfold argumentsOf
    rw [compares_bind_formOf, hparts]
    exact compares_same rfl
  have hargument : Compares C (Same (· = arguments[0]?)) (argument? n 0) (argument? n 0) :=
    harguments.andThen fun _ h => compares_same (by rw [h])
  have hfirst : Compares C C.values (argumentValues perform ⟨n, value.env⟩ 0)
      (argumentValues perform' ⟨n, value.env⟩ 0) := by
    refine hargument.andThen ?_
    rintro _ rfl
    cases hargument : arguments[0]? with
    | none => exact compares_empty
    | some first =>
      refine compares_bind_formOf.mpr ?_
      split
      · next inner hspread =>
        have hnot := hplain first hargument
        rw [hspread] at hnot
        cases hnot
      · exact compares_values (hvalue.argument hparts (List.mem_of_getElem? hargument))
  cases summary with
  | errorMessage => exact .ite (fun _ => compares_some hfirst) fun _ => compares_none

lemma compares_described_of_plain (name : String) {found found' : Option ConfigSet}
    (hfound : Option.Rel C.values found found') (id : BuiltinId) :
    Compares C (Option.Rel C.values) (described perform ⟨n, value.env⟩ name found id)
      (described perform' ⟨n, value.env⟩ name found' id) := by
  refine (compares_entry id).next fun entry => ?_
  unfold describedBy
  split
  · exact compares_option hfound
  · exact (compares_propertySummary_of_plain hvalue hform hplain name _).ifAny
      (fun _ _ h => compares_option (.some (h.addTo hfound))) (compares_option hfound)

end Constructed

end Properties

section Tabled

variable {s : Session} {p : Config → Prop} {hs : s.Tabled p} {α : Type} {R : α → α → Prop}

/-- Whatever else is known of what the second rule comes to. -/
lemma Compares.noting {S : α → Prop} {r r' : Rule α} (hr : Compares hs.comparison R r r')
    (hS : ∀ visiting a, Comes s.Grants ⟨s.world, visiting⟩ r' a → S a) :
    Compares hs.comparison (fun a a' => R a a' ∧ S a') r r' := by
  intro visiting a' h
  obtain ⟨hrefl, hwithin⟩ := hr visiting a' h
  have hnote := hS visiting a' h
  exact ⟨⟨hrefl, hnote⟩, hwithin.imp fun a ha => ⟨ha, hnote⟩⟩

variable {perform : Meaning} {depth : Nat} {value : Config} {n callee : NodeId}
  {arguments : List NodeId} (hc : s.world.catalogue = .standard)
include hc

/-- What a call or an access results from describes no properties, on either side. -/
lemma Resolves.producedProperty_of_call (hp : Resolves hs.comparison perform (meaning depth))
    (hn : value.node? = some n)
    (hform : ∀ callee arguments, s.world.arena.form n ≠ .new callee arguments)
    (name : String) : Compares hs.comparison (Option.Rel hs.comparison.values)
      (producedProperty perform value name) (producedProperty (meaning depth) value name) := by
  rw [producedProperty_eq hn, producedProperty_eq hn]
  have hbare : ∀ visiting ids, Comes s.Grants ⟨s.world, visiting⟩
      (Rule.builtinsAt (meaning depth) n value.env) ids → ∀ id ∈ ids, s.world.catalogue.Bare id :=
    fun visiting ids h => h.bare_builtinsAt hc hform
  have hids := (compares_builtinsAt hp (.inl (Terrain.spot_all (.ofNode n value.env)))).noting hbare
  refine hids.bind fun ids ids' hbare visiting => ?_
  obtain ⟨hsub, hbare⟩ := hbare
  rw [foldlM_described hbare, foldlM_described fun id hid => hbare id (hsub.subset id hid)]
  exact hs.comparison.done .none .none

variable (herror : s.world.program.spreadsError = false)
include herror

lemma compares_producedProperty_of_new {perform' : Meaning} (hn : value.node? = some n)
    (hform : s.world.arena.form n = .new callee arguments) (name : String) :
    Compares hs.comparison (Option.Rel hs.comparison.values) (producedProperty perform value name)
      (producedProperty perform' value name) := by
  rw [producedProperty_eq hn, producedProperty_eq hn]
  have hmade : Compares hs.comparison Eq (builtinsAt perform n value.env)
      (builtinsAt perform' n value.env) := by
    unfold builtinsAt
    rw [compares_bind_formOf, hform]
    exact (compares_constructor? n).next fun _ => compares_rfl _
  have hbare : ∀ visiting ids, Comes s.Grants ⟨s.world, visiting⟩
      (Rule.builtinsAt perform' n value.env) ids → ∀ id ∈ ids, s.world.catalogue.Bare id ∨
        PlainFirst s.world.arena arguments :=
    fun visiting ids h => h.bare_or_plain hc herror hform
  refine (hmade.noting hbare).bind fun ids ids' h => ?_
  obtain ⟨rfl, hids⟩ := h
  have hat : hs.comparison.At n value.env := Terrain.at_of_spot (Terrain.spot_all value) hn
  refine compares_foldlM_ifAny fun found found' hfound id hid => ?_
  obtain hbare | hplain := hids id hid
  · intro visiting
    rw [described_of_bare hbare, described_of_bare hbare]
    exact compares_option hfound visiting
  · exact compares_described_of_plain hat hform hplain name hfound id

lemma Resolves.producedProperty (hp : Resolves hs.comparison perform (meaning depth))
    (value : Config) (name : String) : Compares hs.comparison (Option.Rel hs.comparison.values)
      (producedProperty perform value name) (producedProperty (meaning depth) value name) := by
  cases hn : value.node? with
  | none =>
    unfold Rule.producedProperty
    rw [hn]
    exact compares_none
  | some n =>
    by_cases hform : ∃ callee arguments, s.world.arena.form n = .new callee arguments
    · obtain ⟨callee, arguments, hform⟩ := hform
      exact compares_producedProperty_of_new hc herror hn hform name
    · exact hp.producedProperty_of_call hc hn
        (fun callee arguments heq => hform ⟨callee, arguments, heq⟩) name

/-- In a program that spreads no errors, with the catalogue of the standard library,
what is called only grows with what is read. -/
lemma resolves_meaning (depth' depth : Nat) :
    Resolves hs.comparison (meaning depth) (meaning depth') := by
  induction depth' generalizing depth with
  | zero =>
    have hnone : ∀ {α : Type} {R : α → α → Prop} {r : Rule α} (op : Operation α),
        Compares hs.comparison R r (meaning 0 op) :=
      fun _ => compares_of_not_comes fun _ _ => not_comes_diverge _
    exact ⟨fun _ => hnone _, fun _ => hnone _, fun _ _ => hnone _⟩
  | succ depth' ih =>
    refine ⟨fun hcallee => ?_, fun hvalue => ?_, fun hvalues name => ?_⟩
    · exact compares_meaning (fun k => compares_calleeTargets (ih k) hcallee) depth
    · exact compares_meaning (fun k => (compares_kindsOf (ih k) hvalue).guarded .nil) depth
    · refine compares_meaning (fun k => ?_) depth
      have hsite : ∀ site, none = some site → hs.comparison.site site := fun _ h => by cases h
      exact (compares_propertyValues (ih k) hsite hvalues name
        fun value _ _ => (ih k).producedProperty hc herror value name).mono
        fun _ _ => Comparison.values_of_accessed

end Tabled

end Rule

end ValueFlow
