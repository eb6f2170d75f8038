import ValueFlow.Context.Registry
import ValueFlow.Proofs.Arena

/-!
# Working with numbers

Contexts and environments are passed around as numbers, and two of them are
compared by comparing numbers. Whatever the actions, one number stands for one
call string or one list of contexts, and keeps standing for it.
-/

namespace ValueFlow

variable {ids : List Nat} {k : Nat}

namespace EnvArena

variable {e : EnvArena}

/-- There is an environment with the given contexts, and nothing else is made. -/
def Gives (e : EnvArena) (result : Option (Nat × EnvArena)) (ids : List Nat) : Prop :=
  ∃ made, result = some made ∧ made.2.get? made.1 = some ids ∧
    (made.2 = e ∨ made.2 = (e.number ids).2)

lemma gives_intern (h : ids ≠ []) : e.Gives (e.intern? ids) ids :=
  ⟨_, if_neg h, Numbering.get?_number e ids, .inr rfl⟩

variable (h : e.get? k = some ids)
include h

lemma gives_cons (i : Nat) : e.Gives (e.cons? i k) (i :: ids) := by
  rw [cons?, h]
  exact gives_intern (List.cons_ne_nil i ids)

lemma gives_extend (inner : List Nat) : e.Gives (e.extend? inner k) (inner ++ ids) := by
  rw [extend?, h]
  by_cases hinner : inner = []
  · subst hinner
    exact ⟨(k, e), rfl, h, .inl rfl⟩
  · rw [Option.bind_eq_bind, Option.bind_some, if_neg hinner]
    exact gives_intern fun hnil => hinner (List.append_eq_nil_iff.mp hnil).1

lemma gives_dropInner (hids : ids ≠ []) (n : Nat) :
    e.Gives (e.dropInner? k n) (ids.drop (min n (ids.length - 1))) := by
  rw [dropInner?, h]
  by_cases hn : n = 0
  · subst hn
    exact ⟨(k, e), rfl, by rwa [Nat.zero_min], .inl rfl⟩
  · rw [Option.bind_eq_bind, Option.bind_some, if_neg hn]
    have hlength := List.length_pos_iff.mpr hids
    exact gives_intern (mt List.drop_eq_nil_iff.mp (by omega))

lemma gives_replace {index : Nat} (hindex : index < ids.length) (i : Nat) :
    e.Gives (e.replace? k index i) (ids.set index i) := by
  rw [replace?, h, Option.bind_eq_bind, Option.bind_some, if_pos hindex]
  refine gives_intern fun hnil => ?_
  rw [← List.length_set, hnil] at hindex
  cases hindex

end EnvArena

namespace Registry

variable {r r' : Registry} {i : Nat} {c : Context} {action : Action}

/-- The contexts are sound, and every environment has one number, has contexts, and has
only numbered ones. -/
structure Sound (r : Registry) : Prop where
  contexts : r.contexts.Sound
  envs : r.envs.Canonical
  known : ∀ k ids, r.envs.get? k = some ids → ids ≠ [] ∧ ∀ i ∈ ids, i < r.contexts.size

/-- Numbers stand for what they did before. -/
structure Keeps (r r' : Registry) : Prop where
  contexts : r.contexts.Extends r'.contexts
  views : ∀ i < r.contexts.size, r'.contexts.context i = r.contexts.context i
  envs : r.envs.Extends r'.envs

lemma sound_initial : initial.Sound where
  contexts := ContextArena.sound_initial
  envs := Numbering.canonical_empty
  known k ids h := by cases h

lemma Keeps.refl (r : Registry) : r.Keeps r := ⟨.refl _, fun _ _ => rfl, .refl _⟩

lemma Keeps.trans {r'' : Registry} (h : r.Keeps r') (h' : r'.Keeps r'') : r.Keeps r'' where
  contexts := h.contexts.trans h'.contexts
  views i hi := (h'.views i (h.contexts.lt_size hi)).trans (h.views i hi)
  envs := h.envs.trans h'.envs

/-! ## One action -/

lemma Sound.withContexts (h : r.Sound) {made : Nat × ContextArena}
    (hmade : r.contexts.Makes made c) :
    (r.withContexts made).2.Sound ∧ r.Keeps (r.withContexts made).2 := by
  have hkeeps : r.Keeps (r.withContexts made).2 :=
    ⟨hmade.keeps, fun i => h.contexts.context_of_extends hmade.sound hmade.keeps, .refl _⟩
  refine ⟨⟨hmade.sound, h.envs, fun k ids hk => ?_⟩, hkeeps⟩
  obtain ⟨hids, hknown⟩ := h.known k ids hk
  exact ⟨hids, fun i hi => hmade.keeps.lt_size (hknown i hi)⟩

/-- The action gives an environment with the given contexts, and nothing else changes. -/
def MakesEnv (r : Registry) (action : Action) (ids : List Nat) : Prop :=
  ∃ k r', r.act? action = some (k, r') ∧ r'.envs.get? k = some ids ∧ r'.Sound ∧ r.Keeps r'

lemma Sound.makesEnv (h : r.Sound) {result : Option (Nat × EnvArena)}
    (hact : r.act? action = result.map r.withEnvs) (hgives : r.envs.Gives result ids)
    (hids : ids ≠ []) (hknown : ∀ i ∈ ids, i < r.contexts.size) : r.MakesEnv action ids := by
  obtain ⟨⟨k, envs⟩, rfl, hget, hmade⟩ := hgives
  refine ⟨k, _, hact, hget, ?_⟩
  obtain rfl | rfl := hmade
  · exact ⟨h, .refl r⟩
  · obtain ⟨hcanonical, hextends, -⟩ := Numbering.number_spec h.envs ids
    refine ⟨⟨h.contexts, hcanonical, fun k other hk => ?_⟩, .refl _, fun _ _ => rfl, hextends⟩
    obtain hk | ⟨-, rfl⟩ := Numbering.get?_of_number hk
    · exact h.known k other hk
    · exact ⟨hids, hknown⟩

section Environments

variable (h : r.Sound)
include h

lemma Sound.makes_intern (hids : ids ≠ []) (hknown : ∀ i ∈ ids, i < r.contexts.size) :
    r.MakesEnv (.intern ids) ids :=
  h.makesEnv (if_pos hknown) (EnvArena.gives_intern hids) hids hknown

variable (hk : r.envs.get? k = some ids)
include hk

lemma Sound.makes_cons (hi : i < r.contexts.size) : r.MakesEnv (.cons i k) (i :: ids) :=
  h.makesEnv (if_pos (List.forall_mem_singleton (p := (· < r.contexts.size)).mpr hi))
    (EnvArena.gives_cons hk i)
    (List.cons_ne_nil i ids) (List.forall_mem_cons.mpr ⟨hi, (h.known k ids hk).2⟩)

lemma Sound.makes_extend {inner : List Nat} (hinner : ∀ i ∈ inner, i < r.contexts.size) :
    r.MakesEnv (.extend inner k) (inner ++ ids) := by
  obtain ⟨hids, hknown⟩ := h.known k ids hk
  exact h.makesEnv (if_pos hinner) (EnvArena.gives_extend hk inner)
    (List.append_ne_nil_of_right_ne_nil inner hids) (List.forall_mem_append.mpr ⟨hinner, hknown⟩)

lemma Sound.makes_dropInner (n : Nat) :
    r.MakesEnv (.dropInner k n) (ids.drop (min n (ids.length - 1))) := by
  obtain ⟨hids, hknown⟩ := h.known k ids hk
  have hlength := List.length_pos_iff.mpr hids
  exact h.makesEnv (if_pos nofun) (EnvArena.gives_dropInner hk hids n)
    (mt List.drop_eq_nil_iff.mp (by omega)) fun i hi => hknown i (List.mem_of_mem_drop hi)

lemma Sound.makes_replace {index : Nat} (hindex : index < ids.length)
    (hi : i < r.contexts.size) : r.MakesEnv (.replace k index i) (ids.set index i) := by
  refine h.makesEnv (if_pos (List.forall_mem_singleton (p := (· < r.contexts.size)).mpr hi))
    (EnvArena.gives_replace hk hindex i) (fun hnil => ?_) fun j hj => ?_
  · rw [← List.length_set, hnil] at hindex
    cases hindex
  · obtain hj | rfl := List.mem_or_eq_of_mem_set hj
    · exact (h.known k ids hk).2 j hj
    · exact hi

end Environments

lemma MakesEnv.of_act (h : r.MakesEnv action ids) (hact : r.act? action = some (i, r')) :
    r'.Sound ∧ r.Keeps r' := by
  obtain ⟨_, _, hmade, -, hr⟩ := h
  cases hmade.symm.trans hact
  exact hr

/-- What one action does: all that was there stays as it is. -/
lemma Sound.act (h : r.Sound) (hact : r.act? action = some (i, r')) : r'.Sound ∧ r.Keeps r' := by
  have hguard : ∀ i ∈ action.contexts, i < r.contexts.size := by
    by_contra hguard
    unfold act? at hact
    rw [if_neg hguard] at hact
    cases hact
  have hact' := hact
  unfold act? at hact'
  rw [if_pos hguard] at hact'
  cases action with
  | question function =>
    cases hact'
    exact h.withContexts (h.contexts.makes_ending _)
  | frame site tail =>
    cases hact'
    exact h.withContexts (h.contexts.makes_frame (hguard tail (.head _)) site)
  | truncate context m =>
    cases hact'
    exact h.withContexts (h.contexts.makes_truncate (hguard context (.head _)) m)
  | push site head m =>
    cases hact'
    exact h.withContexts (h.contexts.makes_push (hguard head (.head _)) site m)
  | intern ids =>
    refine (h.makes_intern ?_ hguard).of_act hact
    rintro rfl
    cases hact'
  | cons head k =>
    obtain ⟨_, hcons, -⟩ := Option.map_eq_some_iff.mp hact'
    obtain ⟨ids, hk, -⟩ := Option.bind_eq_some_iff.mp hcons
    exact (h.makes_cons hk (hguard head (.head _))).of_act hact
  | extend inner k =>
    obtain ⟨_, hextend, -⟩ := Option.map_eq_some_iff.mp hact'
    obtain ⟨ids, hk, -⟩ := Option.bind_eq_some_iff.mp hextend
    exact (h.makes_extend hk hguard).of_act hact
  | dropInner k n =>
    obtain ⟨_, hdrop, -⟩ := Option.map_eq_some_iff.mp hact'
    obtain ⟨ids, hk, -⟩ := Option.bind_eq_some_iff.mp hdrop
    exact (h.makes_dropInner hk n).of_act hact
  | replace k index context =>
    obtain ⟨_, hreplace, -⟩ := Option.map_eq_some_iff.mp hact'
    obtain ⟨ids, hk, hset⟩ := Option.bind_eq_some_iff.mp hreplace
    by_cases hindex : index < ids.length
    · exact (h.makes_replace hk hindex (hguard context (.head _))).of_act hact
    · rw [if_neg hindex] at hset
      cases hset

/-- Every run makes its contexts from numbered ones, and no number changes on the way. -/
lemma Sound.run {actions : List Action} (h : r.Sound) (hrun : run? actions r = some r') :
    r'.Sound ∧ r.Keeps r' := by
  induction actions generalizing r with
  | nil =>
    cases hrun
    exact ⟨h, .refl _⟩
  | cons action actions ih =>
    obtain ⟨middle, hstep, hrun⟩ := Option.bind_eq_some_iff.mp hrun
    obtain ⟨⟨i, _⟩, hact, rfl⟩ := Option.map_eq_some_iff.mp hstep
    obtain ⟨hmiddle, hkeeps⟩ := h.act hact
    obtain ⟨hsound, hkeeps'⟩ := ih hmiddle hrun
    exact ⟨hsound, hkeeps.trans hkeeps'⟩

/-! ## Contexts -/

/-- **When a context refines another one.** In the arena after any actions, the context `i`
refines the context `j` exactly if they are one context, or if the call string of the
second one was cut off or has an unknown caller, and its call sites are the most recent
ones of the first. So contexts refine themselves, and refinements of refinements are
refinements. -/
theorem refines_iff_prefix {actions : List Action} (h : run? actions .initial = some r) :
    let a := r.contexts
    (∀ i j, i < a.size → j < a.size → (a.refines i j = true ↔ i = j ∨
      (a.terminal j = ContextArena.limit ∨ ∃ f, a.get? (a.terminal j) = some (.ending (.question f))) ∧
        a.sites j <+: a.sites i)) ∧
    (∀ i < a.size, a.refines i i = true) ∧
    ∀ i j k, i < a.size → j < a.size → k < a.size → a.refines i j = true → a.refines j k = true →
      a.refines i k = true := by
  have hsound := (sound_initial.run h).1.contexts
  refine ⟨fun i j hi hj => ?_, fun i hi => ?_, fun i j k hi hj hk hij hjk => ?_⟩
  · rw [hsound.refines_eq hi hj, Context.refines_iff, hsound.context_injective hi hj,
      Terminal.isOpen_iff, hsound.get?_terminal hj, hsound.eq_terminal_iff hj hsound.limit]
    simp only [Option.some.injEq, Link.ending.injEq]
    rfl
  · rw [hsound.refines_eq hi hi]
    exact Context.refines_refl _
  · rw [hsound.refines_eq hi hj] at hij
    rw [hsound.refines_eq hj hk] at hjk
    rw [hsound.refines_eq hi hk]
    exact Context.refines_trans hij hjk

/-- Calls at `3` and then at `4` from an unknown caller of `7`, and the context that is left
of them when the bound is one. -/
def twoCalls : List Action := [.question 7, .push 3 2 2, .push 4 3 2, .truncate 4 1]

theorem refines_iff_prefix_cut :
    ∃ r, run? twoCalls .initial = some r ∧ r.contexts.context 4 = ⟨[4, 3], .question 7⟩ ∧
      r.contexts.context 5 = ⟨[4], .limit⟩ ∧ r.contexts.refines 4 5 = true ∧
      r.contexts.refines 5 4 = false := by
  obtain ⟨r, hr, hsize, hlong, hshort, hend⟩ : ∃ r ∈ run? twoCalls .initial,
      r.contexts.size = 6 ∧ r.contexts.context 4 = ⟨[4, 3], .question 7⟩ ∧
      r.contexts.context 5 = ⟨[4], .limit⟩ ∧ r.contexts.terminal 5 = ContextArena.limit := by
    decide +kernel
  obtain ⟨hrefines, -, -⟩ := refines_iff_prefix hr
  have hsites : r.contexts.sites 4 = [4, 3] := congrArg Context.sites hlong
  have hsites' : r.contexts.sites 5 = [4] := congrArg Context.sites hshort
  refine ⟨r, hr, hlong, hshort, (hrefines 4 5 (by omega) (by omega)).mpr (.inr ⟨.inl hend, ?_⟩),
    Bool.eq_false_iff.mpr fun hback => ?_⟩
  · rw [hsites, hsites']
    exact ⟨[3], rfl⟩
  · obtain hsame | ⟨-, hback⟩ := (hrefines 5 4 (by omega) (by omega)).mp hback
    · cases hsame
    · rw [hsites, hsites'] at hback
      exact absurd hback.length_le (by decide)

/-- **Entering a call keeps the most recent sites.** In the arena after any actions,
entering a call at `site` from the context `i` leaves the first `m` of the site and the
sites of that context. It ends as that context does, or is cut off if there were more
sites; the same holds for the bound alone. Entering a call keeps the order of contexts, a
larger bound gives a more specific context, and no number changes its meaning. -/
theorem push_keeps_recent {actions : List Action} (h : run? actions .initial = some r)
    (hi : i < r.contexts.size) (site m : Nat) :
    let a := r.contexts
    a.Leaves (a.push site i m) ((site :: a.sites i).take m)
      (if 1 + a.depth i ≤ m then a.terminal i else ContextArena.limit) ∧
    a.Leaves (a.truncate i m) ((a.sites i).take m)
      (if a.depth i ≤ m then a.terminal i else ContextArena.limit) ∧
    (∀ j < a.size, a.refines i j = true →
      let (pushed, b) := a.push site i m
      let (pushed', b) := b.push site j m
      b.refines pushed pushed' = true) ∧
    ∀ m', m ≤ m' →
      let (pushed, b) := a.push site i m'
      let (pushed', b) := b.push site i m
      b.refines pushed pushed' = true := by
  have hsound := (sound_initial.run h).1.contexts
  have hdepth : r.contexts.depth i = (r.contexts.context i).depth := (ContextArena.length_sites _ i).symm
  have hpush := hsound.makes_push hi site m
  have htruncate := hsound.makes_truncate hi m
  rw [Context.push_eq] at hpush
  rw [Context.truncate_eq] at htruncate
  dsimp only
  rw [hdepth]
  refine ⟨hsound.leaves hpush (hsound.get?_cut hi _), hsound.leaves htruncate (hsound.get?_cut hi _),
    fun j hj hij => ?_, fun m' hm => ?_⟩
  · rw [hsound.refines_eq hi hj] at hij
    exact hsound.refines_push hi hj (Context.push_refines_push hij site m)
  · exact hsound.refines_push hi hi (Context.push_refines_of_le site _ hm)

/-- From the calls at `3` and `4`, a third call within the bound two leaves one site less
and no end that is known; the bound alone cuts off nothing. -/
theorem push_keeps_recent_cut :
    ∃ r, run? twoCalls .initial = some r ∧ r.contexts.sites 4 = [4, 3] ∧
      r.contexts.Leaves (r.contexts.push 5 4 2) [5, 4] ContextArena.limit ∧
      r.contexts.Leaves (r.contexts.truncate 4 2) [4, 3] 2 := by
  obtain ⟨r, hr, hsize, hsites, hdepth, hend⟩ : ∃ r ∈ run? twoCalls .initial,
      r.contexts.size = 6 ∧ r.contexts.sites 4 = [4, 3] ∧ r.contexts.depth 4 = 2 ∧
      r.contexts.terminal 4 = 2 := by
    decide +kernel
  obtain ⟨hpush, htruncate, -, -⟩ := push_keeps_recent hr (by omega : 4 < r.contexts.size) 5 2
  rw [hsites, hdepth] at hpush htruncate
  rw [hend] at htruncate
  exact ⟨r, hr, hsites, hpush, htruncate⟩

/-- **Numbers stand for what they number.** After any actions, two contexts have the same
number exactly if they have the same call sites and the same end, and two environments
exactly if their contexts stand for the same call strings; a frame has a larger number
than its tail. Whatever is done next, no number changes its meaning. Putting together,
adding inside, dropping inside and replacing do this with the list of the contexts. -/
theorem numbers_canonical {actions : List Action} (h : run? actions .initial = some r) :
    let a := r.contexts
    (∀ i j, i < a.size → j < a.size →
      (i = j ↔ a.sites i = a.sites j ∧ a.get? (a.terminal i) = a.get? (a.terminal j))) ∧
    (∀ k l ids ids', r.envs.get? k = some ids → r.envs.get? l = some ids' →
      (k = l ↔ ids.map a.context = ids'.map a.context)) ∧
    (∀ i site tail, a.get? i = some (.frame site tail) → tail < i) ∧
    (∀ more r', run? more r = some r' → r.Keeps r') ∧
    (∀ ids, ids ≠ [] → (∀ i ∈ ids, i < a.size) → r.MakesEnv (.intern ids) ids) ∧
    ∀ k ids, r.envs.get? k = some ids →
      (∀ i < a.size, r.MakesEnv (.cons i k) (i :: ids)) ∧
      (∀ inner, (∀ i ∈ inner, i < a.size) → r.MakesEnv (.extend inner k) (inner ++ ids)) ∧
      (∀ n, r.MakesEnv (.dropInner k n) (ids.drop (min n (ids.length - 1)))) ∧
      ∀ index < ids.length, ∀ i < a.size, r.MakesEnv (.replace k index i) (ids.set index i) := by
  have hr := (sound_initial.run h).1
  refine ⟨fun i j hi hj => ?_, fun k l ids ids' hk hl => ?_, hr.contexts.older,
    fun more r' hmore => (hr.run hmore).2, fun ids => hr.makes_intern,
    fun k ids hk => ⟨fun i hi => hr.makes_cons hk hi, fun inner hinner => hr.makes_extend hk hinner,
      hr.makes_dropInner hk, fun index hindex i hi => hr.makes_replace hk hindex hi⟩⟩
  · rw [hr.contexts.get?_terminal hi, hr.contexts.get?_terminal hj, Option.some.injEq,
      Link.ending.injEq, ← hr.contexts.context_injective hi hj]
    exact Context.mk.injEq .. ▸ Iff.rfl
  · rw [hr.envs.eq_iff hk hl]
    exact ⟨congrArg _, hr.contexts.eq_of_map_context (hr.known k ids hk).2 (hr.known l ids' hl).2⟩

/-- The environments of a function called at `4`, and of the module around it. -/
def calledOnce : List Action := [.push 4 0 1, .intern [0], .cons 2 0, .dropInner 1 1]

theorem numbers_canonical_calledOnce :
    ∃ r, run? calledOnce .initial = some r ∧ r.env? 0 = some .root ∧
      r.env? 1 = some ⟨⟨[4], .stackBottom⟩, [.stackBottom]⟩ ∧
      r.MakesEnv (.dropInner 1 3) [0] ∧ r.MakesEnv (.replace 1 1 2) [2, 2] := by
  obtain ⟨r, hr, hsize, hbody, hroot, henv⟩ : ∃ r ∈ run? calledOnce .initial,
      r.contexts.size = 3 ∧ r.envs.get? 1 = some [2, 0] ∧ r.env? 0 = some .root ∧
      r.env? 1 = some ⟨⟨[4], .stackBottom⟩, [.stackBottom]⟩ := by
    decide +kernel
  obtain ⟨-, -, -, -, -, henvs⟩ := numbers_canonical hr
  obtain ⟨-, -, hdrop, hreplace⟩ := henvs 1 _ hbody
  exact ⟨r, hr, hroot, henv, hdrop 3, hreplace 1 (by decide) 2 (by omega)⟩

end Registry

end ValueFlow
