import ValueFlow.Proofs.Context
import ValueFlow.Proofs.Flow.Comparison.Operations

/-!
# Comparing the questions

The rules of the six questions, and with them the right-hand side of every query about
a place. The answers are places again; those of an evaluation are values, and those of a
question for callers are calls that the context asked for can be reached by.

Only the origins of a name can be missing: the walk from a binding up to the pattern it
is in has to end where a pattern is declared, and the import of a name has to end at a
declaration. Both do, if the name has a declaration.
-/

namespace ValueFlow

def Config.Enters (w : World) (head : Context) (c : Config) : Prop :=
  ∃ call, c.cursor.call? = some call ∧
    (head.depth ≤ w.bound → (Context.push call c.env.head w.bound).refines head = true)

/-! ## Refinements -/

/-- In `c` one context of `config` that stands for any caller of a function is
replaced by another that the function was entered with, by the facts at hand. -/
def Config.Refines (facts : Query → Config → Prop) (config c : Config) : Prop :=
  ∃ index function outer fact env,
    config.env.toList.drop index = .question function :: outer.toList ∧
    facts ⟨.entered, .ofNode function outer⟩ fact ∧ fact.env.head ≠ .question function ∧
    config.env.replace? index fact.env.head = some env ∧ c = { config with env }

section Refines

variable {w : World} {C : Comparison w} {config c : Config} {facts : Query → Config → Prop}

/-- A refinement is one at every cursor, also by more facts. -/
lemma Config.Refines.at_cursor {facts' : Query → Config → Prop} (h : config.Refines facts c)
    (hfacts : ∀ q fact, facts q fact → facts' q fact) (cursor : Cursor) :
    Config.Refines facts' ⟨cursor, config.env⟩ ⟨cursor, c.env⟩ := by
  obtain ⟨index, function, outer, fact, env, hdrop, hfact, hne, henv, rfl⟩ := h
  exact ⟨index, function, outer, fact, env, hdrop, hfacts _ _ hfact, hne, henv, rfl⟩

lemma Config.Refines.cursor_eq (h : config.Refines facts c) : c.cursor = config.cursor := by
  obtain ⟨index, f, outer, fact, env, -, -, -, -, rfl⟩ := h
  rfl

/-- There is nothing to refine at module level. -/
lemma Config.Refines.env_ne_root (h : config.Refines facts c) : config.env ≠ .root := by
  obtain ⟨index, f, outer, fact, env, hdrop, -⟩ := h
  intro hroot
  rw [hroot] at hdrop
  exact Env.drop_root_ne index f outer.toList hdrop

/-- A refinement is about the same name. -/
lemma Query.Answerable.of_refines {kind : QueryKind} (h : Query.Answerable w ⟨kind, config⟩)
    (hrefines : config.Refines facts c) : Query.Answerable w ⟨kind, c⟩ := by
  obtain ⟨index, function, outer, fact, env, -, -, -, -, rfl⟩ := hrefines
  exact h

/-- The environment of a refinement belongs where that of the configuration
does. -/
lemma Comparison.fits_of_refines {chain : Option (List NodeId)}
    (hfits : C.fits chain config.env) (h : config.Refines C.fact c) : C.fits chain c.env := by
  obtain ⟨index, f, outer, fact, env, hdrop, hfact, -, henv, rfl⟩ := h
  exact C.refined _ _ index f outer fact.env env hfits hdrop ((C.reads hfact).1 f rfl) henv

lemma Comparison.spot_of_refines (hconfig : C.spot config) (h : config.Refines C.fact c) :
    C.spot c :=
  ⟨h.cursor_eq ▸ hconfig.point, h.cursor_eq ▸ C.fits_of_refines hconfig.fits h⟩

lemma Comparison.body_of_refines (hconfig : C.body config) (h : config.Refines C.fact c) :
    C.body c :=
  ⟨h.cursor_eq ▸ hconfig.point, h.cursor_eq ▸ C.fits_of_refines hconfig.fits h⟩

lemma Comparison.place_of_refines (hconfig : C.place config) (h : config.Refines C.fact c) :
    C.place c := by
  obtain hconfig | ⟨n, -, heq⟩ := hconfig
  · exact .inl (C.spot_of_refines hconfig h)
  · exact absurd (congrArg Config.env heq) h.env_ne_root

lemma Comparison.asked_of_refines {kind : QueryKind} (hconfig : C.Asked ⟨kind, config⟩)
    (h : config.Refines C.fact c) : C.Asked ⟨kind, c⟩ := by
  cases kind with
  | evaluate =>
    obtain hconfig | ⟨n, position, -, heq⟩ := hconfig
    · exact .inl (C.place_of_refines hconfig h)
    · exact absurd (congrArg Config.env heq) h.env_ne_root
  | traced => exact C.place_of_refines hconfig h
  | callers => exact C.body_of_refines hconfig h
  | applied | bind | entered => exact C.spot_of_refines hconfig h

end Refines

/-- What the rule of a question finds. -/
structure Comparison.Answers {w : World} (C : Comparison w) (q : Query) (c : Config) : Prop where
  rule   : q.kind ≠ .entered
  found  : C.Found q c
  value  : q.kind = .evaluate → C.value c ∨ c = q.config ∧ c.Stands w
  caller : q.kind = .callers → c.Enters w q.config.env.head

namespace Rule

variable {w : World} {C : Comparison w} {perform perform' : Meaning} {env : Env}
  {pattern : NodeId} {chain : Option (List NodeId)} {config : Config} {query : Query}
  {call parent n : NodeId} {aliases aliases' : ConfigSet} {p : Config → Prop}

/-! ## Bindings -/

lemma compares_origin (h : C.At n env) :
    Steady C C.origins (pure (.ofNode n env)) :=
  compares_below (C.origins_ofNode h)

lemma compares_external_origin : Steady C C.origins (pure .external) :=
  compares_below C.origins_external

lemma compares_anyElement {chain : List NodeId} (henv : C.fits (some chain) env)
    (hchain : w.arena.Chain chain) {iterated : NodeId} (hn : iterated < w.arena.size)
    (hnear : C.near chain (w.arena.functionsAround iterated)) :
    Steady C C.origins (anyElement iterated env) :=
  (compares_envAt henv hchain hn hnear).andThen fun _ h =>
    compares_below (.singleton (C.origin_of_spot (C.spot_pick.mpr h)))

lemma compares_loopOrigins {declarator : NodeId} (h : C.At declarator env) :
    Steady C C.origins (loopOrigins declarator env) := by
  unfold Steady loopOrigins
  rw [compares_bind_arena]
  split
  · next head loop hloop =>
    obtain ⟨_, hhead, hloop⟩ := Option.bind_eq_some_iff.mp hloop
    obtain ⟨_, hloop, heq⟩ := Option.map_eq_some_iff.mp hloop
    cases heq
    split
    · next iterated _ hform =>
      refine .ite (fun _ => compares_empty) fun _ =>
        .ite (fun _ => compares_external_origin) fun _ => ?_
      -- what is iterated is around the head, and so around the declarator
      have hiterated :=
        C.built.forest.under_of_part hform (c := iterated) (by simp [Form.children]) rfl
      have hnear : w.arena.functionsAround iterated <:+
          w.arena.functionsAround declarator := by
        rw [hiterated.2, (C.built.forest.under_of_parent hloop hform rfl).2,
          C.built.forest.functionsAround_of_parent hhead]
        exact Arena.around_suffix_within head
      exact compares_anyElement h.fits (C.built.forest.chain_around _) hiterated.1
        (C.near_outer hnear)
    · exact compares_empty
  · exact compares_empty

lemma compares_argumentOriginsFrom (position : Nat) {arguments : List NodeId}
    (harguments : ∀ n ∈ arguments, C.At n env) (offset : Nat) (afterSpread : Bool) :
    Steady C C.origins (argumentOriginsFrom env position offset afterSpread arguments) := by
  induction arguments generalizing offset afterSpread with
  | nil => exact compares_empty
  | cons argument rest ih =>
    obtain ⟨hargument, hrest⟩ := List.forall_mem_cons.mp harguments
    unfold Steady argumentOriginsFrom
    rw [compares_bind_formOf]
    -- behind a spread any argument can be at the position
    split
    · next hform =>
      have hinner := hargument.part hform (.head _) rfl
      exact (ih hrest _ _).bind fun _ _ hothers =>
        compares_below (hothers.insert (C.origin_of_spot (C.spot_pick.mpr hinner)))
    · exact .ite (fun _ => (ih hrest _ _).bind fun _ _ hothers =>
          compares_below (hothers.insert (C.origin_ofNode hargument)))
        fun _ => .ite (fun _ => compares_origin hargument) fun _ => ih hrest _ _

lemma compares_importOrigins {binding : NodeId}
    (hsymbol : (w.program.scopes.symbolAt binding).isSome = true) :
    Steady C C.origins (importOrigins binding) := by
  obtain ⟨id, hid⟩ := Option.isSome_iff_exists.mp hsymbol
  have hinside := C.built.inside_importTarget id
  unfold Steady importOrigins
  rw [compares_bind_scopes, hid]
  dsimp only
  split
  · next target htarget =>
    rw [htarget] at hinside
    exact (compares_topLevel (C.built.lt_of_binding hinside)).andThen fun _ hat =>
      compares_ask_bind hat (C.built.isSome_symbolAt_binding hinside)
  · next value htarget =>
    rw [htarget] at hinside
    exact (compares_topLevel hinside).andThen fun _ => compares_origin
  · next m htarget =>
    rw [htarget] at hinside
    exact compares_bind_arena.mpr (compares_below (C.origins_of_values (C.values_module hinside)))
  · exact compares_external_origin

section Bindings

variable (hp : Performs C perform perform') {env : Env}
include hp

section Steps

variable {chain : List NodeId} (henv : C.fits (some chain) env)
  (hchain : w.arena.Chain chain) {origins origins' : ConfigSet}
include henv hchain

lemma compares_applyStep {found found' : ConfigSet} (hfound : C.values found found')
    {step : PatternStep} (hstep : step.Leads (w.arena.Under chain)) :
    Compares C C.values (applyStep perform env found step)
      (applyStep perform' env found' step) := by
  have hproperty := fun name => hp.resolves.property hfound name
  cases step with
  | property key =>
    cases key with
    | named key => exact compares_bind_textOf.mpr (hproperty _)
    | computed key =>
      simp only [applyStep, compares_bind_formOf]
      split
      · exact compares_bind_textOf.mpr (hproperty _)
      · exact compares_bind_textOf.mpr (hproperty _)
      · exact compares_unsupported_empty _ _
  | index position => exact hp.elementsOf hfound _
  | rest => exact compares_below hfound
  | default value =>
    exact (compares_envAt henv hchain hstep.1 (C.near_of_eq hstep.2)).andThen fun _ hat =>
      compares_union hfound (compares_values hat)

omit henv hchain in
lemma compares_pickOrigins (horigins : C.origins origins origins') (position : Nat) :
    Compares C C.origins (pickOrigins perform origins position)
      (pickOrigins perform' origins' position) := by
  refine compares_unionOver horigins (fun _ => id) fun origin horigin => ?_
  split
  · next n hcursor =>
    rw [Config.eq_of_node? (Config.node?_of_cursor hcursor)] at horigin
    exact compares_below (.singleton (C.pick_of_origin horigin _))
  · exact (compares_ask_values horigin).bind fun _ _ h =>
      (hp.elementsOf h _).mono fun _ _ => C.origins_of_values

lemma compares_followSteps (horigins : C.origins origins origins') {steps : List PatternStep}
    (hsteps : ∀ step ∈ steps, step.Leads (w.arena.Under chain)) :
    Compares C C.origins (followSteps perform origins env steps)
      (followSteps perform' origins' env steps) := by
  cases steps with
  | nil => exact compares_below horigins
  | cons first rest =>
    obtain ⟨hfirst, hrest⟩ := List.forall_mem_cons.mp hsteps
    have hothers : ∀ start start', C.origins start start' → Compares C C.origins
        (rest.foldlM (fun found step => do applyStep perform env (← evaluateAll found) step) start)
        (rest.foldlM (fun found step => do
          applyStep perform' env (← evaluateAll found) step) start') := fun _ _ hstart =>
      compares_foldlM (fun _ _ h => h.right) hstart fun _ _ hfound step hmem =>
        (compares_evaluateAll hfound).bind fun _ _ hvalues =>
          (compares_applyStep hp henv hchain hvalues (hrest step hmem)).mono
            fun _ _ => C.origins_of_values
    have hevaluated : ∀ {step : PatternStep}, step.Leads (w.arena.Under chain) →
        Compares C C.origins
          (do
            let start ← applyStep perform env (← evaluateAll origins) step
            rest.foldlM (fun found step => do
              applyStep perform env (← evaluateAll found) step) start)
          (do
            let start ← applyStep perform' env (← evaluateAll origins') step
            rest.foldlM (fun found step => do
              applyStep perform' env (← evaluateAll found) step) start) :=
      fun hstep => (compares_evaluateAll horigins).bind fun _ _ hvalues =>
        (compares_applyStep hp henv hchain hvalues hstep).bind fun _ _ hstart =>
          hothers _ _ (C.origins_of_values hstart)
    -- an index is picked from the origins, all else from their values
    cases first with
    | index position => exact (compares_pickOrigins hp horigins position).bind hothers
    | property | rest | default => exact hevaluated hfirst

end Steps

lemma compares_builtinBinding {site : Site} (hsite : C.At site.node site.env)
    (callback param : Nat) : hp.Agrees C.values (builtinBinding · site callback param) := by
  unfold Performs.Agrees builtinBinding
  rw [compares_bind_formOf]
  split
  · exact compares_external
  · next hparts =>
    refine (hp.targets (hsite.callee hparts)).bind fun _ _ htargets =>
      compares_unionOf htargets fun target _ => ?_
    cases target with
    | builtin id =>
      refine (compares_entry id).next fun entry => ?_
      split
      · exact compares_binderSummary hp hsite callback param _
      · exact compares_external
    | external => exact compares_external
    | function value => exact compares_empty

lemma compares_paramOrigins {f : NodeId} (hbody : C.Body f env) (position : Nat) (isRest : Bool) :
    hp.Agrees C.origins (paramOrigins · f position isRest env) := by
  refine (compares_isTarget f).next fun _ => .ite (fun _ => compares_external_origin) fun _ => ?_
  refine (compares_scopeEnv hbody.fits (C.built.forest.chain_within f) f
    (C.near_of_eq rfl)).andThen fun bodyEnv hfits => ?_
  refine (compares_ask_callers ⟨hbody.node, hfits⟩).bind fun _ _ hcallers =>
    compares_unionOver_spots hcallers fun caller hcaller => ?_
  -- called in the program, by a builtin, or from outside
  split
  · next call hcursor =>
    have hcall : C.At call caller.env := C.at_of_spot hcaller (Config.node?_of_cursor hcursor)
    exact .ite
      (fun _ => compares_below (.singleton (C.origin_of_spot (C.spot_arguments.mpr hcall))))
      fun _ => (compares_argumentsOf hcall).andThen fun _ harguments =>
        compares_argumentOriginsFrom position harguments _ _
  · next call callback hcursor =>
    have hcall : C.At call caller.env := C.at_of_place_arguments (.inl hcaller) hcursor
    exact (compares_builtinBinding hp hcall callback position).mono fun _ _ => C.origins_of_values
  · exact compares_external_origin

lemma compares_thrownByCall {call callee : NodeId} (hcall : C.At call env)
    (hcallee : C.At callee env) : hp.Agrees C.origins (thrownByCall · call callee env) := by
  unfold Performs.Agrees thrownByCall
  rw [compares_bind_arena]
  refine (hp.targets hcallee).bind fun _ _ htargets =>
    compares_unionOf htargets fun target htarget => ?_
  -- only functions of the program are known to throw
  cases target with
  | function function =>
    obtain ⟨f, outer, rfl, hf, houter⟩ := htarget
    dsimp only
    split
    · next hform =>
      have hform : w.arena.form f = _ := Option.some.inj hform
      refine (compares_enter hf houter hcall).andThen fun bodyEnv hbody =>
        compares_below (.refl (ConfigSet.All.ofList ?_))
      intro c hc
      obtain ⟨d, hd, hc⟩ := List.mem_filterMap.mp hc
      split at hc
      · next value hthrow =>
        cases hc
        refine C.origin_ofNode ⟨C.inside value ?_, ?_⟩
        · exact C.built.forest.lt_size_of_part (n := d) (by simp [hthrow, Form.children])
        · exact C.thrown f _ _ _ _ d value bodyEnv hform hd hthrow hbody.2.fits
      · cases hc
    · exact compares_empty
  | builtin | external => exact compares_empty

lemma compares_catchOrigins {clause : NodeId} (hclause : C.At clause env) :
    hp.Agrees C.origins (catchOrigins · clause env) := by
  unfold Performs.Agrees catchOrigins
  rw [compares_bind_arena]
  split
  · next block _ _ htry =>
    obtain ⟨t, hparent, hform⟩ := Option.map_eq_some_iff.mp htry
    have hblock : C.At block env := (hclause.parent hparent hform rfl).part hform (.head _) rfl
    have hnot := Arena.Forest.isFunction_block C.built.tidy hform
    refine (compares_unionOf_list _ fun n hn => ?_).bind fun _ _ hthrown =>
      compares_below (hthrown.union C.origins_external)
    have haround := C.built.forest.around_of_mem_localDescendants hnot hn
    have hat : w.arena.form n ≠ .empty → C.At n env := fun hform =>
      hblock.under ⟨Arena.lt_size_of_form hform, haround⟩
    split
    · next hform => exact compares_origin ((hat (by simp [hform])).part hform (.head _) rfl)
    · next hform =>
      have hcall := hat (by simp [hform])
      exact compares_thrownByCall hp hcall (hcall.part hform (.head _) rfl)
    · exact compares_empty
  · exact compares_external_origin

lemma compares_mutationOrigins {reference : NodeId} (h : C.At reference env) :
    hp.Agrees C.origins (mutationOrigins · reference env) := by
  have hfollow : ∀ {origins origins' : ConfigSet}, C.origins origins origins' →
      Compares C C.origins (followSteps perform origins env (w.arena.patternRoot reference).2)
        (followSteps perform' origins' env (w.arena.patternRoot reference).2) :=
    fun horigins => compares_followSteps hp h.fits (C.built.forest.chain_around _) horigins
      (C.built.forest.leads_patternRoot reference)
  unfold Performs.Agrees mutationOrigins
  rw [compares_bind_arena]
  dsimp only
  -- an assignment, an update, or the head of a loop
  split
  · next parent op target value hparent =>
    obtain ⟨_, hup, heq⟩ := Option.map_eq_some_iff.mp hparent
    obtain ⟨rfl, hform⟩ := Prod.mk.inj heq
    have hassign := h.patternParent hup hform rfl
    have hvalue : C.At value env := hassign.part hform (by simp [Form.children]) rfl
    refine .ite (fun _ => compares_empty) fun _ => ?_
    split
    · exact hfollow (C.origins_ofNode hvalue)
    · exact hfollow (C.origins_ofNode hvalue)
    · refine hfollow ?_
      split
      · exact C.origins_ofNode hassign
      · exact .empty
  · next parent _ _ operand hparent =>
    obtain ⟨_, hup, heq⟩ := Option.map_eq_some_iff.mp hparent
    obtain ⟨rfl, hform⟩ := Prod.mk.inj heq
    exact .ite (fun _ => compares_origin (h.patternParent hup hform rfl)) fun _ => compares_empty
  · next iterated _ hparent =>
    obtain ⟨_, hup, heq⟩ := Option.map_eq_some_iff.mp hparent
    obtain ⟨rfl, hform⟩ := Prod.mk.inj heq
    have hunder := C.built.forest.under_of_part hform (c := iterated) (by simp [Form.children]) rfl
    have haround := (h.patternParent hup hform rfl).fits
    exact .ite (fun _ => compares_empty) fun _ =>
      .ite (fun _ => hfollow C.origins_external) fun _ =>
        (compares_anyElement haround (C.built.forest.chain_around _) hunder.1
          (C.near_of_eq hunder.2)).bind fun _ _ => hfollow
  · exact compares_empty

/-- A pattern is declared in one of four ways. -/
lemma compares_rootOrigins {binding root parent : NodeId}
    (hsymbol : (w.program.scopes.symbolAt binding).isSome = true)
    (hroot : w.arena.DeclaresAt root parent)
    (hparent : w.arena.parent? root = some parent) {chain : List NodeId}
    (henv : C.fits (some chain) env) (howns : w.arena.Owns root parent chain) :
    hp.Agrees C.origins (rootOrigins · binding root parent env) := by
  have hlt := C.built.forest.lt_size_of_parent hparent
  have haround := C.built.forest.functionsAround_of_parent hparent
  -- a pattern of no function is where its environment is
  have hat : ∀ {form : Form NodeId}, w.arena.form parent = form →
      form.isFunction = false → C.At parent env := by
    intro form hform hnot
    obtain rfl | ⟨params, body, flags, hfunction, -⟩ := howns
    · refine ⟨C.inside parent hlt, ?_⟩
      rwa [← (C.built.forest.under_of_parent hparent hform hnot).2] at henv
    · rw [← hform, hfunction] at hnot
      cases hnot
  unfold Arena.DeclaresAt at hroot
  unfold Performs.Agrees rootOrigins
  rw [compares_bind_formOf]
  split
  · next init hform =>
    rw [hform] at hroot
    refine .ite (fun hne => absurd hroot hne) fun _ => ?_
    have hdeclarator := hat hform rfl
    split
    · next init =>
      have hinit := C.built.forest.under_of_part hform (c := init) (by simp [Form.children]) rfl
      exact (compares_envAt_under hdeclarator hinit).andThen fun _ => compares_origin
    · exact compares_loopOrigins hdeclarator
  · next name params body flags hform =>
    have hf : w.arena.isFunction parent = true := by rw [Arena.isFunction, hform]; rfl
    rw [hform] at hroot
    have hnested : Arena.Nested chain (w.arena.functionsAround parent) ∧
        w.arena.Chain chain := by
      obtain rfl | ⟨params, body, flags, -, rfl⟩ := howns
      · rw [haround]
        exact ⟨.inr (Arena.around_suffix_within parent), C.built.forest.chain_within parent⟩
      · exact ⟨Arena.nested_self _, C.built.forest.chain_around parent⟩
    refine .ite (fun _ => (compares_envAt henv hnested.2 hlt (C.nested _ _ hnested.1)).andThen
      fun _ => compares_origin) fun hname => ?_
    have hmem : root ∈ params := hroot.resolve_left hname
    have hbody : C.Body parent env := by
      obtain rfl | ⟨params', body', flags', hform', -⟩ := howns
      · exact ⟨C.inside parent hlt, haround ▸ henv⟩
      · cases hform.symm.trans hform'
        exact absurd rfl hname
    split
    · exact compares_bind_formOf.mpr (compares_paramOrigins hp hbody _ _)
    · next hnone =>
      -- a parameter is found among the parameters
      have := List.findIdx?_eq_none_iff.mp hnone root hmem
      simp at this
  · next hform =>
    rw [hform] at hroot
    exact .ite (fun _ => compares_catchOrigins hp (hat hform rfl)) fun hne => absurd hroot hne
  · next hform =>
    rw [hform] at hroot
    exact .ite (fun _ => compares_importOrigins hsymbol) fun hne => absurd hroot hne
  · next hdeclarator hfunction hcatch himport =>
    -- nothing else declares
    split at hroot
    · next hform => exact (hdeclarator _ _ hform).elim
    · next hform => exact (hfunction _ _ _ _ hform).elim
    · next hform => exact (hcatch _ _ hform).elim
    · next hform => exact (himport _ _ hform).elim
    · exact hroot.elim

lemma compares_bindingOrigins {id : DeclId} (hid : id < w.program.scopes.decls.size)
    (henv : C.fits (some (w.arena.functionsWithin (w.program.scopes.decl id).scope)) env) :
    hp.Agrees C.origins (bindingOrigins · (w.program.scopes.decl id).binding env) := by
  have hsymbol := C.built.isSome_symbolAt_binding hid
  obtain ⟨parent, hparent, hroot⟩ := C.built.declaresAt_root hid
  obtain ⟨howns, hsteps⟩ := C.built.owns_scope hid hparent
  unfold Performs.Agrees bindingOrigins
  rw [compares_bind_arena]
  dsimp only
  rw [hparent]
  exact (compares_rootOrigins hp hsymbol hroot hparent henv howns).bind fun _ _ horigins =>
    compares_followSteps hp henv (C.built.forest.chain_within _) horigins hsteps

lemma compares_bind (hconfig : C.spot config) (hanswerable : Query.Answerable w ⟨.bind, config⟩) :
    hp.Agrees C.origins (bind · config) := by
  unfold Rule.bind
  split
  · exact compares_empty
  · next n hn =>
    obtain ⟨id, hid⟩ := Option.isSome_iff_exists.mp (hanswerable rfl n hn)
    rw [Performs.Agrees, compares_bind_scopes, hid]
    refine (compares_scopeEnv (C.at_of_spot hconfig hn).fits (C.built.forest.chain_around n) _
      (C.near_outer (C.built.within_scope_suffix hid))).andThen fun declEnv hdecl =>
      (compares_bindingOrigins hp (C.built.lt_of_symbolAt hid) hdecl).bind fun _ _ hstart => ?_
    refine compares_union hstart (compares_unionOf_list _ fun reference hreference => ?_)
    exact (compares_envAt hdecl (C.built.forest.chain_within _)
      (C.built.lt_of_mem_referencesOf hreference)
      (C.near_inner (C.built.within_scope_suffix_of_reference hreference))).andThen
      fun _ => compares_mutationOrigins hp

end Bindings

/-! ## Flow -/

lemma compares_importRefs (importer : DeclId) :
    Steady C C.listed (importRefs importer) := by
  refine compares_bind_scopes.mpr (compares_mapM fun reference hreference => ?_).listed
  exact (compares_topLevel (C.built.lt_of_mem_referencesOf hreference)).andThen fun _ h =>
    compares_same (C.spot_ofNode.mpr h)

lemma compares_allImportRefs (importers : List DeclId) :
    Steady C C.listed (allImportRefs importers) :=
  compares_collect (q := fun _ => True) (.refl fun _ _ => trivial) fun importer _ =>
    compares_importRefs importer

section References

variable {chain : List NodeId} {env : Env} (henv : C.fits (some chain) env)
  (hchain : w.arena.Chain chain) {binding : NodeId}
include henv hchain

lemma compares_declarationRefs {id : DeclId}
    (hnear : ∀ reference ∈ w.program.scopes.referencesOf id,
      C.near chain (w.arena.functionsAround reference)) :
    Steady C C.listed (declarationRefs id env) := by
  unfold Steady declarationRefs
  rw [compares_bind_scopes]
  refine (compares_mapM fun reference hreference => ?_).listed.bind fun _ _ hown =>
    compares_append hown (compares_allImportRefs _)
  exact (compares_envAt henv hchain (C.built.lt_of_mem_referencesOf hreference)
    (hnear reference hreference)).andThen fun _ h => compares_same (C.spot_ofNode.mpr h)

lemma compares_bindingRefs (hnear : ∀ id, w.program.scopes.symbolAt binding = some id →
      ∀ reference ∈ w.program.scopes.referencesOf id,
        C.near chain (w.arena.functionsAround reference)) :
    Steady C C.listed (bindingRefs binding env) := by
  unfold Steady bindingRefs
  rw [compares_bind_scopes]
  split
  · next id hid => exact compares_declarationRefs henv hchain (hnear id hid)
  · exact compares_nil

/-- The references of a name that is owned where the environment is. -/
lemma compares_bindingRefs_of_scope
    (hscope : ∀ id, w.program.scopes.symbolAt binding = some id →
      w.arena.functionsWithin (w.program.scopes.decl id).scope = chain) :
    Steady C C.listed (bindingRefs binding env) :=
  compares_bindingRefs henv hchain fun id hid _ hreference =>
    C.near_inner (hscope id hid ▸ C.built.within_scope_suffix_of_reference hreference)

lemma compares_returnFlows {f : NodeId} (hf : f < w.arena.size)
    (hnear : C.near chain (w.arena.functionsWithin f)) :
    Steady C C.listed (returnFlows f env) := by
  refine (compares_scopeEnv henv hchain f hnear).andThen fun _ hbody => ?_
  refine (compares_ask_callers ⟨C.inside f hf, hbody⟩).bind fun _ _ hcallers => ?_
  exact (compares_inOrder hcallers fun _ hc => ⟨_, hc.fits⟩).bind fun _ _ hitems =>
    compares_below (hitems.filter _)

end References

/-- The references of a variable that is no function and no parameter. -/
lemma compares_plainRefs (h : C.At parent env) {form : Form NodeId}
    (hform : w.arena.form parent = form) (hpattern : pattern ∈ form.children)
    (hnot : form.isFunction = false) :
    Steady C C.listed (plainRefs pattern env) := by
  subst hform
  have hparent := C.built.forest.parent.mpr hpattern
  exact compares_bind_formOf.mpr <| .ite
    (fun hbinding => compares_bindingRefs_of_scope (h.part rfl hpattern hnot).fits
      (C.built.forest.chain_around _) fun _ hid =>
        C.built.within_scope_of_part (Arena.form_of_isBinding hbinding) hid hparent hnot)
    fun _ => compares_nil

/-- What is made of each part of one list. -/
lemma compares_collect_list {α : Type} {f : α → Rule (List Config)} (items : List α)
    (hf : ∀ a ∈ items, Steady C C.listed (f a)) :
    Steady C C.listed (collect items f) :=
  compares_collect (.refl fun _ h => h) hf

lemma compares_patternReads (name : String) {properties : List NodeId} (hpattern : C.At pattern env)
    (hform : w.arena.form pattern = .objectPattern properties) :
    Steady C C.listed (patternReads name properties env) := by
  refine compares_collect_list properties fun property hproperty => ?_
  have hproperty := hpattern.part hform hproperty rfl
  rw [Steady, compares_bind_formOf]
  split
  · next hform =>
    exact compares_bind_textOf.mpr
      (.ite (fun _ => compares_plainRefs hproperty hform (.head _) rfl) fun _ => compares_nil)
  · exact compares_nil

lemma compares_propertyReads (name : String) (haliases : C.spots aliases aliases') :
    Compares C C.listed (propertyReads name aliases) (propertyReads name aliases') := by
  unfold propertyReads
  rw [compares_bind_arena]
  refine (compares_inOrder haliases fun _ hc => ⟨_, hc.fits⟩).bind fun _ _ hrefs =>
    compares_collect hrefs fun ref hspot => ?_
  split
  · exact compares_nil
  · next n parent hfound =>
    obtain ⟨_, hn, hfound⟩ := Option.bind_eq_some_iff.mp hfound
    obtain ⟨_, hparent, heq⟩ := Option.map_eq_some_iff.mp hfound
    cases heq
    have hat := C.at_of_spot hspot hn
    extract_lets read
    -- the access itself
    have hread : C.At parent ref.env → C.listed read read := fun h => by
      unfold read
      split
      · exact C.listed_singleton h
      · exact .nil
    split
    · next hform =>
      have hread := hread (hat.parent hparent hform rfl)
      exact compares_bind_textOf.mpr (.ite (fun _ => compares_below hread) fun _ => compares_nil)
    · next hform =>
      have hread := hread (hat.parent hparent hform rfl)
      exact (compares_isText _ _).next fun _ =>
        .ite (fun _ => compares_below hread) fun _ => compares_nil
    · next hform =>
      refine .ite (fun _ => compares_nil) fun _ => ?_
      split
      · next hpattern =>
        have htarget := (hat.parent hparent hform rfl).part hform (.head _) rfl
        exact compares_patternReads name htarget hpattern
      · exact compares_nil
    · exact compares_nil

lemma compares_storedFlows {object : NodeId} (hobject : C.At object env) (name : String) :
    Steady C C.listed (storedFlows object name env) := by
  unfold Steady storedFlows
  rw [compares_bind_arena]
  refine (compares_values hobject).bind fun _ _ hreceivers =>
    (compares_inOrder hreceivers fun _ hc => C.fits_of_place hc.1).bind fun _ _ hitems =>
      compares_collect hitems fun receiver hreceiver => ?_
  split
  · exact (compares_ask_traced hreceiver.1).bind fun _ _ => compares_propertyReads name
  · exact compares_nil

lemma compares_elementReads (position : Nat) (haliases : C.spots aliases aliases') :
    Compares C C.listed (elementReads position aliases) (elementReads position aliases') := by
  unfold elementReads
  rw [compares_bind_arena]
  refine (compares_inOrder haliases fun _ hc => ⟨_, hc.fits⟩).bind fun _ _ hrefs =>
    compares_collect hrefs fun ref hspot => ?_
  split
  · exact compares_nil
  · next n parent hfound =>
    obtain ⟨_, hn, hfound⟩ := Option.bind_eq_some_iff.mp hfound
    obtain ⟨_, hparent, heq⟩ := Option.map_eq_some_iff.mp hfound
    cases heq
    have hat := C.at_of_spot hspot hn
    split
    · next hform =>
      have hparent := hat.parent hparent hform rfl
      exact (compares_indexPosition _).next fun _ =>
        .ite (fun _ => compares_below (C.listed_singleton hparent)) fun _ => compares_nil
    · next hform =>
      refine .ite (fun _ => compares_nil) fun _ => ?_
      split
      · next hhead =>
        have hhead' := (hat.parent hparent hform rfl).part hform (.head _) rfl
        refine compares_collect_list _ fun pattern hpattern => ?_
        obtain ⟨d, hd, hpattern⟩ := List.mem_filterMap.mp hpattern
        split at hpattern
        · next hdeclarator =>
          cases hpattern
          exact compares_plainRefs (hhead'.part hhead hd rfl) hdeclarator (.head _) rfl
        · cases hpattern
      · exact compares_nil
    · next hform =>
      refine .ite (fun _ => compares_nil) fun _ => ?_
      have htarget := (hat.parent hparent hform rfl).part hform (.head _) rfl
      split
      · next elements hpattern =>
        split
        · next pattern helement =>
          exact compares_plainRefs htarget hpattern
            (List.mem_filterMap.mpr ⟨some pattern, List.mem_of_getElem? helement, rfl⟩) rfl
        · exact compares_nil
      · exact compares_nil
    · exact compares_nil

lemma compares_assignmentFlows {target : NodeId} (htarget : C.At target env) :
    Steady C C.listed (assignmentFlows target env) := by
  unfold Steady assignmentFlows
  rw [compares_bind_formOf]
  split
  · rw [compares_bind_scopes]
    split
    · next id hid =>
      exact (compares_scopeEnv htarget.fits (C.built.forest.chain_around _) _
        (C.near_outer (C.built.within_scope_suffix hid))).andThen fun _ henv =>
          compares_declarationRefs henv (C.built.forest.chain_within _) fun _ hreference =>
            C.near_inner (C.built.within_scope_suffix_of_reference hreference)
    · exact compares_nil
  · next hform =>
    exact compares_bind_textOf.mpr (compares_storedFlows (htarget.part hform (.head _) rfl) _)
  · next hform =>
    rw [compares_bind_formOf]
    split
    · exact compares_bind_textOf.mpr (compares_storedFlows (htarget.part hform (.head _) rfl) _)
    · exact compares_nil
  · exact compares_nil

lemma compares_keyName? (key : PropKey NodeId) :
    Steady C Eq (keyName? key) := by
  cases key with
  | named key => exact compares_bind_textOf.mpr (compares_rfl _)
  | computed key =>
    simp only [keyName?, compares_bind_formOf]
    split
    · exact compares_bind_textOf.mpr (compares_rfl _)
    · exact compares_rfl none

lemma compares_matchingCaller (hcall : C.At call env) {body : Env} (hbody : C.fits chain body) :
    Steady C (Same fun found => ∀ caller, found = some caller → C.At call caller ∧
      (body.head.depth ≤ w.bound →
        (Context.push call caller.head w.bound).refines body.head = true))
      (matchingCaller call env body.head) := by
  unfold Steady matchingCaller
  rw [compares_bind_world]
  refine .ite (fun hrefines => compares_same ?_) fun _ => ?_
  · rintro _ ⟨⟩
    exact ⟨hcall, fun _ => hrefines⟩
  · split
    · next site sites hsites =>
      refine .ite (fun hmatch => ?_) fun _ => compares_same nofun
      obtain ⟨rfl, -⟩ : site = call ∧ _ := by simpa using hmatch
      have heq : body.head = ⟨site :: sites, body.head.terminal⟩ := by rw [← hsites]
      have hfits := C.tail chain body site sites _ env hbody heq hcall.fits
      rw [map_eq_pure_bind]
      refine (compares_known (p := (· = _)) hfits rfl).andThen ?_
      rintro _ rfl
      refine compares_same ?_
      rintro _ ⟨⟩
      refine ⟨⟨hcall.node, hfits⟩, fun hdepth => ?_⟩
      -- within the bound nothing is cut off
      have hpush : Context.push site ⟨sites, body.head.terminal⟩ w.bound = body.head := by
        rw [Context.push, Context.frame, ← heq, Context.truncate, if_pos hdepth]
      rw [Env.withHead, hpush]
      exact Context.refines_refl body.head
    · exact compares_same nofun

/-- A call that enters the body, as `caller` reports it. -/
lemma compares_entering (hcall : C.At call env) {body : Env} (hbody : C.fits chain body)
    (caller : Cursor) (hcaller : caller.call? = some call) :
    Steady C (Below C.same fun c => C.spot c ∧ c.Enters w body.head)
      (do match ← matchingCaller call env body.head with
        | some env => return (.singleton ⟨caller, env⟩ : ConfigSet)
        | none => return .empty) := by
  refine (compares_matchingCaller hcall hbody).andThen fun found h => ?_
  cases found with
  | some env =>
    obtain ⟨henv, hrefines⟩ := h env rfl
    exact compares_below
      (.singleton ⟨(C.spot_of_call? hcaller).mpr henv, call, hcaller, hrefines⟩)
  | none => exact compares_empty

lemma compares_applied (hconfig : C.spot config) :
    Steady C C.spots (applied config) := by
  unfold Steady applied
  rw [compares_bind_arena]
  refine (compares_ask_traced (.inl hconfig)).bind fun _ _ haliases => compares_below
    ⟨fun hsame => by rw [haliases.eq hsame], fun c hc => ?_, fun c hc => ?_⟩
  · rw [PowerSet.mem_ofList, List.mem_filterMap] at hc ⊢
    obtain ⟨ref, href, hcall⟩ := hc
    exact ⟨ref, haliases.subset ref href, hcall⟩
  · obtain ⟨ref, href, hc⟩ := List.mem_filterMap.mp (PowerSet.mem_ofList.mp hc)
    obtain ⟨n, hn, hc⟩ := Option.bind_eq_some_iff.mp hc
    obtain ⟨call, hcall, hc⟩ := Option.bind_eq_some_iff.mp hc
    cases hc
    exact C.spot_ofNode.mpr ((C.at_of_spot (haliases.all ref href) hn).calleeOf hcall)

section Flow

variable (hp : Resolves C perform perform') {env : Env} {call parent : NodeId}
include hp

lemma compares_argumentFlows (hcall : C.At call env) (position : Nat) :
    hp.Agrees C.listed (argumentFlows · call position env) := by
  unfold Resolves.Agrees argumentFlows
  rw [compares_bind_arena]
  extract_lets next next'
  have hnext : ∀ itself itself', C.listed itself itself' →
      Compares C C.listed (next itself) (next' itself') := by
    intro itself itself' hitself
    unfold next next'
    split
    · next hform =>
      refine (hp.targets (hcall.part hform (.head _) rfl)).bind fun _ _ htargets =>
        compares_append hitself (compares_collect htargets fun target htarget => ?_)
      cases target with
      | function function =>
        obtain ⟨f, outer, rfl, hf, houter⟩ := htarget
        dsimp only
        split
        · next hform =>
          have hform : w.arena.form f = _ := Option.some.inj hform
          split
          · next param hparam =>
            refine .ite (fun _ => (compares_enter hf houter hcall).andThen fun _ hbody => ?_)
              fun _ => compares_nil
            exact compares_bindingRefs_of_scope hbody.2.fits (C.built.forest.chain_within f)
              fun _ => C.built.within_scope_of_param hform (List.mem_of_getElem? hparam)
          · exact compares_nil
        · exact compares_nil
      | builtin | external => exact compares_nil
    · exact compares_below hitself
  have hitself := C.listed_singleton hcall
  refine .ite (fun _ => ?_) fun _ => hnext [] [] .nil
  refine (compares_isObjectAssign hp hcall).bind fun assigns assigns' hassigns => ?_
  cases assigns with
  | true =>
    rw [hassigns.imp rfl]
    exact hnext _ _ hitself
  | false =>
    cases assigns' with
    | false => exact hnext [] [] .nil
    | true => exact hnext [] _ ⟨fun hsame => absurd (hassigns.eq hsame) nofun, nofun, hitself.all⟩

lemma compares_passedFlows (n : NodeId) (hparent : C.At parent env) : hp.Agrees C.listed
    (match w.arena.calleeOf? n, w.arena.argumentOf? n with
      | none, some (_, position) => argumentFlows · parent position env
      | _, _ => return []) := by
  split
  · exact compares_argumentFlows hp hparent _
  · exact compares_nil

/-- Where a value goes on to, by the construct it is a part of. -/
lemma compares_parentFlows {n : NodeId} (h : C.At n env)
    (hparent : w.arena.parent? n = some parent) :
    hp.Agrees C.listed (parentFlows · n parent env) := by
  have hchain := C.built.forest.chain_around n
  have hitself : ∀ {form : Form NodeId}, w.arena.form parent = form → form.isFunction = false →
      Steady C C.listed (pure [.ofNode parent env]) :=
    fun hform hnot => compares_below (C.listed_singleton (h.parent hparent hform hnot))
  unfold Resolves.Agrees parentFlows
  rw [compares_bind_arena]
  extract_lets parentItself
  split
  · next hform => exact compares_passedFlows hp n (h.parent hparent hform rfl)
  · next hform => exact compares_passedFlows hp n (h.parent hparent hform rfl)
  · -- what is returned
    split
    · next f hfunction =>
      have hf := ((C.built.forest.depth_eq n).1 f hfunction).1
      have hwithin : w.arena.functionsAround n = w.arena.functionsWithin f := by
        rw [C.built.forest.functionsAround_of_function hfunction,
          Arena.functionsWithin_of_function hf]
      exact .ite (fun _ => compares_returnFlows h.fits hchain (Arena.lt_size_of_isFunction hf)
        (C.near_of_eq hwithin.symm)) fun _ => compares_nil
    · exact compares_nil
  · -- the body of a function that is an expression
    have hnear := C.near_of_eq (C.built.forest.functionsAround_of_parent hparent).symm
    exact .ite (fun _ => (compares_scopeEnv h.fits hchain parent hnear).andThen fun _ henv =>
      compares_returnFlows henv (C.built.forest.chain_within parent)
        (C.built.forest.lt_size_of_parent hparent) (C.near_of_eq rfl))
      fun _ => compares_nil
  · next hform =>
    exact .ite (fun _ => compares_plainRefs (h.parent hparent hform rfl) hform (.head _) rfl)
      fun _ => compares_nil
  · next hform =>
    have hassign := h.parent hparent hform rfl
    exact .ite (fun _ => compares_append (C.listed_singleton hassign)
      (compares_assignmentFlows (hassign.part hform (.head _) rfl))) fun _ => compares_nil
  · -- a property of an object literal
    next hform =>
    refine .ite (fun _ => compares_nil) fun _ => ?_
    split
    · next object _ hobject =>
      obtain ⟨_, hup, heq⟩ := Option.map_eq_some_iff.mp hobject
      obtain ⟨rfl, hliteral⟩ := Prod.mk.inj heq
      have hplace := (h.parent hparent hform rfl).parent hup hliteral rfl
      refine (compares_keyName? _).next fun name => ?_
      cases name with
      | some name =>
        exact (compares_ask_traced (.inl (C.spot_ofNode.mpr hplace))).bind
          fun _ _ => compares_propertyReads name
      | none => exact compares_nil
    · exact compares_nil
  · -- an element of an array literal
    next hform =>
    split
    · exact (compares_ask_traced (.inl (C.spot_ofNode.mpr (h.parent hparent hform rfl)))).bind
        fun _ _ => compares_elementReads _
    · exact compares_nil
  · next hform =>
    refine compares_below ?_
    split
    · exact .nil
    · exact C.listed_singleton (h.parent hparent hform rfl)
  · next hform => exact hitself hform rfl
  · next hform => exact hitself hform rfl
  · -- what is thrown
    next hform =>
    split
    · next binding hbinding =>
      obtain ⟨haround, hname, clause, body, hclause⟩ :=
        C.built.forest.caught_of_catchBinding? hbinding
      refine .ite (fun _ => ?_) fun _ => compares_nil
      refine compares_bindingRefs_of_scope (h.parent hparent hform rfl).fits
        (C.built.forest.chain_around _) fun _ hid => ?_
      rw [← haround]
      have hpart : binding ∈ w.arena.children clause := by
        simp [Arena.children, hclause, Form.children]
      exact C.built.within_scope_of_part (Arena.form_of_isBinding hname) hid
        (C.built.forest.parent.mpr hpart) (by rw [Arena.isFunction, hclause]; rfl)
    · exact compares_nil
  · exact .ite (fun _ => compares_bind_scopes.mpr (compares_allImportRefs _)) fun _ => compares_nil
  · exact compares_nil

lemma compares_flowsTo {n : NodeId} (h : C.At n env) (htraceable : C.traceable n) :
    hp.Agrees C.listed (flowsTo · n env) := by
  unfold Resolves.Agrees flowsTo
  rw [compares_bind_arena]
  extract_lets next next'
  have hnext : ∀ named named', C.listed named named' →
      Compares C C.listed (next named) (next' named') := by
    intro named named' hnamed
    unfold next next'
    split
    · next parent hparent => exact compares_append hnamed (compares_parentFlows hp h hparent)
    · exact compares_below hnamed
  split
  · next name params body flags hform =>
    -- the name of a function stands for it inside of its body, and maybe elsewhere
    have hnear := C.near_inner (w.arena.around_suffix_within n)
    refine (compares_scopeEnv h.fits (C.built.forest.chain_around n) n hnear).andThen fun _ henv =>
      (compares_bindingRefs henv (C.built.forest.chain_within n) ?_).bind hnext
    exact fun id hid reference => htraceable name params body flags id reference hform hid
  · exact hnext [] [] .nil

lemma compares_traced (hconfig : C.Posed ⟨.traced, config⟩) :
    hp.Agrees C.spots (traced · config) := by
  unfold traced
  split
  · exact compares_below (.singleton hconfig.1)
  · next n hn =>
    refine (compares_flowsTo hp (C.at_of_spot hconfig.1 hn) (hconfig.2 n hn)).bind
      fun _ _ hconfigs => ?_
    exact (compares_unionOf hconfigs fun c hc => compares_ask_traced (.inl hc)).bind
      fun _ _ hnext => compares_below (hnext.insert hconfig.1)

lemma compares_callsOutside (hcall : C.At call env) :
    hp.Agrees (Implies C.same) (callsOutside · call env) := by
  unfold Resolves.Agrees callsOutside
  rw [compares_bind_formOf]
  split
  · exact compares_pure (.refl _) (.refl _)
  · next hparts =>
    exact (hp.targets (hcall.callee hparts)).bind fun _ _ h => compares_pure (h.any _) (.refl _)

lemma compares_callers (hconfig : C.body config) :
    hp.Agrees (Below C.same fun c => C.spot c ∧ c.Enters w config.env.head) (callers · config) := by
  unfold Resolves.Agrees callers
  rw [compares_bind_arena]
  split
  · exact compares_empty
  · next f hf =>
    refine .ite (fun _ => compares_empty) fun hfunction => ?_
    have hbody : C.Body f config.env := by
      rw [Config.eq_of_node? hf] at hconfig
      exact C.body_ofNode.mp hconfig
    have houter := hbody.leave (by simpa using hfunction)
    refine (compares_known (p := (· = _)) houter.fits rfl).andThen ?_
    rintro _ rfl
    refine (compares_ask_traced (.inl (C.spot_ofNode.mpr houter))).bind
      fun _ _ hsinks => compares_unionOver_spots hsinks fun sink hsink => ?_
    split
    · exact compares_empty
    · next n hn =>
      have hat := C.at_of_spot hsink hn
      split
      · next hcall => exact compares_entering (hat.calleeOf hcall) hconfig.fits (.node _) rfl
      · next call position _ hcall =>
        have hcall := hat.argumentOf hcall
        refine (compares_callsOutside hp hcall).bind fun outside outside' houtside => ?_
        have hcalled := compares_entering hcall hconfig.fits (.arguments call position) rfl
        have hgated := hcalled.gated PowerSet.not_mem_empty houtside
        cases outside <;> cases outside' <;> exact hgated
      · exact compares_empty

end Flow

/-! ## Evaluation -/

lemma compares_nameValues (h : C.origin (.ofNode n env)) :
    Steady C C.values (nameValues n env) := by
  unfold Steady nameValues
  rw [compares_bind_scopes]
  refine .ite (fun hsymbol => ?_) fun _ => (compares_globalName? n).andThen fun name hname => ?_
  · exact (compares_ask_bind (C.at_of_symbol h hsymbol) hsymbol).bind fun _ _ =>
      compares_evaluateAll
  · exact .ite (fun hsome => compares_below (C.values_global (hname hsome)))
      fun _ => compares_external

lemma compares_thisValues (h : C.At n env) :
    Steady C C.values (thisValues n env) := by
  unfold Steady thisValues
  rw [compares_bind_arena]
  split
  · exact compares_external
  · next f hfind =>
    have hchain := C.built.forest.chain_around n
    have hmem := List.mem_of_find?_eq_some hfind
    have hf := C.built.forest.isFunction_of_mem_chain hchain hmem
    have hnear := C.near_outer (C.built.forest.within_suffix_of_mem hchain hmem)
    refine (compares_isTarget _).next fun _ => .ite (fun _ => compares_external) fun _ => ?_
    refine (compares_scopeEnv h.fits hchain f hnear).andThen fun _ hbody =>
      (compares_ask_callers ⟨C.inside f (Arena.lt_size_of_isFunction hf), hbody⟩).bind
        fun _ _ hcallers => ?_
    refine compares_unionOver_spots hcallers fun caller hcaller => ?_
    split
    · exact compares_empty
    · next call hcall =>
      have hat : C.At (Site.mk call caller.env).node (Site.mk call caller.env).env :=
        C.at_of_spot hcaller hcall
      exact compares_receiverValues hat

lemma compares_either {first second : NodeId} (hfirst : C.At first env)
    (hsecond : C.At second env) :
    Steady C C.values (either first second env) :=
  (compares_values hfirst).bind fun _ _ hfound => compares_union hfound (compares_values hsecond)

section Evaluation

variable (hp : Performs C perform perform') {n callee : NodeId} {env : Env}
include hp

lemma compares_callBuiltin (id : BuiltinId) {site : Site} (hsite : C.site site) :
    hp.Agrees (C.results (.ofNode site.node site.env)) (callBuiltin · id site) := by
  refine (compares_entry id).next fun entry => ?_
  split
  · exact (compares_callSummary hp hsite.1 _).mono fun _ _ => C.results_of_values
  · refine compares_below ?_
    split
    · exact C.results_itself hsite
    · exact C.results_of_values C.values_external

lemma compares_callValues {call : NodeId} (hsite : C.site ⟨call, env⟩)
    (hcallee : C.At callee env) :
    hp.Agrees (C.results (.ofNode call env)) (callValues · call callee env) := by
  refine (hp.targets hcallee).bind fun _ _ htargets =>
    compares_unionOf htargets fun target htarget => ?_
  cases target with
  | function function => exact compares_apply htarget hsite
  | builtin id => exact compares_callBuiltin hp id hsite
  | external => exact compares_below (C.results_of_values C.values_external)

/-- The switch on the callee is taken alike if the callees are the same, as far as it matters. -/
lemma compares_newValues (hsite : C.site ⟨n, env⟩)
    (hcallee : Steady C (fun set set' : ConfigSet =>
      set.elems.any (·.node?.any w.arena.isFunction) =
        set'.elems.any (·.node?.any w.arena.isFunction)) (values callee env)) :
    hp.Agrees (C.results (.ofNode n env)) (newValues · n callee env) := by
  refine (compares_constructor? n).next fun id => ?_
  cases id with
  | some id => exact compares_callBuiltin hp id hsite
  | none =>
    refine hcallee.bind fun set set' hset => compares_bind_arena.mpr ?_
    rw [hset]
    exact .ite (fun _ => compares_unsupported_empty _ _)
      fun _ => compares_below (C.results_of_values C.values_external)

lemma compares_access {receivers receivers' : ConfigSet}
    (hreceivers : C.values receivers receivers') (name : String) (hsite : C.site ⟨n, env⟩) :
    Compares C (C.results (.ofNode n env)) (perform (.property receivers name (some ⟨n, env⟩)))
      (perform' (.property receivers' name (some ⟨n, env⟩))) := by
  refine (hp.property (hp.places hreceivers) name _ ?_).mono fun _ _ => C.results_of_accessed
  rintro _ ⟨⟩
  exact hsite

lemma compares_indexValues {object index : NodeId} (hsite : C.site ⟨n, env⟩)
    (hobject : C.At object env) :
    hp.Agrees (C.results (.ofNode n env)) (indexValues · n object index env) := by
  refine (compares_values hobject).bind fun receivers receivers' hreceivers => ?_
  have helements : ∀ position, Compares C (C.results (.ofNode n env))
      (perform (.elements receivers position)) (perform' (.elements receivers' position)) :=
    fun position => (hp.elementsOf hreceivers position).mono fun _ _ => C.results_of_values
  rw [compares_bind_formOf]
  split
  · exact compares_bind_textOf.mpr (compares_access hp hreceivers _ hsite)
  · exact compares_bind_textOf.mpr (helements _)
  · exact helements _

/-- Every expression but `new` is compared outright. -/
lemma compares_evaluateNode (h : C.origin (.ofNode n env))
    (hnew : ∀ callee arguments, w.arena.form n = .new callee arguments →
      C.site ⟨n, env⟩ → hp.Agrees (C.results (.ofNode n env)) (newValues · n callee env)) :
    hp.Agrees (C.results (.ofNode n env)) (evaluateNode · n env) := by
  have hpart : ∀ {form : Form NodeId}, w.arena.form n = form → form.isReference = false →
      form.isFunction = false → ∀ {m}, m ∈ form.children → C.At m env :=
    fun hform hname hnot _ hm => (C.at_of_origin h hform hname).part hform hm hnot
  have hsite : ∀ {form : Form NodeId}, w.arena.form n = form → form.isReference = false →
      form.isValue = true → C.site ⟨n, env⟩ := fun hform hname hvalue =>
    ⟨C.at_of_origin h hform hname, .inr (hform ▸ hvalue)⟩
  have hitself : ∀ {form : Form NodeId}, w.arena.form n = form → form.isReference = false →
      form.isValue = true → Steady C (C.results (.ofNode n env)) (pure (.ofNode n env)) :=
    fun hform hname hvalue =>
    compares_below (C.results_itself (hsite hform hname hvalue))
  have hvalues : ∀ {r r' : Rule ConfigSet}, Compares C C.values r r' →
      Compares C (C.results (.ofNode n env)) r r' := fun hr =>
    hr.mono fun _ _ => C.results_of_values
  have hbitwise : Steady C (C.results (.ofNode n env)) (bitwise n) :=
    compares_unsupported_empty n _
  unfold evaluateNode
  extract_lets itself
  rw [Performs.Agrees, compares_bind_formOf]
  split
  -- literals, functions and the like stand for themselves
  all_goals try (next hform => exact hitself hform rfl rfl)
  · next hform =>
    refine .ite (fun _ => hbitwise) fun hop => hitself hform rfl ?_
    simpa [Form.isValue] using hop
  · next hform =>
    refine .ite (fun _ => hbitwise) fun hop => hitself hform rfl ?_
    simpa [Form.isValue] using hop
  · exact hvalues (compares_nameValues h)
  · exact hvalues (compares_nameValues h)
  · next hform => exact hvalues (compares_thisValues (C.at_of_origin h hform rfl))
  · next hform =>
    exact compares_callValues hp (hsite hform rfl rfl) (hpart hform rfl rfl (.head _))
  · next hform => exact hnew _ _ hform (hsite hform rfl rfl)
  · next hform =>
    exact (compares_values (hpart hform rfl rfl (.head _))).bind fun _ _ hreceivers =>
      compares_bind_textOf.mpr (compares_access hp hreceivers _ (hsite hform rfl rfl))
  · next hform =>
    exact compares_indexValues hp (hsite hform rfl rfl) (hpart hform rfl rfl (.head _))
  · next hform =>
    exact hvalues (compares_either (hpart hform rfl rfl (by simp [Form.children]))
      (hpart hform rfl rfl (by simp [Form.children])))
  · next hform =>
    exact hvalues (compares_either (hpart hform rfl rfl (by simp [Form.children]))
      (hpart hform rfl rfl (by simp [Form.children])))
  · next hform => exact hvalues (compares_values (hpart hform rfl rfl (by simp [Form.children])))
  · next hform =>
    exact hvalues (compares_either (hpart hform rfl rfl (by simp [Form.children]))
      (hpart hform rfl rfl (by simp [Form.children])))
  · next hform =>
    refine .ite (fun _ => hbitwise) fun hop => hitself hform rfl ?_
    simpa [Form.isValue] using hop
  · next hform =>
    exact hvalues ((compares_values (hpart hform rfl rfl (.head _))).bind
      fun _ _ => compares_awaitValues hp)
  · exact compares_unsupported_empty _ _

lemma compares_evaluate (hconfig : C.origin config)
    (hnew : ∀ n callee arguments, config.node? = some n →
      w.arena.form n = .new callee arguments → C.site ⟨n, config.env⟩ →
      hp.Agrees (C.results (.ofNode n config.env)) (newValues · n callee config.env)) :
    hp.Agrees (C.results config) (evaluate · config) := by
  obtain ⟨cursor, env⟩ := config
  cases cursor with
  | external | arguments =>
    exact compares_below (.singleton
      ⟨C.place_of_origin hconfig fun _ _ => Cursor.noConfusion, .inr ⟨rfl, trivial⟩⟩)
  | pick =>
    exact (compares_ask_values (C.origin_of_pick hconfig)).bind fun _ _ hvalues =>
      (hp.elementsOf hvalues _).mono fun _ _ => C.results_of_values
  | node n =>
    exact compares_evaluateNode hp hconfig fun callee arguments => hnew n callee arguments rfl

/-! ## The whole right-hand side -/

lemma compares_answer (hquery : C.Posed query) (hanswerable : query.Answerable w)
    (hnew : ∀ n callee arguments, query.kind = .evaluate → query.config.node? = some n →
      w.arena.form n = .new callee arguments → C.site ⟨n, query.config.env⟩ →
      hp.Agrees (C.results (.ofNode n query.config.env)) (newValues · n callee query.config.env)) :
    hp.Agrees (Below C.same (C.Answers query)) (answer · query.kind query.config) := by
  obtain ⟨kind, config⟩ := query
  cases kind with
  | evaluate =>
    exact (compares_evaluate hp hquery fun n callee arguments =>
      hnew n callee arguments rfl).imp fun _ hc => ⟨nofun, hc.1, fun _ => hc.2, nofun⟩
  | applied => exact (compares_applied hquery).imp fun _ hc => ⟨nofun, hc, nofun, nofun⟩
  | traced =>
    exact (compares_traced hp.resolves hquery).imp fun _ hc => ⟨nofun, hc, nofun, nofun⟩
  | callers =>
    exact (compares_callers hp.resolves hquery).imp fun _ hc =>
      ⟨nofun, hc.1, nofun, fun _ => hc.2⟩
  | bind =>
    exact (compares_bind hp hquery hanswerable).imp fun _ hc => ⟨nofun, hc, nofun, nofun⟩
  | entered => exact compares_empty

end Evaluation

lemma compares_refinementsAt (hfits : C.fits chain config.env) {index : Nat} {context : Context}
    {outer : List Context} (hdrop : config.env.toList.drop index = context :: outer) :
    Steady C (Below C.same (config.Refines C.fact)) (refinementsAt config index context outer) := by
  unfold refinementsAt
  split
  · next function outer houter =>
    have hlist : config.env.toList.drop index = .question function :: outer.toList := by
      rw [hdrop, Env.toList_of_ofList? houter]
      rfl
    obtain ⟨hnode, houter⟩ := C.unknown _ _ _ _ _ hfits hlist
    refine (compares_known (p := (· = _)) houter rfl).andThen ?_
    rintro outer rfl
    refine (compares_ask .entered (C.spot_ofNode.mpr ⟨hnode, houter⟩) nofun).bind
      fun _ _ hentered => ?_
    refine (compares_inOrder hentered fun fact hfact =>
      ⟨_, (C.reads hfact).1 function rfl⟩).bind fun _ _ hfacts =>
      compares_filterMapM id hfacts fun fact hfact => ?_
    refine .ite (fun _ => compares_same nofun) fun hne => ?_
    split
    · next env henv =>
      have hrefined := C.refined _ _ _ _ _ _ _ hfits hlist ((C.reads hfact).1 function rfl) henv
      refine (compares_known (p := (· = _)) hrefined rfl).andThen ?_
      rintro env rfl
      refine compares_same ?_
      rintro _ ⟨⟩
      exact ⟨index, function, outer, fact, env, hlist, hfact, hne, henv, rfl⟩
    · exact compares_same nofun
  · exact compares_nil

lemma compares_refinementsFrom (hfits : C.fits chain config.env) {contexts : List Context}
    {index : Nat} (hdrop : config.env.toList.drop index = contexts) :
    Steady C (Below C.same (config.Refines C.fact)) (refinementsFrom config index contexts) := by
  induction contexts generalizing index with
  | nil => exact compares_nil
  | cons context outer ih =>
    have hnext : config.env.toList.drop (index + 1) = outer := by
      rw [← List.drop_drop, hdrop]
      rfl
    exact (compares_refinementsAt hfits hdrop).bind fun _ _ hfound =>
      compares_append hfound (ih hnext)

/-- The whole right-hand side, with anything that its own rule and the answers
for refinements satisfy. -/
lemma compares_solve {depth : Nat} {visiting : List Visit} (hasked : C.Asked query)
    (hown : C.Holds (Below C.same p)
      (answer (meaning depth) query.kind query.config ⟨w, visiting⟩)
      (answer (meaning depth) query.kind query.config ⟨w, visiting⟩))
    (hrefined : ∀ c, query.config.Refines C.fact c →
      Steady C (Below C.same p) (ask query.kind c)) :
    C.Holds (Below C.same p) (solve depth query ⟨w, visiting⟩)
      (solve depth query ⟨w, visiting⟩) := by
  refine C.bind hown fun own own' hown => ?_
  refine Compares.ite (fun _ => compares_below hown) (fun _ => ?_) visiting
  obtain ⟨chain, hfits⟩ := C.fits_of_asked hasked
  exact (compares_refinementsFrom hfits rfl).bind fun _ _ hconfigs =>
    compares_union hown (compares_unionOf hconfigs hrefined)

end Rule

end ValueFlow
