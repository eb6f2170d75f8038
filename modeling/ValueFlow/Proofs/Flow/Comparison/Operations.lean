import ValueFlow.Proofs.Flow.Comparison

/-!
# Comparing the operations

Callees and kinds, properties, elements, the summaries of builtins, and awaiting. The
operations need each other, so each rule is compared on the assumption that the
operations it is given compare (`Performs`). What is called depends on three of the
operations only (`Resolves`).

What a call or an access stands for is looked up again where the value is used, and
the rules switch on what they find there. Where one side finds less than the other, only
values that stand for neither can be used (`Comparison.Settled`).
-/

namespace ValueFlow.Rule

variable {w : World} {C : Comparison w} {perform perform' : Meaning} {n : NodeId} {env : Env}
  {site : Option Site}

/-- The operations that tell what is called compare. -/
structure Resolves (C : Comparison w) (perform perform' : Meaning) : Prop where
  targets  : ∀ {callee env}, C.At callee env → Compares C C.targets
    (perform (.targets callee env)) (perform' (.targets callee env))
  kinds    : ∀ {value}, C.place value → Compares C (Below (C.Settled value) fun _ => True)
    (perform (.kinds value)) (perform' (.kinds value))
  property : ∀ {values values'}, C.values values values' → ∀ name, Compares C C.values
    (perform (.property values name none)) (perform' (.property values' name none))

/-- All operations compare. -/
structure Performs (C : Comparison w) (perform perform' : Meaning) : Prop where
  plain    : ∀ c, C.value c → C.Settled c
  targets  : ∀ {callee env}, C.At callee env → Compares C C.targets
    (perform (.targets callee env)) (perform' (.targets callee env))
  kinds    : ∀ {value}, C.place value → Compares C (Below (C.Settled value) fun _ => True)
    (perform (.kinds value)) (perform' (.kinds value))
  property : ∀ {values values'}, C.places values values' → ∀ name (site : Option Site),
    (∀ s, site = some s → C.site s) → Compares C (C.accessed site)
      (perform (.property values name site)) (perform' (.property values' name site))
  elements : ∀ {values values'}, C.places values values' → ∀ position, Compares C C.values
    (perform (.elements values position)) (perform' (.elements values' position))
  /-- Where one side finds less than the other, only the whole search can be compared. -/
  awaited  : ∀ {pending pending' seen settled settled'},
    Below C.same (fun c => C.place c ∧ C.value c) pending pending' → C.values settled settled' →
    (C.same ∨ seen = [] ∧ settled = .empty ∧ settled' = .empty) → Compares C C.values
      (perform (.awaited pending seen settled)) (perform' (.awaited pending' seen settled'))

section Agrees

variable {α : Type} (R : α → α → Prop) (rule : Meaning → Rule α)

/-- A rule compares under the two meanings. -/
abbrev Resolves.Agrees (_ : Resolves C perform perform') : Prop :=
  Compares C R (rule perform) (rule perform')

abbrev Performs.Agrees (_ : Performs C perform perform') : Prop :=
  Compares C R (rule perform) (rule perform')

end Agrees

namespace Performs

variable (hp : Performs C perform perform') {values values' : ConfigSet}
include hp

omit hp in
/-- Operations of which nothing has to be known. -/
lemma of_trivial (hplain : ∀ c, C.value c → C.Settled c) (h : ∀ {α : Type} (R : α → α → Prop)
      (op op' : Operation α), Compares C R (perform op) (perform' op')) :
    Performs C perform perform' :=
  ⟨hplain, fun _ => h _ _ _, fun _ => h _ _ _, fun _ _ _ _ => h _ _ _, fun _ _ => h _ _ _,
    fun _ _ _ => h _ _ _⟩

lemma places (h : C.values values values') : C.places values values' :=
  h.imp fun c hc => ⟨hc.1, hp.plain c hc.2⟩

lemma elementsOf (h : C.values values values') (position : Option Nat) : Compares C C.values
    (perform (.elements values position)) (perform' (.elements values' position)) :=
  hp.elements (hp.places h) position

lemma resolves : Resolves C perform perform' where
  targets := hp.targets
  kinds := hp.kinds
  property h name := (hp.property (hp.places h) name none nofun).mono
    fun _ _ => C.values_of_accessed

end Performs

/-! ## Callees and kinds -/

lemma compares_valueTargets (callee : NodeId) {value : Config} (hvalue : C.place value) :
    Steady C C.targets (valueTargets callee value) := by
  have hone : ∀ {t : Target}, C.target t → Steady C C.targets (pure [t]) :=
    fun ht => compares_below (.list_singleton ht)
  have hnone : ∀ message, Steady C C.targets (do unsupported callee message; return []) :=
    fun message => (compares_unsupported callee message).next fun _ => compares_nil
  unfold valueTargets
  split
  · exact hone trivial
  · next n hcursor =>
    rw [Steady, compares_bind_arena]
    refine .ite (fun hf => hone (C.closure_of_place hvalue (Config.node?_of_cursor hcursor) hf))
      fun _ => (compares_globalName? n).andThen fun name _ => ?_
    cases name with
    | none => exact hnone _
    | some name =>
      refine (compares_lookup callee _).next fun id => ?_
      cases id with
      | none => exact hnone _
      | some id => exact hone trivial
  · exact hnone _

lemma compares_targetsOver {q : Config → Prop} {f f' : Config → Rule (List Target)}
    {set set' : ConfigSet} (hset : Below C.same (fun c => C.place c ∧ q c) set set')
    (hf : ∀ c, C.place c → q c → Compares C C.targets (f c) (f' c)) :
    Compares C C.targets (targetsOver set f) (targetsOver set' f') :=
  (compares_inOrder hset fun _ hc => C.fits_of_place hc.1).bind fun _ _ hitems =>
    compares_appendOf id hitems fun c hc => hf c hc.1 hc.2

/-- The builtin getters that an access of the member `name` of one value reads. -/
def gettersOf (perform : Meaning) (n : NodeId) (name : String) (receiver : Config) :
    Rule (List BuiltinId) := do
  (← memberShapes perform name receiver).filterMapM fun shape => do
    match ← Rule.lookup n shape with
    | some id => return if (← entry id).getter then some id else none
    | none => return none

lemma gettersAt_eq (n : NodeId) (name : String) (receivers : ConfigSet) :
    gettersAt perform n name receivers = do
      let ids ← (← inOrder receivers).foldlM (fun found receiver => do
        return found ++ (← gettersOf perform n name receiver)) []
      return firstOccurrences ids := by
  refine congrArg (inOrder receivers >>= ·) (funext fun items => ?_)
  refine congrArg (fun step => items.foldlM step [] >>= fun ids => pure (firstOccurrences ids)) ?_
  funext found receiver
  exact (bind_assoc _ _ _).symm

section Callees

variable (hp : Resolves C perform perform') {receiver value : Config}
include hp

lemma compares_methodTargets (callee : NodeId) (hreceiver : C.place receiver) (name : String) :
    hp.Agrees C.targets (methodTargets · callee receiver name) := by
  refine (hp.kinds hreceiver).bind fun kinds kinds' hkinds => ?_
  refine (compares_filterMapM (p := fun _ => True) id (hkinds.of_same .inl) fun kind _ =>
    (compares_lookup callee _).same fun _ _ _ => trivial).bind fun ids ids' hids => ?_
  exact (compares_below (hids.map fun _ _ => trivial)).reported fun hsame => by rw [hids.eq hsame]

lemma compares_memberTargets (callee : NodeId) (name : String) (hreceiver : C.place receiver)
    (hvalue : C.value receiver) : hp.Agrees C.targets (memberTargets · callee name receiver) := by
  have hmethods := compares_methodTargets hp callee hreceiver name
  have hobject : hp.Agrees C.targets (fun perform =>
      perform (.property (.singleton receiver) name none) >>= fun methods =>
        targetsOver methods (valueTargets callee)) :=
    (hp.property (.singleton ⟨hreceiver, hvalue⟩) name).bind fun _ _ hmethods =>
      compares_targetsOver hmethods fun _ hplace _ => compares_valueTargets callee hplace
  unfold memberTargets
  split
  · exact compares_below (.list_singleton trivial)
  · next n _ =>
    rw [Resolves.Agrees, compares_bind_formOf]
    split
    · exact hobject
    · exact hobject
    · refine (compares_globalName? n).andThen fun owner _ => ?_
      cases owner with
      | none => exact hmethods
      | some owner =>
        refine (compares_lookup callee _).next fun id => ?_
        cases id with
        | none => exact (compares_unsupported _ _).next fun _ => compares_nil
        | some id => exact compares_below (.list_singleton trivial)
  · exact hmethods

lemma compares_calleeTargets {callee : NodeId} (hcallee : C.At callee env) :
    hp.Agrees C.targets (calleeTargets · callee env) := by
  unfold Resolves.Agrees calleeTargets
  rw [compares_bind_formOf]
  split
  · next object property _ hform =>
    have hobject : C.At object env := hcallee.part hform (.head _) rfl
    refine compares_bind_textOf.mpr ((compares_values hobject).bind fun _ _ hreceivers => ?_)
    exact (compares_targetsOver hreceivers fun _ => compares_memberTargets hp callee _).bind
      fun _ _ h => compares_below h.firstOccurrences
  · refine (compares_values hcallee).bind fun _ _ hcallees => ?_
    exact (compares_targetsOver hcallees fun _ hplace _ => compares_valueTargets callee hplace).bind
      fun _ _ h => compares_below h.firstOccurrences

lemma compares_memberShapes (name : String) (hreceiver : C.place receiver) :
    Compares C (Below C.same fun _ => True) (memberShapes perform name receiver)
      (memberShapes perform' name receiver) := by
  unfold memberShapes
  extract_lets next next'
  have hnext : ∀ owner, Compares C (Below C.same fun _ => True) (next owner) (next' owner) := by
    intro owner
    cases owner with
    | some owner => exact compares_below (.list_singleton trivial)
    | none =>
      exact (hp.kinds hreceiver).bind fun _ _ h =>
        compares_below ((h.of_same .inl).map fun _ _ => trivial)
  split
  · exact (compares_globalName? _).andThen fun owner _ => hnext owner
  · exact hnext none

lemma compares_gettersAt (n : NodeId) (name : String) {receivers receivers' : ConfigSet}
    (hreceivers : C.values receivers receivers') :
    Compares C (Below C.same fun _ => True) (gettersAt perform n name receivers)
      (gettersAt perform' n name receivers') := by
  rw [gettersAt_eq, gettersAt_eq]
  refine (compares_inOrder hreceivers fun _ hc => C.fits_of_place hc.1).bind fun _ _ hitems => ?_
  refine (compares_appendOf (p := fun _ => True) id hitems fun receiver hreceiver => ?_).bind
    fun _ _ h => compares_below h.firstOccurrences
  refine (compares_memberShapes hp name hreceiver.1).bind fun _ _ hshapes => ?_
  refine compares_filterMapM id hshapes fun shape _ => (compares_lookup n shape).next fun id => ?_
  cases id with
  | some id => exact (compares_entry id).next fun _ => compares_same fun _ _ => trivial
  | none => exact compares_same fun _ _ => trivial

/-- Only a call, a `new` expression or an access is a result of builtins, and
these stand where they belong. -/
lemma compares_builtinsAt (hn : C.place (.ofNode n env)) :
    hp.Agrees (Below (C.Settled (.ofNode n env)) fun _ => C.At n env) (builtinsAt · n env) := by
  unfold Resolves.Agrees builtinsAt
  rw [compares_bind_formOf]
  split
  · next hform =>
    have hcall : C.At n env := C.at_of_place hn hform rfl
    refine (hp.targets (hcall.part hform (.head _) rfl)).bind fun _ _ htargets => ?_
    exact compares_below ((htargets.filterMap fun _ _ _ _ => hcall).of_same
      (C.same_of_settled (Arena.isResult_call rfl hform)))
  · next hform =>
    exact (compares_constructor? n).next fun _ =>
      compares_below (.refl fun _ _ => C.at_of_place hn hform rfl)
  · next hform =>
    have haccess : C.At n env := C.at_of_place hn hform rfl
    refine compares_bind_textOf.mpr
      ((compares_values (haccess.part hform (.head _) rfl)).bind fun _ _ hreceivers => ?_)
    exact (compares_gettersAt hp n _ hreceivers).mono fun _ _ h =>
      (h.imp fun _ _ => haccess).of_same (C.same_of_settled (Arena.isResult_member rfl hform))
  · exact compares_nil

omit hp in
lemma compares_targetKinds {targets targets' : List Target} (h : C.targets targets targets') :
    Compares C (Below C.same fun _ => True) (targetKinds targets) (targetKinds targets') := by
  refine (compares_filterMapM (p := fun _ => True) id h fun target _ => ?_).bind
    fun _ _ h => compares_below h.firstOccurrences
  cases target with
  | function value =>
    dsimp only
    split
    · exact (compares_isAsync _).next fun _ => compares_same fun _ _ => trivial
    · exact compares_same fun _ _ => trivial
  | builtin id => exact (compares_entry id).next fun _ => compares_same fun _ _ => trivial
  | external => exact compares_same fun _ _ => trivial

lemma compares_kindsOf (hvalue : C.place value) :
    hp.Agrees (Below (C.Settled value) fun _ => True) (kindsOf · value) := by
  have hkinds : ∀ kinds, Compares C (Below (C.Settled value) fun _ => True)
      (pure kinds : Rule (List Kind)) (pure kinds) :=
    fun kinds => compares_below (.refl fun _ _ => trivial)
  unfold kindsOf
  split
  · exact hkinds _
  · exact hkinds _
  · exact hkinds _
  · next n hcursor =>
    have hn := Config.node?_of_cursor hcursor
    have hplace : C.place (.ofNode n value.env) := C.place_of_node? hvalue hn
    have hproduced : hp.Agrees (Below (C.Settled value) fun _ => True) fun perform => do
        let ids ← builtinsAt perform n value.env
        return firstOccurrences (← ids.filterMapM fun id => do return (← entry id).produces) := by
      rw [Config.eq_of_node? hn]
      refine (compares_builtinsAt hp hplace).bind fun _ _ hids => ?_
      refine (compares_filterMapM (p := fun _ => True) .inl hids fun id _ => ?_).bind
        fun _ _ h => compares_below h.firstOccurrences
      exact (compares_entry id).next fun _ => compares_same fun _ _ => trivial
    rw [Resolves.Agrees, compares_bind_formOf]
    split
    -- only names, calls, constructions and accesses need more than the form
    all_goals try exact hkinds _
    · refine (compares_globalName? n).andThen fun name _ => ?_
      cases name with
      | none => exact hkinds _
      | some name => exact compares_bind_catalogue.mpr (hkinds _)
    · next hform =>
      have hcallee := (C.at_of_place hplace hform rfl).part hform (.head _) rfl
      exact (hp.targets hcallee).bind fun _ _ h => (compares_targetKinds h).mono
        fun _ _ h => h.of_same (C.same_of_settled (Arena.isResult_call hn hform))
    · exact hproduced
    · exact hproduced

end Callees

/-! ## Summaries -/

lemma compares_receiverValues {site : Site} (hsite : C.At site.node site.env) :
    Steady C C.values (receiverValues site) := by
  refine (compares_receiver? hsite).andThen fun object h => ?_
  cases object with
  | some object => exact compares_values (h object rfl)
  | none => exact compares_empty

lemma compares_methodCall? (method : String) (hn : C.At n env) :
    Steady C (Same fun found => ∀ call, found = some call → C.At call env)
      (methodCall? method n) := by
  unfold Steady methodCall?
  rw [compares_bind_arena]
  split
  · exact compares_same nofun
  · next parent hparent =>
    split
    · next hform =>
      exact compares_bind_textOf.mpr (.ite
        (fun _ => compares_same fun call h => (hn.parent hparent hform rfl).calleeOf h)
        fun _ => compares_same nofun)
    · exact compares_same nofun

lemma compares_firstOf {call : NodeId} (hcall : C.At call env) (position : Nat) :
    Steady C C.values (do match ← argument? call position with
        | some argument => values argument env
        | none => return .empty) := by
  refine (compares_argument? hcall position).andThen fun argument h => ?_
  cases argument with
  | some argument => exact compares_values (h argument rfl)
  | none => exact compares_empty

lemma compares_storedArguments {collections collections' : ConfigSet}
    (h : C.values collections collections') (method : String) (position : Nat) :
    Compares C C.values (storedArguments collections method position)
      (storedArguments collections' method position) := by
  refine compares_unionOver_places h fun collection hcollection _ => ?_
  refine .ite (fun _ => compares_external) fun _ =>
    (compares_ask_traced hcollection).bind fun _ _ haliases => ?_
  refine compares_unionOver_spots haliases fun ref href => ?_
  split
  · exact compares_empty
  · next n hn =>
    refine (compares_methodCall? method (C.at_of_spot href hn)).andThen fun call hcall => ?_
    cases call with
    | none => exact compares_empty
    | some call => exact compares_firstOf (hcall call rfl) position

section Summaries

variable (hp : Performs C perform perform') {site : Site} {values values' : ConfigSet}
include hp

lemma compares_awaitValues (h : C.values values values') :
    Compares C C.values (awaitValues perform values) (awaitValues perform' values') :=
  (compares_inOrder h fun _ hc => C.fits_of_place hc.1).bind fun _ _ hpending =>
    hp.awaited hpending .empty (.inr ⟨rfl, rfl, rfl⟩)

lemma compares_flatten (h : C.values values values') :
    Compares C C.values (flatten perform values) (flatten perform' values') := by
  refine compares_unionOver_places h fun value hplace hvalue => ?_
  have hsettled := hp.plain value hvalue
  have hisArray : hp.Agrees Eq (isArray · value) := by
    unfold isArray
    split
    · exact compares_rfl true
    · rw [Performs.Agrees, compares_bind_formOf]
      split
      · exact compares_rfl true
      · refine (hp.kinds hplace).bind fun _ _ h => ?_
        rw [h.eq hsettled]
        exact compares_rfl _
    · exact compares_rfl false
  refine hisArray.next fun array => .ite (fun _ => ?_) fun _ => ?_
  · exact hp.elements (.singleton ⟨hplace, hsettled⟩) none
  · exact compares_below (.singleton ⟨hplace, hvalue⟩)

variable (hsite : C.At site.node site.env)
include hsite

lemma compares_receiverElements :
    hp.Agrees C.values (receiverElements · site) :=
  (compares_receiverValues hsite).bind fun _ _ h => hp.elementsOf h none

lemma compares_argumentValues (position : Nat) :
    hp.Agrees C.values (argumentValues · site position) := by
  refine (compares_argument? hsite position).andThen fun argument hargument => ?_
  cases argument with
  | none => exact compares_empty
  | some argument =>
    have hat := hargument argument rfl
    dsimp only
    rw [compares_bind_formOf]
    split
    · next hform =>
      exact (compares_values (hat.part hform (.head _) rfl)).bind fun _ _ h => hp.elementsOf h none
    · exact compares_values hat

lemma compares_callbackReturns (position : Nat) :
    hp.Agrees C.values (callbackReturns · site position) := by
  refine (compares_argumentValues hp hsite position).bind fun _ _ hcallbacks => ?_
  refine compares_unionOver_places hcallbacks fun callback hcallback _ => ?_
  split
  · next n hcursor =>
    rw [compares_bind_arena]
    exact .ite (fun hf => compares_applyCallback
        (C.closure_of_place hcallback (Config.node?_of_cursor hcursor) hf) position hsite)
      fun _ => compares_empty
  · exact compares_external
  · exact compares_empty

lemma compares_sourceElements :
    hp.Agrees C.values (sourceElements · site) :=
  (compares_argumentValues hp hsite 0).bind fun _ _ h => hp.elementsOf h none

lemma compares_awaitedReceiver :
    hp.Agrees C.values (awaitedReceiver · site) :=
  (compares_receiverValues hsite).bind fun _ _ h => compares_awaitValues hp h

omit hsite in
lemma compares_initialEntries {collections collections' : ConfigSet}
    (h : C.values collections collections') : Compares C C.values
      (initialEntries perform collections) (initialEntries perform' collections') := by
  refine compares_unionOver_places h fun collection hcollection _ => ?_
  split
  · exact compares_empty
  · next n hn =>
    rw [compares_bind_formOf]
    split
    · next hform =>
      exact compares_sourceElements hp (C.at_of_place (C.place_of_node? hcollection hn) hform rfl)
    · exact compares_empty

lemma compares_receiverMaps :
    hp.Agrees C.values (fun perform => do mapValues perform (← receiverValues site)) :=
  (compares_receiverValues hsite).bind fun _ _ h =>
    (compares_storedArguments h "set" 1).bind fun _ _ hstored =>
      (compares_initialEntries hp h).bind fun _ _ hentries =>
        compares_union hstored (hp.elementsOf hentries (some 1))

lemma compares_receiverSets :
    hp.Agrees C.values (fun perform => do setValues perform (← receiverValues site)) :=
  (compares_receiverValues hsite).bind fun _ _ h =>
    (compares_storedArguments h "add" 0).bind fun _ _ hstored =>
      compares_union hstored (compares_initialEntries hp h)

lemma compares_callSummary (summary : CallSummary) :
    hp.Agrees C.values (callSummary · site summary) := by
  cases summary with
  | nothing => exact compares_empty
  | external => exact compares_external
  | receiver => exact compares_receiverValues hsite
  | receiverElement => exact compares_receiverElements hp hsite
  | reduction =>
    exact (compares_callbackReturns hp hsite 0).bind fun _ _ h =>
      compares_union h (compares_argumentValues hp hsite 1)
  | firstArgument => exact compares_argumentValues hp hsite 0
  | storedValue => exact compares_receiverMaps hp hsite

lemma compares_propertySummary (name : String) (summary : PropertySummary) :
    hp.Agrees (Option.Rel C.values) (propertySummary · site name summary) := by
  cases summary with
  | errorMessage =>
    exact .ite (fun _ => compares_some (compares_argumentValues hp hsite 0)) fun _ => compares_none

lemma compares_elementSummary (position : Option Nat) (summary : ElementSummary) :
    hp.Agrees C.values (elementSummary · site position summary) := by
  cases summary with
  | external => exact compares_external
  | callbackResults => exact compares_callbackReturns hp hsite 0
  | receiverElements => exact compares_receiverElements hp hsite
  | concatenation =>
    refine (compares_receiverElements hp hsite).bind fun _ _ helements =>
      (compares_argumentsOf hsite).andThen fun arguments _ => compares_union helements ?_
    exact compares_unionOf_list _ fun i _ => (compares_argumentValues hp hsite i).bind
      fun _ _ h => compares_flatten hp h
  | flattened =>
    exact (compares_receiverElements hp hsite).bind fun _ _ h => compares_flatten hp h
  | converted =>
    exact (compares_argument? hsite 1).andThen fun _ _ =>
      .ite (fun _ => compares_callbackReturns hp hsite 1) fun _ => compares_sourceElements hp hsite
  | arguments =>
    exact hp.elements (.singleton ⟨.inl (C.spot_arguments.mpr hsite), .inr rfl⟩) position
  | argumentElements => exact compares_sourceElements hp hsite
  | settledElements =>
    exact (compares_argumentValues hp hsite 0).bind fun _ _ hpromises =>
      (hp.elementsOf hpromises position).bind fun _ _ h => compares_awaitValues hp h
  | storedValues => exact compares_receiverMaps hp hsite

omit hp in
lemma compares_executorArguments {executor : Config} (hexecutor : C.place executor) :
    Steady C C.values (executorArguments site executor) := by
  unfold executorArguments
  extract_lets next
  split
  · next f hf =>
    rw [Steady, compares_bind_formOf]
    unfold next
    split
    · next resolve params body flags hform =>
      have hfunction : w.arena.isFunction f = true := by rw [Arena.isFunction, hform]; rfl
      obtain ⟨g, outer, rfl, -, houter⟩ := C.closure_of_place hexecutor hf hfunction
      cases hf
      rw [compares_bind_scopes]
      split
      · exact compares_empty
      · next id hid =>
        refine (compares_enterFrom hfunction houter hsite rfl).andThen
          fun bodyEnv hbody => compares_bind_scopes.mpr ?_
        refine compares_unionOf_list _ fun reference hreference => ?_
        -- what the reference is called with
        have hsuffix := C.built.within_scope_suffix_of_reference hreference
        rw [C.built.within_scope_of_param hform (.head _) hid] at hsuffix
        refine (compares_envAt hbody.fits (C.built.forest.chain_within f)
          (C.built.lt_of_mem_referencesOf hreference) (C.near_inner hsuffix)).andThen
          fun env henv => compares_bind_arena.mpr ?_
        split
        · next call hcall => exact compares_firstOf (henv.calleeOf hcall) 0
        · exact compares_external
    · exact compares_empty
    · exact compares_external
  · exact compares_external

lemma compares_resolvedSummary (hvalue : C.values site.value site.value)
    (summary : ResolvedSummary) : hp.Agrees C.values (resolvedSummary · site summary) := by
  have hreturns := compares_callbackReturns hp hsite 0
  cases summary with
  | nothing => exact compares_empty
  | itself => exact compares_below hvalue
  | firstArgument => exact compares_argumentValues hp hsite 0
  | anyElement => exact compares_sourceElements hp hsite
  | executorArguments =>
    exact (compares_argumentValues hp hsite 0).bind fun _ _ h =>
      compares_unionOver_places h fun _ hplace _ => compares_executorArguments hsite hplace
  | continuation =>
    exact (compares_argument? hsite 0).andThen fun _ _ =>
      .ite (fun _ => compares_awaitedReceiver hp hsite) fun _ => hreturns
  | recovery =>
    exact (compares_awaitedReceiver hp hsite).bind fun _ _ h => compares_union h hreturns
  | receiver => exact compares_awaitedReceiver hp hsite

lemma compares_binderSummary (callback param : Nat) (summary : BinderSummary) :
    hp.Agrees C.values (binderSummary · site callback param summary) := by
  have hexternal : Steady C C.values (pure .external) := compares_external
  have hvalues := compares_receiverValues hsite
  have helements := compares_receiverElements hp hsite
  cases summary with
  | external => exact hexternal
  | receiverElements => exact helements
  | iteration =>
    simp only [binderSummary]
    split
    · exact helements
    · exact hvalues
    · exact hexternal
  | reduction =>
    simp only [binderSummary]
    split
    · refine (compares_argumentValues hp hsite 1).bind fun _ _ hstart =>
        (compares_callbackReturns hp hsite 0).bind fun _ _ hreturned =>
          (compares_argument? hsite 1).andThen fun _ _ => ?_
      exact .ite (fun _ => compares_union (hstart.union hreturned) helements)
        fun _ => compares_union (hstart.union hreturned) compares_empty
    · exact helements
    · exact hvalues
    · exact hexternal
  | conversion =>
    simp only [binderSummary]
    split
    · exact compares_sourceElements hp hsite
    · exact hexternal
  | settled =>
    simp only [binderSummary]
    split
    · exact compares_awaitedReceiver hp hsite
    · exact hexternal
  | mapIteration =>
    simp only [binderSummary]
    split
    · exact compares_receiverMaps hp hsite
    · exact hvalues
    · exact hexternal
  | setIteration =>
    simp only [binderSummary]
    split
    · exact compares_receiverSets hp hsite
    · exact compares_receiverSets hp hsite
    · exact hvalues
    · exact hexternal

end Summaries

/-! ## Properties -/

lemma compares_isText (n : NodeId) (text : String) :
    Steady C Eq (isText n text) := by
  unfold Steady isText
  rw [compares_bind_formOf]
  split
  · exact compares_bind_textOf.mpr (compares_rfl _)
  · exact compares_rfl false

lemma compares_storedInProperty? (name : String) {parent : NodeId} (hn : C.At n env)
    (hparent : w.arena.parent? n = some parent) :
    Steady C (Same fun found => ∀ value, found = some value → C.At value env)
      (storedInProperty? name n parent) := by
  unfold Steady storedInProperty?
  rw [compares_bind_arena]
  extract_lets next
  have hnext : ∀ named, C.At parent env →
      Steady C (Same fun found => ∀ value, found = some value → C.At value env) (next named) := by
    refine fun named hat => compares_same fun value h => ?_
    split at h
    · exact hat.assigned h
    · cases h
  split
  · next hform => exact compares_bind_textOf.mpr (hnext _ (hn.parent hparent hform rfl))
  · next hform =>
    exact (compares_isText _ _).next fun _ => hnext _ (hn.parent hparent hform rfl)
  · exact compares_same nofun

lemma compares_exportValues (root : NodeId) (name : String) :
    Steady C C.values (exportValues root name) := by
  unfold Steady exportValues
  rw [compares_bind_world]
  have hinside := C.built.inside_exportTarget w.program.names (w.arena.node root).home name
  dsimp only
  split
  · next id htarget =>
    rw [htarget] at hinside
    exact (compares_topLevel (C.built.lt_of_binding hinside)).andThen fun _ => compares_values
  · next value htarget =>
    rw [htarget] at hinside
    exact (compares_topLevel hinside).andThen fun _ => compares_values
  · next other htarget =>
    rw [htarget] at hinside
    exact compares_below (C.values_module hinside)
  · exact compares_external

section Getters

variable (hsite : ∀ s, site = some s → C.site s)
include hsite

/-- What a builtin member of a value is, by its description. -/
lemma compares_getterValue (n : NodeId) (shape : Shape) (message : String) :
    Steady C (C.accessed site) (do match ← lookup n shape with
        | some id => return if (← entry id).getter then getterValue site else .external
        | none =>
          unsupported n message
          return .empty) := by
  refine (compares_lookup n shape).next fun id => ?_
  cases id with
  | none => exact compares_unsupported_empty _ _
  | some id =>
    refine (compares_entry id).next fun entry => compares_below (.refl ?_)
    have hexternal : C.accessed site .external .external := C.accessed_of_values C.values_external
    split
    · cases site with
      | none => exact hexternal.all
      | some s =>
        have hs := hsite s rfl
        exact ConfigSet.All.singleton
          ⟨.inl (C.spot_ofNode.mpr hs.1), hs.2.imp_right fun hvalue => ⟨s, rfl, rfl, hvalue⟩⟩
    · exact hexternal.all

end Getters

def assigns (w : World) : Target → Bool
  | .builtin id =>
    decide (((w.catalogue.get? id).getD { shape := .global "" }).shape = .static "Object" "assign")
  | _ => false

section Properties

variable {value object : Config} (hp : Resolves C perform perform')
include hp

lemma compares_isObjectAssign {call : NodeId} (hcall : C.At call env) :
    hp.Agrees (Implies C.same) (isObjectAssign · call env) := by
  unfold Resolves.Agrees isObjectAssign
  rw [compares_bind_formOf]
  split
  · next hform =>
    refine (hp.targets (hcall.part hform (.head _) rfl)).bind fun targets targets' h visiting => ?_
    rw [anyM_eq_done (assigns w) (by rintro (_ | _ | _) <;> rfl) targets,
      anyM_eq_done (assigns w) (by rintro (_ | _ | _) <;> rfl) targets']
    exact C.done (h.any _) (.refl _)
  · exact compares_pure (.refl _) (.refl _)

lemma compares_assignSources (hn : C.At n env) :
    hp.Agrees (Below C.same fun source => C.At source env) (assignSources · n env) := by
  unfold Resolves.Agrees assignSources
  rw [compares_bind_arena]
  split
  · next call hcall =>
    have hcall := hn.argumentOf hcall
    refine (compares_isObjectAssign hp hcall).bind fun _ _ hassign =>
      .gated (fun _ => List.not_mem_nil) hassign ?_
    exact (compares_argumentsOf hcall).andThen fun _ harguments =>
      compares_below (.refl fun source h => harguments source (List.mem_of_mem_drop h))
  · exact compares_nil

lemma compares_literalProperty {property : NodeId} (hproperty : C.At property env)
    (name : String) : hp.Agrees C.values (literalProperty · env name property) := by
  unfold Resolves.Agrees literalProperty
  rw [compares_bind_formOf]
  split
  · next hform =>
    have hvalue := compares_values (hproperty.part hform (.head _) rfl)
    exact compares_bind_textOf.mpr (.ite (fun _ => hvalue) fun _ => compares_empty)
  · next hform =>
    have hvalue := compares_values (hproperty.part hform (.tail _ (.head _)) rfl)
    exact (compares_isText _ _).next fun _ => .ite (fun _ => hvalue) fun _ => compares_empty
  · next hform =>
    exact (compares_values (hproperty.part hform (.head _) rfl)).bind
      fun _ _ hvalues => hp.property hvalues name
  · exact compares_empty

lemma compares_aliasProperty (name : String) {ref : Config} (href : C.spot ref) :
    hp.Agrees C.values (aliasProperty · name ref) := by
  unfold aliasProperty
  split
  · exact compares_empty
  · next n hn =>
    have hat := C.at_of_spot href hn
    rw [Resolves.Agrees, compares_bind_arena]
    split
    · exact compares_empty
    · next parent hparent =>
      have hcopied : ∀ stored stored' : ConfigSet, C.values stored stored' → Compares C C.values
          (do
            let copied ← unionOf (← assignSources perform n ref.env) fun source => do
              perform (.property (← values source ref.env) name none)
            return stored ∪ copied)
          (do
            let copied ← unionOf (← assignSources perform' n ref.env) fun source => do
              perform' (.property (← values source ref.env) name none)
            return stored' ∪ copied) := by
        intro stored stored' hstored
        refine (compares_assignSources hp hat).bind fun _ _ hsources => ?_
        refine compares_union hstored (compares_unionOf hsources fun source hsource => ?_)
        exact (compares_values hsource).bind fun _ _ h => hp.property h name
      refine (compares_storedInProperty? name hat hparent).andThen fun value h => ?_
      cases value with
      | some value => exact (compares_values (h value rfl)).bind hcopied
      | none => exact hcopied .empty .empty .empty

lemma compares_guardedProperty (hobject : C.place object) (name : String) :
    hp.Agrees C.values (guardedProperty · object name) := by
  refine .guarded .empty ?_
  unfold objectProperty
  split
  · exact compares_empty
  · next n hn =>
    rw [compares_bind_formOf]
    split
    · next properties hform =>
      have hat : C.At n object.env := C.at_of_place (C.place_of_node? hobject hn) hform rfl
      refine (compares_unionOf_list properties fun property hproperty =>
        compares_literalProperty hp (hat.part hform hproperty rfl) name).bind fun _ _ hown => ?_
      refine (compares_ask_traced hobject).bind fun _ _ haliases => ?_
      exact compares_union hown
        (compares_unionOver_spots haliases fun _ => compares_aliasProperty hp name)
    · exact compares_empty

variable (hsite : ∀ s, site = some s → C.site s)
include hsite

lemma compares_kindProperty (hvalue : C.place value) (name : String) (reportAt : Option NodeId) :
    hp.Agrees (C.accessed site) (kindProperty · value name site reportAt) := by
  refine (hp.kinds hvalue).bind fun kinds kinds' hkinds => ?_
  cases reportAt with
  | none => exact compares_empty
  | some n =>
    exact compares_unionOf (hkinds.of_same .inl) fun _ _ => compares_getterValue hsite n _ _

/-- A property of a value that is no object literal and no module, as far as the
builtins that make the value describe it alike. -/
lemma compares_builtinProperty (hvalue : C.place value) (name : String)
    (hproduced : hp.Agrees (Option.Rel C.values) (producedProperty · value name)) :
    hp.Agrees (C.accessed site) (builtinProperty · value name site) := by
  have hkind := compares_kindProperty hp hsite hvalue name ((site.map (·.node)) <|> value.node?)
  have hmade : ∀ values values' : ConfigSet, C.values values values' →
      Compares C (C.accessed site) (pure values) (pure values') :=
    fun _ _ h => compares_below (C.accessed_of_values h)
  unfold builtinProperty
  split
  · next n _ =>
    refine (compares_globalName? n).andThen fun owner _ => ?_
    cases owner with
    | some owner => exact compares_getterValue hsite _ _ _
    | none => exact hproduced.ifAny hmade hkind
  · exact hproduced.ifAny hmade hkind

lemma compares_propertyValues {values values' : ConfigSet} {q : Config → Prop}
    (hvalues : Below C.same (fun c => C.place c ∧ q c) values values') (name : String)
    (hproduced : ∀ value, C.place value → q value →
      hp.Agrees (Option.Rel C.values) (producedProperty · value name)) :
    Compares C (C.accessed site) (propertyValues perform values name site)
      (propertyValues perform' values' name site) := by
  refine compares_unionOver_places hvalues fun value hvalue hq => ?_
  have hbuiltin := compares_builtinProperty hp hsite hvalue name (hproduced value hvalue hq)
  split
  · exact compares_below (C.accessed_of_values C.values_external)
  · rw [compares_bind_formOf]
    split
    · exact (compares_guardedProperty hp hvalue name).mono fun _ _ => C.accessed_of_values
    · exact (compares_exportValues _ name).mono fun _ _ => C.accessed_of_values
    · exact compares_empty
    · exact compares_empty
    · exact hbuiltin
  · exact hbuiltin

end Properties

/-! ## Elements -/

lemma compares_indexPosition (index : NodeId) :
    Steady C Eq (indexPosition index) := by
  unfold Steady indexPosition
  rw [compares_bind_formOf]
  split
  · exact compares_bind_textOf.mpr (compares_rfl _)
  · exact compares_rfl none

lemma compares_objectValues {properties : List NodeId} (hn : C.At n env)
    (hform : w.arena.form n = .object properties) :
    Steady C C.values (objectValues properties env) := by
  refine compares_unionOf_list properties fun property hproperty => ?_
  have hproperty := hn.part hform hproperty rfl
  rw [compares_bind_formOf]
  split
  · next key value _ hform =>
    refine compares_values (hproperty.part hform ?_ rfl)
    cases key <;> simp [Form.children]
  · exact compares_empty

section Elements

variable (hp : Performs C perform perform') {value : Config}
include hp

/-- A property of what builtins have made. -/
lemma compares_producedProperty (hvalue : C.place value) (hsettled : C.Settled value)
    (name : String) : hp.Agrees (Option.Rel C.values) (producedProperty · value name) := by
  unfold producedProperty
  split
  · exact compares_none
  · next n hn =>
    refine (compares_builtinsAt hp.resolves (C.place_of_node? hvalue hn)).bind
      fun ids ids' hids => ?_
    rw [hids.eq (Config.eq_of_node? hn ▸ hsettled)]
    refine compares_foldlM_ifAny fun found found' hfound id hid =>
      (compares_entry id).next fun entry => ?_
    split
    · exact compares_option hfound
    · exact (compares_propertySummary hp (hids.all id hid) name _).ifAny
        (fun _ _ h => compares_option (.some (h.addTo hfound))) (compares_option hfound)

lemma compares_listedElements (counts : Option Nat → Bool) (position : Option Nat)
    {elements : List (Option NodeId)} (helements : ∀ n, some n ∈ elements → C.At n env)
    (offset : Option Nat) :
    hp.Agrees C.values (listedElements · counts env position offset elements) := by
  induction elements generalizing offset with
  | nil => exact compares_empty
  | cons element rest ih =>
    have ih := ih fun n hn => helements n (.tail _ hn)
    cases element with
    | none => exact ih _
    | some element =>
      have helement := helements element (.head _)
      unfold Performs.Agrees listedElements
      rw [compares_bind_formOf]
      refine Compares.bind (R := C.values) ?_ fun _ _ hfound => ?_
      · unfold listedPart
        split
        · next hform =>
          refine .ite (fun _ => ?_) fun _ => compares_empty
          exact (compares_values (helement.part hform (.head _) rfl)).bind fun _ _ h =>
            hp.elementsOf h none
        · exact .ite (fun _ => compares_values helement) fun _ => compares_empty
      · cases w.arena.form element <;> exact compares_union hfound (ih _)

lemma compares_argumentElements {call : NodeId} (first : Nat) (hcall : C.At call env)
    (position : Option Nat) : hp.Agrees C.values (argumentElements · call first env position) := by
  refine (compares_argumentsOf hcall).andThen fun _ harguments => ?_
  rw [argumentElementsFrom_eq, argumentElementsFrom_eq]
  refine compares_listedElements hp _ position (fun n hn => ?_) _
  obtain ⟨_, hn, heq⟩ := List.mem_map.mp hn
  cases heq
  exact harguments n (List.mem_of_mem_drop hn)

lemma compares_aliasElements (position : Option Nat) {ref : Config} (href : C.spot ref) :
    hp.Agrees C.values (aliasElements · position ref) := by
  unfold Performs.Agrees aliasElements
  rw [compares_bind_arena]
  split
  · exact compares_empty
  · next n hn =>
    have hat := C.at_of_spot href hn
    split
    · next parent object property flags hfound =>
      -- a method called on the alias
      obtain ⟨_, hparent, heq⟩ := Option.map_eq_some_iff.mp hfound
      obtain ⟨rfl, hform⟩ := Prod.mk.inj heq
      rw [compares_bind_textOf]
      refine .ite (fun _ => ?_) fun _ => compares_empty
      split
      · next hcall =>
        exact compares_argumentElements hp 0 ((hat.parent hparent hform rfl).calleeOf hcall) none
      · exact compares_empty
    · next parent object index flags hfound =>
      -- an index of the alias
      obtain ⟨_, hparent, heq⟩ := Option.map_eq_some_iff.mp hfound
      obtain ⟨rfl, hform⟩ := Prod.mk.inj heq
      refine .ite (fun _ => ?_) fun _ => compares_empty
      split
      · next stored hstored =>
        exact (compares_indexPosition _).next fun _ =>
          .ite (fun _ => compares_values ((hat.parent hparent hform rfl).assigned hstored))
            fun _ => compares_empty
      · exact compares_empty
    · exact compares_empty

lemma compares_arrayElements {array : Config} (harray : C.place array) (position : Option Nat) :
    hp.Agrees C.values (arrayElements · array position) := by
  unfold arrayElements
  split
  · exact compares_empty
  · next n hn =>
    rw [Performs.Agrees, compares_bind_formOf]
    split
    · next elements hform =>
      have hat : C.At n array.env := C.at_of_place (C.place_of_node? harray hn) hform rfl
      have helements : ∀ n, some n ∈ elements → C.At n array.env := fun n hn =>
        hat.part hform (List.mem_filterMap.mpr ⟨some n, hn, rfl⟩) rfl
      rw [literalElementsFrom_eq, literalElementsFrom_eq]
      refine (compares_listedElements hp _ position helements _).bind fun _ _ hown => ?_
      refine (compares_ask_traced harray).bind fun _ _ haliases => compares_union hown ?_
      exact compares_unionOver_spots haliases fun _ => compares_aliasElements hp position
    · exact compares_empty

lemma compares_builtinElements (hvalue : C.place value) (hsettled : C.Settled value)
    (hn : value.node? = some n) (position : Option Nat) :
    hp.Agrees C.values (builtinElements · value n position) := by
  refine (compares_builtinsAt hp.resolves (C.place_of_node? hvalue hn)).bind fun ids ids' hids => ?_
  rw [hids.eq (Config.eq_of_node? hn ▸ hsettled)]
  refine (compares_foldlM_ifAny fun found found' hfound id hid =>
    (compares_entry id).next fun entry => ?_).ifAny (fun _ _ h => compares_below h)
      ((hp.kinds hvalue).bind fun kinds kinds' hkinds => ?_)
  · split
    · exact (compares_elementSummary hp (hids.all id hid) position _).bind fun _ _ h =>
        compares_option (.some (h.addTo hfound))
    · exact compares_option hfound
  · rw [hkinds.eq hsettled]
    exact .ite (fun _ => compares_unsupported_empty _ _) fun _ => compares_external

lemma compares_elementValues {values values' : ConfigSet} (h : C.places values values')
    (position : Option Nat) : Compares C C.values (elementValues perform values position)
      (elementValues perform' values' position) := by
  refine compares_unionOver_places h fun value hvalue hsettled => ?_
  split
  · exact compares_external
  · next hcursor =>
    exact compares_argumentElements hp _ (C.at_of_place_arguments hvalue hcursor) position
  · exact compares_empty
  · next n hcursor =>
    have hn := Config.node?_of_cursor hcursor
    rw [compares_bind_formOf]
    split
    · exact (compares_arrayElements hp hvalue position).guarded .empty
    · next hform =>
      split
      · exact compares_guardedProperty hp.resolves hvalue _
      · exact compares_objectValues (C.at_of_place (C.place_of_node? hvalue hn) hform rfl) hform
    · exact compares_external
    · exact compares_external
    · exact compares_empty
    · exact compares_empty
    · exact compares_builtinElements hp hvalue hsettled hn position

end Elements

/-! ## Awaiting -/

section Awaiting

variable (hp : Performs C perform perform')
include hp

lemma compares_builtinResolved (id : BuiltinId) {site : Site} (hsite : C.At site.node site.env)
    (hvalue : C.values site.value site.value) :
    hp.Agrees (Option.Rel C.values) (builtinResolved · id site) := by
  refine (compares_entry id).next fun entry => ?_
  split
  · exact compares_some (compares_resolvedSummary hp hsite hvalue _)
  · refine compares_option ?_
    split
    · exact .some C.values_external
    · exact .none

lemma compares_targetResolved {site : Site} (hsite : C.At site.node site.env)
    (hvalue : C.values site.value site.value) {target : Target} (htarget : C.target target) :
    hp.Agrees (Option.Rel C.values) (targetResolved · site target) := by
  cases target with
  | function function =>
    obtain ⟨f, outer, rfl, hf, houter⟩ := htarget
    refine (compares_isAsync _).next fun _ => .ite (fun _ => ?_) fun _ => compares_none
    exact (compares_enter hf houter hsite).andThen fun _ hbody =>
      compares_some (compares_returns hbody.2)
  | builtin id => exact compares_builtinResolved hp id hsite hvalue
  | external => exact compares_none

/-- What a value comes to if it is a promise. -/
lemma compares_opened {value : Config} (hplace : C.place value) (hvalue : C.value value) :
    hp.Agrees (Option.Rel C.values) (opened · value) := by
  unfold opened
  split
  · next n hn =>
    have hplace : C.place (.ofNode n value.env) := C.place_of_node? hplace hn
    have hvalues : C.values (Site.value ⟨n, value.env⟩) (Site.value ⟨n, value.env⟩) :=
      .singleton ⟨hplace, Config.eq_of_node? hn ▸ hvalue⟩
    unfold Performs.Agrees resolved?
    rw [compares_bind_formOf]
    split
    · next hform =>
      have hsite : C.At n value.env := C.at_of_place hplace hform rfl
      refine (hp.targets (hsite.part hform (.head _) rfl)).bind fun targets targets' htargets => ?_
      rw [htargets.eq (C.same_of_settled (Arena.isResult_call hn hform) (hp.plain value hvalue))]
      refine compares_foldlM_ifAny fun found found' hfound target htarget => ?_
      exact (compares_targetResolved hp hsite hvalues (htargets.all target htarget)).ifAny
        (fun _ _ h => compares_option (.some (h.addTo hfound))) (compares_option hfound)
    · next hform =>
      refine (compares_constructor? n).next fun id => ?_
      cases id with
      | some id => exact compares_builtinResolved hp id (C.at_of_place hplace hform rfl) hvalues
      | none => exact compares_none
    · exact compares_none
  · exact compares_none

/-- A step of the search through promises, where both sides find the same. -/
lemma compares_awaited (hsame : C.same) {pending pending' : List Config}
    (hpending : Below C.same (fun c => C.place c ∧ C.value c) pending pending')
    (seen : List Config) {settled settled' : ConfigSet} (hsettled : C.values settled settled') :
    Compares C C.values (awaited perform pending seen settled)
      (awaited perform' pending' seen settled') := by
  rw [hpending.eq hsame]
  have hpending := hpending.all
  cases pending' with
  | nil => exact compares_below hsettled
  | cons value pending =>
    obtain ⟨hvalue, hrest⟩ := List.forall_mem_cons.mp hpending
    rw [awaited_cons, awaited_cons]
    refine .ite (fun _ => hp.awaited (.refl hrest) hsettled (.inl hsame)) fun _ => ?_
    refine (compares_opened hp hvalue.1 hvalue.2).ifAny (fun set set' hset => ?_) ?_
    · have herased : C.values (set.erase value) (set'.erase value) := by
        rw [hset.eq hsame]
        exact .refl fun c hc => hset.all c (PowerSet.mem_erase.mp hc).1
      refine (compares_inOrder herased fun _ hc => C.fits_of_place hc.1).bind fun _ _ hitems => ?_
      refine hp.awaited (hitems.append (.refl hrest)) ?_ (.inl hsame)
      rw [hset.eq hsame]
      split
      · exact hsettled.insert hvalue
      · exact hsettled
    · exact hp.awaited (.refl hrest) (hsettled.insert hvalue) (.inl hsame)

end Awaiting

/-- Where both sides find the same, operations compare one level deeper. -/
lemma Performs.deeper (hsame : C.same) {depth depth' : Nat}
    (hp : Performs C (meaning depth) (meaning depth')) :
    Performs C (meaning (depth + 1)) (meaning (depth' + 1)) where
  plain _ _ := .inl hsame
  targets hcallee := compares_calleeTargets hp.resolves hcallee
  kinds hvalue := (compares_kindsOf hp.resolves hvalue).guarded .nil
  property hvalues name _ hsite := compares_propertyValues hp.resolves hsite hvalues name
    fun _ hvalue hsettled => compares_producedProperty hp hvalue hsettled name
  elements hvalues position := compares_elementValues hp hvalues position
  awaited hpending hsettled _ := compares_awaited hp hsame hpending _ hsettled

end ValueFlow.Rule
