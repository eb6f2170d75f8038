import ValueFlow.Proofs.Flow.Settled

/-!
# What a session never leaves

If all questions and all facts from outside are within a region, so is
everything that a session ever finds out. Three regions are of use: the one with
everything in it, the nodes of the program, and the contexts within the bound.

From the first two it follows that a session has little to go wrong. The only
fatal error is that a name has no declaration; it is met exactly where the
origins of such a name are asked for; and no look-up ever leads out of the
program.
-/

namespace ValueFlow

open Moment (resting)

structure Config.Placed (node : NodeId → Prop) (context : Context → Prop) (c : Config) : Prop where
  point : ∀ n, c.cursor.point? = some n → node n
  env   : c.env.All context

structure Region (w : World) where
  node : NodeId → Prop
  context : Context → Prop
  /-- What the callers of a body satisfy, by the context of the body. -/
  calls : Context → Config → Prop
  inside : ∀ n < w.program.arena.size, node n
  bottom : context .stackBottom
  question : ∀ f, node f → context (.question f)
  caller : ∀ f, context (.question f) → node f
  push : ∀ site head, node site → context head → context (.push site head w.bound)
  tail : ∀ site sites terminal, context ⟨site :: sites, terminal⟩ → context ⟨sites, terminal⟩
  entered : ∀ head c, c.Enters w head → calls head c
  widen : ∀ head f c, calls head c → calls (.question f) c

namespace Region

/-- All that is there. -/
def all (w : World) : Region w where
  node _ := True
  context _ := True
  calls _ _ := True
  inside _ _ := trivial
  bottom := trivial
  question _ _ := trivial
  caller _ _ := trivial
  push _ _ _ _ := trivial
  tail _ _ _ _ := trivial
  entered _ _ _ := trivial
  widen _ _ _ _ := trivial

lemma placed_all (w : World) (c : Config) : c.Placed (all w).node (all w).context :=
  ⟨fun _ _ => trivial, fun _ _ => trivial⟩

/-- What the rule of a query adds to its answer. -/
structure Answers {w : World} (R : Region w) (q : Query) (c : Config) : Prop where
  place  : c.Placed R.node R.context
  caller : q.kind = .callers → R.calls q.config.env.head c

variable {w : World} {R : Region w}

/-- The environments of a region go with all of its nodes. -/
def terrain (R : Region w) (hbuilt : w.program.Built) : Terrain w where
  built := hbuilt
  node := R.node
  fits _ env := env.All R.context
  near _ _ := True
  inside := R.inside
  root c hc := by
    cases List.mem_singleton.mp hc
    exact R.bottom
  outside c hc := by
    cases List.mem_singleton.mp hc
    exact R.bottom
  nested _ _ _ := trivial
  fit chain other env _ hother _ henv := henv.fit fun f hf => R.question f <| R.inside f <|
    Arena.lt_size_of_isFunction (hbuilt.forest.isFunction_of_mem_chain hother hf)
  enter f outer call env _ houter hcall henv := houter.cons (R.push call env.head hcall henv.head)
  leave f env _ henv := henv.dropInner 1
  unknown chain env index f outer henv hdrop := by
    have hmem : ∀ c ∈ Context.question f :: outer.toList, R.context c := fun c hc =>
      henv c (List.mem_of_mem_drop (hdrop ▸ hc))
    exact ⟨R.caller f (hmem _ (.head _)), fun c hc => hmem c (.tail _ hc)⟩
  refined chain env index f outer body env' henv _ hbody hreplace := henv.replace hbody.head hreplace
  tail chain body call sites terminal env hbody hhead henv :=
    henv.withHead (R.tail call sites terminal (hhead ▸ hbody.head))
  thrown _ _ _ _ _ _ _ _ _ _ _ henv := henv

section Places

variable {hbuilt : w.program.Built} {c : Config} {q : Query}

lemma spot_terrain : (R.terrain hbuilt).spot c ↔ c.Placed R.node R.context :=
  ⟨fun h => ⟨h.point, h.fits⟩, fun h => ⟨h.point, h.env⟩⟩

/-- The names of globals belong everywhere. -/
lemma at_of_global {n : NodeId} (h : w.IsGlobal n) : (R.terrain hbuilt).At n .root :=
  ⟨(R.terrain hbuilt).node_of_global h, (R.terrain hbuilt).root⟩

lemma placed_of_place (h : (R.terrain hbuilt).place c) : c.Placed R.node R.context := by
  obtain h | ⟨n, hglobal, rfl⟩ := h
  · exact spot_terrain.mp h
  · exact spot_terrain.mp ((R.terrain hbuilt).spot_ofNode.mpr (at_of_global hglobal))

lemma placed_of_origin (h : (R.terrain hbuilt).origin c) : c.Placed R.node R.context := by
  obtain h | ⟨n, position, hglobal, rfl⟩ := h
  · exact placed_of_place h
  · exact spot_terrain.mp ((R.terrain hbuilt).spot_pick.mpr (at_of_global hglobal))

lemma placed_of_asked (h : (R.terrain hbuilt).Asked q) : q.config.Placed R.node R.context := by
  obtain ⟨kind, config⟩ := q
  cases kind with
  | evaluate => exact placed_of_origin h
  | traced => exact placed_of_place h
  | callers => exact ⟨h.point, h.fits⟩
  | applied | bind | entered => exact spot_terrain.mp h

lemma posed_of_placed (h : q.config.Placed R.node R.context) : (R.terrain hbuilt).Posed q := by
  obtain ⟨kind, config⟩ := q
  cases kind with
  | evaluate => exact Terrain.origin_of_spot (spot_terrain.mpr h)
  | traced => exact ⟨spot_terrain.mpr h, fun _ _ _ _ _ _ _ _ _ _ _ => trivial⟩
  | callers => exact ⟨h.point, h.env⟩
  | applied | bind | entered => exact spot_terrain.mpr h

lemma found_of_placed (q : Query) (h : c.Placed R.node R.context) :
    (R.terrain hbuilt).Found q c := by
  obtain ⟨kind, config⟩ := q
  cases kind with
  | evaluate => exact .inl (spot_terrain.mpr h)
  | bind => exact Terrain.origin_of_spot (spot_terrain.mpr h)
  | traced | applied | callers => exact spot_terrain.mpr h
  | entered => exact fun _ _ => h.env

lemma placed_of_found (hrule : q.kind ≠ .entered) (h : (R.terrain hbuilt).Found q c) :
    c.Placed R.node R.context := by
  obtain ⟨kind, config⟩ := q
  cases kind with
  | evaluate => exact placed_of_place h
  | bind => exact placed_of_origin h
  | traced | applied | callers => exact spot_terrain.mp h
  | entered => exact absurd rfl hrule

end Places

/-- All questions are about places, all answers are what the rules add, and
nothing fails but for a missing declaration or an ambiguous builtin. -/
def law (R : Region w) : Law Query ConfigSet AnalysisError Env :=
  .ofMembers (fun q => q.config.Placed R.node R.context) R.Answers
    (fun e => (∃ line label, e = .missingDeclaration line label) ∨
      ¬ ∀ shape, (w.catalogue.lookup shape).length ≤ 1)
    fun env => env.All R.context

/-- What may be asked and told. -/
def Allows (R : Region w) : Call Query ConfigSet → Prop
  | .ask q => q.config.Placed R.node R.context
  | .tell q facts => q.config.Placed R.node R.context ∧ ∀ c ∈ facts, R.Answers q c

lemma answers_of_enter {f call : NodeId} {outer env : Env} {caller : Cursor}
    (houter : (Config.ofNode f outer).Placed R.node R.context)
    (hcaller : (⟨caller, env⟩ : Config).Placed R.node R.context)
    (hcall : caller.call? = some call) :
    let body := outer.cons (.push call env.head w.bound)
    R.Answers ⟨.callers, .ofNode f body⟩ ⟨caller, env⟩ ∧
      R.Answers ⟨.entered, .ofNode f outer⟩ (.ofNode f body) := by
  intro body
  have hpush := R.push call env.head (hcaller.point call (Cursor.point?_of_call? hcall))
    hcaller.env.head
  refine ⟨⟨hcaller, fun _ => R.entered _ _ ⟨call, hcall, fun _ => ?_⟩⟩, ⟨?_, nofun⟩⟩
  · exact Context.refines_refl _
  · exact ⟨houter.point, houter.env.cons hpush⟩

def scheme (R : Region w) (hbuilt : w.program.Built) : Scheme w where
  toTerrain := R.terrain hbuilt
  law := R.law
  value _ := True
  immediate _ _ := trivial
  asks _ h _ := placed_of_asked h
  reads q set hset c hc := ⟨found_of_placed q (hset c hc).place, fun _ => trivial⟩
  names _ _ h := h
  enters f outer caller call env _ houter hcall hcaller := by
    obtain ⟨hcallers, hentered⟩ := answers_of_enter (spot_terrain.mp (Terrain.spot_ofNode.mpr houter))
      (spot_terrain.mp ((Terrain.spot_of_call? hcaller).mpr hcall)) hcaller
    refine ⟨fun c hc => ?_, fun c hc => ?_⟩
    · cases PowerSet.mem_singleton.mp hc
      exact hcallers
    · cases PowerSet.mem_singleton.mp hc
      exact hentered
  missing _ _ := .inr fun line label => .inl ⟨line, label, rfl⟩
  ambiguous := by
    by_cases h : ∀ shape, (w.catalogue.lookup shape).length ≤ 1
    · exact .inl h
    · exact .inr fun _ => .inr h

lemma Answers.of_refines {facts : Query → Config → Prop} {kind : QueryKind}
    {config refined c : Config} (hrefines : config.Refines facts refined)
    (h : R.Answers ⟨kind, refined⟩ c) : R.Answers ⟨kind, config⟩ c := by
  refine ⟨h.place, fun hkind => ?_⟩
  have hcaller := h.caller hkind
  obtain ⟨index, function, outer, fact, env, hdrop, -, -, hreplace, rfl⟩ := hrefines
  cases index with
  | zero =>
    -- the context of an unknown caller accepts every call
    have hhead : config.env.head = .question function := (List.cons.inj hdrop).1
    exact hhead ▸ R.widen _ function c hcaller
  | succ index =>
    -- the head is not the context that is replaced
    have hhead : env.head = config.env.head :=
      (List.cons.inj (Env.replace?_eq_some_iff.mp hreplace).2).1
    exact hhead ▸ hcaller

/-- The right-hand side of a query in the region stays in the region. -/
lemma keeps_equation (hbuilt : w.program.Built) {q : Query} (hq : R.law.query q) :
    (w.equation q).Keeps R.law (R.law.held q) := by
  have hposed : (R.scheme hbuilt).Posed q := posed_of_placed hq
  have hsolve : Rule.Keeps (R.scheme hbuilt) (Rule.solve w.depthLimit q)
      (ConfigSet.All (R.Answers q)) := by
    refine Rule.keeps_solve hq (Terrain.asked_of_posed hposed) (fun hanswerable => ?_)
      fun c hc set hset d hd => (hset d hd).of_refines hc
    refine (Rule.keeps_answer hposed hanswerable).imp fun _ hset => hset.imp fun c hc => ?_
    exact ⟨placed_of_found hc.rule hc.found, fun hkind => R.entered _ _ (hc.caller hkind)⟩
  exact hsolve []

/-- **A session stays within a region.** If all that was asked and told is
within it, so are all queries of the table and all that is held there, at every
moment. -/
theorem kept_of_trail (hbuilt : w.program.Built) {calls : List (Call Query ConfigSet)}
    {m : Moment Query ConfigSet AnalysisError Diagnostic Env}
    (h : Trail w.equation (resting .empty) calls m) (hcalls : ∀ call ∈ calls, R.Allows call) :
    m.solver.Kept R.law :=
  Solver.kept_of_trail h (fun _ hq _ => R.keeps_equation hbuilt hq) (fun _ _ hset _ => hset)
    (fun _ hq => hcalls _ hq) fun _ _ hv => hcalls _ hv

lemma allows_all (call : Call Query ConfigSet) : (all w).Allows call := by
  cases call with
  | ask q => exact placed_all w q.config
  | tell q facts => exact ⟨placed_all w q.config, fun c _ => ⟨placed_all w c, fun _ => trivial⟩⟩

end Region

/-! ## The nodes of the program -/

/-- The call sites of the context and the function it may stand for are nodes of
the program. -/
def Context.Inside (p : Program) (c : Context) : Prop :=
  (∀ site ∈ c.sites, site < p.arena.size) ∧ ∀ f, c.terminal = .question f → f < p.arena.size

def Config.Inside (p : Program) : Config → Prop :=
  Config.Placed (· < p.arena.size) (Context.Inside p)

def Call.Inside (p : Program) : Call Query ConfigSet → Prop
  | .ask q => q.config.Inside p
  | .tell q facts => q.config.Inside p ∧ ∀ c ∈ facts, c.Inside p

lemma Context.Inside.push {p : Program} {site : NodeId} {head : Context}
    (hsite : site < p.arena.size) (h : head.Inside p) (bound : Nat) :
    (Context.push site head bound).Inside p := by
  have hsites : ∀ s ∈ site :: head.sites, s < p.arena.size := List.forall_mem_cons.mpr ⟨hsite, h.1⟩
  unfold Context.push Context.frame Context.truncate
  split
  · exact ⟨hsites, h.2⟩
  · exact ⟨fun s hs => hsites s (List.mem_of_mem_take hs), nofun⟩

namespace Region

def nodes (w : World) : Region w where
  node n := n < w.program.arena.size
  context := Context.Inside w.program
  calls _ _ := True
  inside _ h := h
  bottom := ⟨(fun _ h => nomatch h), nofun⟩
  question f hf := by
    refine ⟨(fun _ h => nomatch h), ?_⟩
    rintro _ ⟨⟩
    exact hf
  caller f h := h.2 f rfl
  push site head hsite h := h.push hsite w.bound
  tail site sites terminal h := ⟨fun s hs => h.1 s (.tail _ hs), h.2⟩
  entered _ _ _ := trivial
  widen _ _ _ _ := trivial

lemma allows_nodes {w : World} {call : Call Query ConfigSet} (h : call.Inside w.program) :
    (nodes w).Allows call := by
  cases call with
  | ask q => exact h
  | tell q facts => exact ⟨h.1, fun c hc => ⟨h.2 c hc, fun _ => trivial⟩⟩

end Region

namespace Session

variable {w : World} {calls : List (Call Query ConfigSet)} {s : Session}

/-- Asking fails if the table then has a failure. -/
lemma Run.error_iff (h : Run w calls s) {q : Query} {result : Except AnalysisError ConfigSet}
    {t : Session} (hsolve : s.solve q = some (result, t)) :
    ∃ i c, t.solver.queries.get? i = some q ∧ t.solver.cells[i]? = some c ∧
      ∀ e, result = .error e ↔ c.failure = some e := by
  obtain ⟨hrun, -, ⟨i, hi⟩, rfl⟩ := h.solve hsolve
  obtain ⟨c, hc⟩ := hrun.sane.1.exists_cell hi
  rw [Solver.answer_eq hrun.sane.1 hi]
  exact ⟨i, c, hi, hc, fun e => Solver.current_eq_error_iff hc⟩

/-! ## Failing questions -/

/-- The origins of a name without declaration are never found. -/
lemma failure_of_undeclared {q : Query} (h : Solver.Sane w.equation (resting s.solver))
    (hempty : s.solver.worklist.toList = []) (htouched : s.solver.Touched q) (hkind : q.kind = .bind)
    {n : NodeId} (hn : q.config.node? = some n) (hsymbol : w.program.scopes.symbolAt n = none) :
    s.solver.failure q ≠ none := by
  intro hok
  have hcached := Solver.cached_of_touched h.1 htouched
  obtain ⟨es, v, hrun, -⟩ := Solver.replay_of_sane h hempty hcached hok
  have hsolve : Rule.Comes (fun _ => True) ⟨w, []⟩ (Rule.solve w.depthLimit q) v :=
    ⟨es, hrun, fun _ _ => trivial⟩
  obtain ⟨own, hown, -⟩ := hsolve.bind
  rw [hkind] at hown
  change Rule.Comes _ _ (Rule.bind _ q.config) own at hown
  unfold Rule.bind at hown
  simp only [hn, Rule.comes_bind_scopes, hsymbol] at hown
  exact Rule.not_comes_missingDeclaration n own hown

/-- **A question fails exactly if it asks for the origins of a name without
declaration.** Whatever a session was asked and told before, with a catalogue
that has every builtin once, there is no other fatal error; and as long as no
call from outside refers to a node that the program does not have, none is ever
referred to. -/
theorem error_iff_undeclared {sources : Sources} {p : Program}
    (hbuild    : Program.build sources = .ok p) {entries : List Entry}
    (hdistinct : (entries.map (·.shape)).Nodup) {bound : Nat} {targets : List NodeId}
    (h         : Run ⟨p, .ofEntries entries, bound, targets⟩ calls s)
    {q : Query} {result : Except AnalysisError ConfigSet} {t : Session}
    (hsolve    : s.solve q = some (result, t)) :
    ((∃ e, result = .error e) ↔
        q.kind = .bind ∧ ∃ n, q.config.node? = some n ∧ p.scopes.symbolAt n = none) ∧
      (∀ e, result = .error e → ∃ line label, e = .missingDeclaration line label) ∧
      ((∀ call ∈ calls ++ [.ask q], call.Inside p) → ∀ r, t.solver.Touched r →
        r.config.Inside p ∧ ∀ c ∈ t.solver.assignment r, c.Inside p) := by
  have hunambiguous := Catalogue.length_lookup_le_one hdistinct
  have hbuilt := Program.built_of_build hbuild
  have hw : World.Sound ⟨p, .ofEntries entries, bound, targets⟩ := ⟨hbuilt, hunambiguous⟩
  obtain ⟨hrun, hempty, -⟩ := h.solve hsolve
  have hsane := hrun.sane
  obtain ⟨i, c, hi, hc, herror⟩ := h.error_iff hsolve
  have hfailure := Solver.failure_eq hsane.1 hi hc
  refine ⟨⟨?_, ?_⟩, fun e he => ?_, fun hinside r hr => ?_⟩
  · rintro ⟨e, he⟩
    -- an answerable query has not failed
    have hanswerable : ¬ q.Answerable ⟨p, .ofEntries entries, bound, targets⟩ := fun hanswerable => by
      have hnone : t.solver.failure q = none := hw.failure_eq_none hrun.trail hanswerable
      rw [hfailure, (herror e).mp he] at hnone
      exact nomatch hnone
    exact Query.not_answerable.mp hanswerable
  · rintro ⟨hkind, n, hn, hsymbol⟩
    have hne := failure_of_undeclared hsane hempty ⟨i, hi⟩ hkind hn hsymbol
    rw [hfailure] at hne
    obtain ⟨e, he⟩ := Option.ne_none_iff_exists'.mp hne
    exact ⟨e, (herror e).mpr he⟩
  · have hkept := Region.kept_of_trail hbuilt hrun.trail fun call _ => Region.allows_all call
    obtain ⟨-, -, hlaw⟩ := hkept i q c hi hc
    exact (hlaw e ((herror e).mp he)).resolve_right fun hnot => hnot hunambiguous
  · have hkept := Region.kept_of_trail hbuilt hrun.trail fun call hcall =>
      Region.allows_nodes (hinside call hcall)
    obtain ⟨j, hj⟩ := hr
    obtain ⟨d, hd⟩ := hsane.1.exists_cell hj
    obtain ⟨hplace, hheld, -⟩ := hkept j r d hj hd
    refine ⟨hplace, fun c hc => (hheld c ?_).place⟩
    rwa [Solver.assignment, Solver.cached_eq hsane.1 hj hd] at hc

/-- A pattern with a default that has no declaration. -/
def undeclaredDefault : Sources := [("main", "const [x = y] = [1];\nx;")]

theorem error_iff_undeclared_default :
    ∃ p s t line label, Program.build undeclaredDefault = .ok p ∧
      (Standard.entries.map (·.shape)).Nodup ∧ p.scopes.symbolAt 1 = none ∧
      Run ⟨p, .ofEntries Standard.entries, 1, []⟩ [.ask ⟨.evaluate, .ofNode 8 .root⟩] s ∧
      s.solve ⟨.bind, .ofNode 1 .root⟩ = some (.error (.missingDeclaration line label), t) ∧
      ∀ r, t.solver.Touched r → r.config.Inside p ∧ ∀ c ∈ t.solver.assignment r, c.Inside p := by
  obtain ⟨p, hbuild, hsymbol, hsize, ⟨first, s⟩, hfirst, hsome⟩ :=
    Program.exists_of_test undeclaredDefault (fun p =>
      p.scopes.symbolAt 1 = none ∧ 8 < p.arena.size ∧
      ∃ a ∈ (start ⟨p, .standard, 1, []⟩).solve ⟨.evaluate, .ofNode 8 .root⟩,
        (a.2.solve ⟨.bind, .ofNode 1 .root⟩).isSome = true) (by decide +kernel)
  obtain ⟨⟨result, t⟩, hsolve⟩ := Option.isSome_iff_exists.mp hsome
  have hreached : Run ⟨p, .ofEntries Standard.entries, 1, []⟩ _ s :=
    ((Run.start _).solve hfirst).1
  obtain ⟨hiff, herror, hinside⟩ :=
    error_iff_undeclared hbuild Catalogue.nodup_shape_standard hreached hsolve
  obtain ⟨e, rfl⟩ := hiff.mpr ⟨rfl, 1, rfl, hsymbol⟩
  obtain ⟨line, label, rfl⟩ := herror e rfl
  have hnode : ∀ n ≤ 8, (Config.ofNode n .root).Inside p := by
    refine fun n hn => ⟨fun m hm => ?_, fun c hc => ?_⟩
    · cases hm
      exact Nat.lt_of_le_of_lt hn hsize
    · cases List.mem_singleton.mp hc
      exact (Region.nodes ⟨p, .standard, 1, []⟩).bottom
  refine ⟨p, s, t, line, label, hbuild, Catalogue.nodup_shape_standard, hsymbol, hreached, hsolve,
    hinside fun call hcall => ?_⟩
  obtain rfl | rfl : call = .ask ⟨.evaluate, .ofNode 8 .root⟩ ∨ call = .ask ⟨.bind, .ofNode 1 .root⟩ := by
    simpa using hcall
  · exact hnode 8 (by decide)
  · exact hnode 1 (by decide)

end Session

end ValueFlow
