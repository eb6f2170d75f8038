import ValueFlow.Proofs.Flow.Settled

/-!
# Calls in context

What a settled session knows about a call that it has evaluated: who is called,
what is returned and what is passed.
-/

namespace ValueFlow

namespace Rule

variable {P : Request → Prop} {s : Setting} {call f callee : NodeId} {env bodyEnv : Env}
  {set : ConfigSet} {arguments : List NodeId} {i : Nat} {perform : Meaning}

/-! ## Entering a function -/

lemma Comes.enter {function : Config} (h : Comes P s (enter function call env) bodyEnv) :
    bodyEnv = function.env.cons (.push call env.head s.world.bound) := by
  unfold Rule.enter at h
  rw [comes_bind_world] at h
  exact h.known.symm

lemma Comes.enterFrom {outer : Env} {caller : Cursor}
    (h : Comes P s (enterFrom (.ofNode f outer) caller call env) bodyEnv) :
    bodyEnv = outer.cons (.push call env.head s.world.bound) ∧
      P (.push ⟨.callers, .ofNode f bodyEnv⟩ (.singleton ⟨caller, env⟩)) ∧
      P (.push ⟨.entered, .ofNode f outer⟩ (.ofNode f bodyEnv)) := by
  obtain ⟨entered, henter, h⟩ := h.bind
  obtain ⟨_, hcallers, h⟩ := h.bind
  obtain ⟨_, hentered, h⟩ := h.bind
  cases h.pure
  exact ⟨henter.enter, hcallers.tell, hentered.tell⟩

lemma Comes.returns {r : NodeId} (h : Comes P s (returns f bodyEnv) set)
    (hr : r ∈ s.world.arena.returnedValues f) :
    ∃ part, P (.read ⟨.evaluate, .ofNode r bodyEnv⟩ part) ∧ ∀ c ∈ part, c ∈ set := by
  unfold Rule.returns at h
  rw [comes_bind_arena] at h
  obtain ⟨part, hpart, hsub⟩ := h.unionOf hr
  exact ⟨part, hpart.ask, hsub⟩

lemma Comes.exists_of_mem_returns (h : Comes P s (Rule.returns f bodyEnv) set) {c : Config}
    (hc : c ∈ set) : ∃ r ∈ s.world.arena.returnedValues f, ∃ part,
      P (.read ⟨.evaluate, .ofNode r bodyEnv⟩ part) ∧ c ∈ part := by
  unfold Rule.returns at h
  rw [comes_bind_arena] at h
  obtain ⟨r, hr, part, hpart, hc⟩ := h.exists_of_mem_unionOf hc
  exact ⟨r, hr, part, hpart.ask, hc⟩

/-- Calling a function records the call, and results in what the function
returns unless it is `async`. -/
lemma Comes.apply {outer : Env} (h : Comes P s (apply (.ofNode f outer) call env) set) :
    let bodyEnv := outer.cons (.push call env.head s.world.bound)
    P (.push ⟨.callers, .ofNode f bodyEnv⟩ (.ofNode call env)) ∧
      P (.push ⟨.entered, .ofNode f outer⟩ (.ofNode f bodyEnv)) ∧
      (¬ (s.world.arena.form f).flags?.any (·.isAsync) → Comes P s (Rule.returns f bodyEnv) set) := by
  intro bodyEnv
  obtain ⟨entered, henter, h⟩ := Comes.bind h
  obtain ⟨rfl, hcallers, hentered⟩ := henter.enterFrom
  refine ⟨hcallers, hentered, fun hasync => ?_⟩
  obtain ⟨async, hflag, h⟩ := h.bind
  unfold isAsync at hflag
  rw [comes_bind_formOf] at hflag
  cases hflag.pure
  rw [if_neg hasync] at h
  obtain ⟨again, hagain, h⟩ := h.bind
  cases hagain.enter
  exact h

lemma Comes.callValues (h : Comes P s (callValues perform call callee env) set) :
    ∃ targets, Comes P s (perform (.targets callee env)) targets ∧
      ∀ f outer, .function (.ofNode f outer) ∈ targets →
        ∃ part, Comes P s (Rule.apply (.ofNode f outer) call env) part ∧ ∀ c ∈ part, c ∈ set := by
  obtain ⟨targets, htargets, h⟩ := h.bind
  exact ⟨targets, htargets, fun f outer hf => h.unionOf hf⟩

/-! ## Passing an argument -/

lemma Comes.scopeEnv {scope : NodeId} {found : Env} (h : Comes P s (scopeEnv scope env) found) :
    found = env.fit (s.world.arena.functionsWithin scope) := by
  unfold Rule.scopeEnv at h
  rw [comes_bind_arena] at h
  exact h.known.symm

lemma run_argumentOriginsFrom_of_plain {position : Nat} {argument : NodeId} {rest : List NodeId}
    {offset : Nat} {behind : Bool} (hform : (s.world.arena.form argument).isSpread = false) :
    argumentOriginsFrom env position offset behind (argument :: rest) s =
      (if behind then do
        return (← argumentOriginsFrom env position (offset + 1) true rest).insert
          (.ofNode argument env)
      else if offset = position then return .ofNode argument env
      else argumentOriginsFrom env position (offset + 1) false rest : Rule ConfigSet) s := by
  rw [argumentOriginsFrom, run_formOf]
  generalize s.world.arena.form argument = form at hform ⊢
  cases form with
  | spread inner => cases hform
  | _ => rfl

/-- Up to the first spread a position has one origin, the argument there. -/
lemma argumentOriginsFrom_before_spread (env : Env) (offset : Nat) {n : NodeId}
    (hplain : ∀ x ∈ arguments.take (i + 1), (s.world.arena.form x).isSpread = false)
    (hn : arguments[i]? = some n) :
    argumentOriginsFrom env (offset + i) offset false arguments s =
      .done (.ofNode n env) := by
  induction arguments generalizing offset i with
  | nil => cases hn
  | cons argument rest ih =>
    rw [run_argumentOriginsFrom_of_plain (hplain argument (.head _)), if_neg Bool.false_ne_true]
    cases i with
    | zero =>
      cases hn
      rw [if_pos (Nat.add_zero offset).symm]
      rfl
    | succ i =>
      have hshift : offset + (i + 1) = offset + 1 + i := by omega
      rw [if_neg (by omega), hshift]
      exact ih (offset + 1) (fun x hx => hplain x (.tail _ hx)) hn

lemma run_argumentsOf
    (hcall : (s.world.arena.form call).callParts? = some (callee, arguments)) :
    argumentsOf call s = .done arguments := by
  unfold argumentsOf
  rw [run_formOf, hcall]
  rfl

lemma Comes.argumentOrigins {a : NodeId} {optional : Bool}
    (h : Comes P s (argumentOrigins call i env) set)
    (hcall : s.world.arena.form call = .call callee arguments optional)
    (hplain : ∀ x ∈ arguments, (s.world.arena.form x).isSpread = false)
    (ha : arguments[i]? = some a) : .ofNode a env ∈ set := by
  have hparts : (s.world.arena.form call).callParts? = some (callee, arguments) := by
    rw [hcall]
    rfl
  have hrun : Rule.argumentOrigins call i env s = .done (.ofNode a env) := by
    have hexact := argumentOriginsFrom_before_spread env 0
      (fun x hx => hplain x (List.mem_of_mem_take hx)) ha
    rw [Nat.zero_add] at hexact
    exact (run_then (run_argumentsOf hparts)).trans hexact
  rw [← h.done hrun]
  exact PowerSet.mem_singleton.mpr rfl

def passedBy (call : NodeId) (i : Nat) (isRest : Bool) (env : Env) : Rule ConfigSet :=
  if isRest then pure (.singleton ⟨.arguments call i, env⟩) else argumentOrigins call i env

/-- Every caller on record adds what it passes. -/
lemma Comes.paramOrigins {isRest : Bool} (h : Comes P s (paramOrigins perform f i isRest env) set)
    (hf : f ∉ s.world.targets) (hfit : env.fit (s.world.arena.functionsWithin f) = env) :
    ∃ callers, P (.read ⟨.callers, .ofNode f env⟩ callers) ∧
      ∀ call env', .ofNode call env' ∈ callers → ∃ part,
        Comes P s (passedBy call i isRest env') part ∧ ∀ c ∈ part, c ∈ set := by
  obtain ⟨target, htarget, h⟩ := h.bind
  unfold isTarget at htarget
  rw [comes_bind_world] at htarget
  cases htarget.pure
  rw [if_neg (by simpa using hf)] at h
  obtain ⟨bodyEnv, hbody, h⟩ := h.bind
  cases hbody.scopeEnv.trans hfit
  obtain ⟨callers, hcallers, h⟩ := h.bind
  exact ⟨callers, hcallers.ask, fun call env' hcall => h.unionOver hcall⟩

end Rule

/-! ## Parameters -/

/-- The environment of a body has the contexts that the names of its function
need. -/
lemma Arena.Forest.fit_functionsWithin {a : Arena} (h : a.Forest) {f : NodeId}
    (hf : a.isFunction f = true) {env : Env} (hdepth : env.depth = a.depth f + 2) :
    env.fit (a.functionsWithin f) = env := by
  have hlength : (a.functionsWithin f).length + 1 = env.depth := by
    rw [Arena.functionsWithin, if_pos hf, List.length_cons, h.length_functionsAround, hdepth]
  simp [Env.fit, hlength, Env.dropInner]

namespace Session

variable {w : World} {asked : List Query} {s : Session}

lemma values_of_origin (hw : w.Sound) (h : Reached w asked s) {id : DeclId} {n : NodeId}
    (hn : n ∈ w.program.scopes.referencesOf id) {env : Env} {origin : Config}
    {found : ConfigSet} (hfound : s.Solved ⟨.evaluate, .ofNode n env⟩ found)
    (horigin : ∀ origins, s.Solved ⟨.bind, .ofNode n env⟩ origins → origin ∈ origins) :
    ∃ passed, s.Solved ⟨.evaluate, origin⟩ passed ∧ ∀ c ∈ passed, c ∈ found := by
  obtain ⟨⟨name, hform⟩, hsymbol⟩ : (∃ name, w.arena.form n = .identifier name) ∧
      w.program.scopes.symbolAt n = some id := by
    rw [hw.built.resolved] at hn ⊢
    exact Scopes.symbolAt_of_mem_referencesOf hn
  obtain ⟨own, hown, hsub⟩ := h.comes hw hfound
  change Rule.Comes s.Grants ⟨w, []⟩ (Rule.evaluateNode _ n env) own at hown
  unfold Rule.evaluateNode at hown
  rw [Rule.comes_bind_formOf, hform] at hown
  change Rule.Comes s.Grants ⟨w, []⟩ (Rule.nameValues n env) own at hown
  unfold Rule.nameValues at hown
  rw [Rule.comes_bind_scopes, if_pos (by rw [hsymbol]; rfl)] at hown
  obtain ⟨origins, horigins, hown⟩ := hown.bind
  obtain ⟨part, hpart, hvalues⟩ := hown.unionOver (horigin origins horigins.ask)
  exact ⟨part, hpart.ask, fun c hc => hsub c (hvalues c hc)⟩

section Parameter

variable {f b root : NodeId} {name : Option NodeId} {params : List NodeId} {body : NodeId}
  {flags : FunctionFlags} {i : Nat} {isRest : Bool}

/-- The origins of a variable that is a whole parameter are what its callers pass. -/
lemma comes_bindingOrigins_of_parameter (hforest : w.arena.Forest)
    (hf : w.arena.form f = .function name params body flags)
    (hi : params[i]? = some root) (hroot : w.arena.patternRoot b = (root, []))
    (hrest : (w.arena.form root matches .rest _) = isRest)
    {P : Rule.Request → Prop} {visiting : List Visit} {perform : Meaning} {env : Env}
    {set : ConfigSet}
    (h : Rule.Comes P ⟨w, visiting⟩ (Rule.bindingOrigins perform b env) set) :
    Rule.Comes P ⟨w, visiting⟩ (Rule.paramOrigins perform f i isRest env) set := by
  have hmem := List.mem_of_getElem? hi
  unfold Rule.bindingOrigins at h
  rw [Rule.comes_bind_arena] at h
  dsimp only at h
  rw [hroot, Arena.parent_of_parameter hforest hf hmem] at h
  obtain ⟨origins, horigins, h⟩ := h.bind
  -- a whole parameter needs no steps into a pattern
  cases h.pure
  unfold Rule.rootOrigins at horigins
  rw [Rule.comes_bind_formOf, hf] at horigins
  dsimp only at horigins
  rw [if_neg (Arena.name_ne_of_parameter hforest hf hmem),
    Arena.findIdx?_of_parameter hforest hf hi] at horigins
  dsimp only at horigins
  rw [Rule.comes_bind_formOf] at horigins
  rw [← hrest]
  exact horigins

variable (hw : w.Sound) (h : Reached w asked s)
  (hf : w.arena.form f = .function name params body flags)
  (hi : params[i]? = some root) (hroot : w.arena.patternRoot b = (root, []))
  (hpart : w.arena.PatternPart root b)
  (hrest : (w.arena.form root matches .rest _) = isRest)
  {id : DeclId} {n : NodeId} (hid : (w.program.scopes.decl id).binding = b)
  (hn : n ∈ w.program.scopes.referencesOf id)
include hw h hf hi hroot hpart hrest hid hn

/-- A call on record passes its arguments to the parameter. -/
lemma passed_of_recorded {bodyEnv env : Env} {call : NodeId} (htarget : f ∉ w.targets)
    (hdepth : bodyEnv.depth = w.arena.depth f + 2) {callers origins : ConfigSet}
    (hcallers : s.Solved ⟨.callers, .ofNode f bodyEnv⟩ callers)
    (hrecorded : .ofNode call env ∈ callers)
    (horigins : s.Solved ⟨.bind, .ofNode n bodyEnv⟩ origins) :
    ∃ part, Rule.Comes s.Grants ⟨w, []⟩ (Rule.passedBy call i isRest env) part ∧
      ∀ c ∈ part, c ∈ origins := by
  have hforest : w.arena.Forest := hw.built.parsed.forest
  have hsymbol : w.program.scopes.symbolAt n = some id := by
    rw [hw.built.resolved] at hn ⊢
    exact (Scopes.symbolAt_of_mem_referencesOf hn).2
  have hscope : (w.program.scopes.decl id).scope = f := by
    obtain ⟨m, hm⟩ := hw.built.exists_introduction (hw.built.lt_of_symbolAt hsymbol)
    rw [hid] at hm
    exact Arena.owner_of_part hforest hf (List.mem_of_getElem? hi) hw.built.parsed.tidy hpart hm
  have hfit := hforest.fit_functionsWithin (by rw [Arena.isFunction, hf]; rfl) hdepth
  obtain ⟨own, hown, hsub⟩ := h.comes hw horigins
  -- the variable is declared by the parameter, in the environment of the body
  change Rule.Comes s.Grants ⟨w, []⟩ (Rule.bind _ (.ofNode n bodyEnv)) own at hown
  unfold Rule.bind at hown
  dsimp only [Config.node?, Config.ofNode, Cursor.node?] at hown
  rw [Rule.comes_bind_scopes] at hown
  dsimp only at hown
  rw [hsymbol] at hown
  obtain ⟨declEnv, hdecl, hown⟩ := hown.bind
  have hsame := hdecl.scopeEnv
  rw [hscope] at hsame
  cases hsame.trans hfit
  obtain ⟨start, hstart, hown⟩ := hown.bind
  obtain ⟨stored, -, hown⟩ := hown.bind
  cases hown.pure
  rw [hid] at hstart
  obtain ⟨read, hread, hpassed⟩ :=
    (comes_bindingOrigins_of_parameter hforest hf hi hroot hrest hstart).paramOrigins htarget hfit
  cases hcallers.unique hread
  obtain ⟨part, hcomes, hstarted⟩ := hpassed call env hrecorded
  exact ⟨part, hcomes, fun c hc => hsub c (PowerSet.mem_union.mpr (.inl (hstarted c hc)))⟩

end Parameter

/-! ## The whole -/

/-- What a session knows about a call with the values `result` that invokes the
function `f`, created under `outer`, whose body then runs under `bodyEnv`. -/
structure EntersInContext (s : Session) (call : NodeId) (arguments : List NodeId) (env : Env)
    (result : ConfigSet) (f : NodeId) (outer bodyEnv : Env) : Prop where
  recorded : ∃ callers, s.Solved ⟨.callers, .ofNode f bodyEnv⟩ callers ∧ .ofNode call env ∈ callers
  entered  : ∃ entries, s.Solved ⟨.entered, .ofNode f outer⟩ entries ∧ .ofNode f bodyEnv ∈ entries
  /-- What the function returns is a result of the call. -/
  returned : ¬ (s.world.program.arena.form f).flags?.any (·.isAsync) →
    ∀ r ∈ s.world.program.arena.returnedValues f,
      ∃ values, s.Solved ⟨.evaluate, .ofNode r bodyEnv⟩ values ∧ ∀ c ∈ values, c ∈ result
  /-- What is passed to a plain parameter is a value of each of its references. -/
  passed : ∀ {name params body flags} {i : Nat} {b bound a id n} {given found : ConfigSet},
    s.world.program.arena.form f = .function name params body flags →
    params[i]? = some b → s.world.program.arena.form b = .binding bound →
    (s.world.program.scopes.decl id).binding = b →
    arguments[i]? = some a →
    (∀ x ∈ arguments, (s.world.program.arena.form x).isSpread = false) →
    n ∈ s.world.program.scopes.referencesOf id →
    s.Solved ⟨.evaluate, .ofNode a env⟩ given →
    s.Solved ⟨.evaluate, .ofNode n bodyEnv⟩ found → ∀ c ∈ given, c ∈ found

/-- The calls of one function that a solved call invokes. -/
lemma entersInContext_of_apply (hw : w.Sound) (h : Reached w asked s)
    {call callee f : NodeId} {arguments : List NodeId} {optional : Bool} {env outer : Env}
    {part result : ConfigSet}
    (hform : w.arena.form call = .call callee arguments optional)
    (happly : Rule.Comes s.Grants ⟨w, []⟩ (Rule.apply (.ofNode f outer) call env) part)
    (hpart : ∀ c ∈ part, c ∈ result) (hdepth : outer.depth = w.arena.depth f + 1)
    (htarget : f ∉ w.targets) :
    s.EntersInContext call arguments env result f outer
      (outer.cons (.push call env.head w.bound)) := by
  obtain ⟨hcallers, hentered, hreturns⟩ := happly.apply
  obtain ⟨callers, hsolved, hrecorded⟩ := hcallers nofun
  obtain ⟨entries, hentries, hmem⟩ := hentered nofun
  have hcall := hrecorded _ (PowerSet.mem_singleton.mpr rfl)
  refine ⟨⟨callers, hsolved, hcall⟩, ⟨entries, hentries, hmem _ (PowerSet.mem_singleton.mpr rfl)⟩,
    ?_, ?_⟩
  · rw [h.world_eq]
    intro hasync r hr
    obtain ⟨values, hvalues, hsub⟩ := (hreturns hasync).returns hr
    exact ⟨values, hvalues, fun c hc => hpart c (hsub c hc)⟩
  · rw [h.world_eq]
    intro name params body flags i b bound a id n given found hf hi hb hid ha hplain hn hgiven
      hfound
    have hbody : (outer.cons (.push call env.head w.bound)).depth =
        w.arena.depth f + 2 :=
      congrArg (· + 1) hdepth
    have hmem := List.mem_of_getElem? hi
    obtain ⟨values, hvalues, hsub⟩ := values_of_origin hw h hn hfound fun origins horigins => by
      obtain ⟨part, hcomes, hsub⟩ := passed_of_recorded hw h hf hi
        (Arena.patternRoot_of_parameter hw.built.parsed.forest hf hmem) .self
        (show _ = false by rw [hb]) hid hn htarget hbody hsolved hcall horigins
      exact hsub _ (Rule.Comes.argumentOrigins hcomes hform hplain ha)
    cases hgiven.unique hvalues
    exact hsub

/-- **Calls are sound in their context.** Once a session has evaluated a call,
every function that the callee may invoke, and that is no target, is entered
from it: the call is on record, its results include what the function returns
under the context of the call, and its arguments reach the parameters there. -/
theorem call_sound_in_context {sources : Sources} {p : Program}
    (hbuild : Program.build sources = .ok p) {bound : Nat} {targets : List NodeId}
    (h      : Reached ⟨p, .standard, bound, targets⟩ asked s)
    {call callee : NodeId} {arguments : List NodeId} {optional : Bool} {env : Env}
    (hform  : p.arena.form call = .call callee arguments optional)
    (hasked : ⟨.evaluate, .ofNode call env⟩ ∈ asked) :
    ∃ result found, s.Solved ⟨.evaluate, .ofNode call env⟩ result ∧
      s.result (Rule.meaning s.world.depthLimit (.targets callee env)) = some found ∧
      ∀ f outer, .function (.ofNode f outer) ∈ found → outer.depth = p.arena.depth f + 1 →
        f ∉ targets → s.EntersInContext call arguments env result f outer
          (outer.cons (.push call env.head bound)) := by
  have hw : World.Sound ⟨p, .standard, bound, targets⟩ := .of_build hbuild
  obtain ⟨result, hresult⟩ := h.exists_solved hw hasked nofun
  obtain ⟨own, hown, hsub⟩ := h.comes hw hresult
  change Rule.Comes s.Grants _ (Rule.evaluateNode _ call env) own at hown
  unfold Rule.evaluateNode at hown
  rw [Rule.comes_bind_formOf, hform] at hown
  obtain ⟨found, hfound, hcalls⟩ := hown.callValues
  refine ⟨result, found, hresult, h.result_eq hfound, fun f outer hf hdepth htarget => ?_⟩
  obtain ⟨part, happly, hpart⟩ := hcalls f outer hf
  exact entersInContext_of_apply hw h hform happly (fun c hc => hsub c (hpart c hc)) hdepth htarget

/-- Two calls of one function. The bodies they enter are told apart. -/
def identityCalls : Sources :=
  [("main", "function id(x) \x7b return x; \x7d\nconst one = id(1), two = id(2);")]

/-- The calls `id(2)` and `id(1)`, the argument `1`, and `x` in the body that
`id(1)` enters. -/
def identityQueries : List Query :=
  [⟨.evaluate, .ofNode 14 .root⟩, ⟨.evaluate, .ofNode 9 .root⟩, ⟨.evaluate, .ofNode 8 .root⟩,
    ⟨.evaluate, .ofNode 2 (Env.root.cons (.push 9 Env.root.head 1))⟩]

theorem call_sound_in_context_identity :
    ∃ p s result found given values, Program.build identityCalls = .ok p ∧
      Reached ⟨p, .standard, 1, []⟩ identityQueries s ∧
      p.arena.form 9 = .call 7 [8] false ∧
      s.Solved ⟨.evaluate, .ofNode 9 .root⟩ result ∧
      s.result (Rule.meaning s.world.depthLimit (.targets 7 .root)) = some found ∧
      .function (.ofNode 5 .root) ∈ found ∧
      s.EntersInContext 9 [8] .root result 5 .root (Env.root.cons (.push 9 Env.root.head 1)) ∧
      s.Solved ⟨.evaluate, .ofNode 8 .root⟩ given ∧
      s.Solved ⟨.evaluate, .ofNode 2 (Env.root.cons (.push 9 Env.root.head 1))⟩ values ∧
      ∀ c ∈ given, c ∈ values := by
  obtain ⟨p, s, hbuild, hw, hreached, hcall, hdepth, hf, hb, hid, hplain, hn, targets, htable,
      hmem⟩ :=
    exists_reached identityCalls 1 (fun _ => identityQueries) (fun p s =>
      p.arena.form 9 = .call 7 [8] false ∧ p.arena.depth 5 = 0 ∧
      p.arena.form 5 = .function (some 0) [1] 4 ⟨false, false, true, false⟩ ∧
      p.arena.form 1 = .binding 1 ∧ (p.scopes.decl 1).binding = 1 ∧
      (p.arena.form 8).isSpread = false ∧ 2 ∈ p.scopes.referencesOf 1 ∧
      ∃ found ∈ s.result (Rule.meaning s.world.depthLimit (.targets 7 .root)),
        .function (.ofNode 5 .root) ∈ found) (by decide +kernel)
  obtain ⟨given, hgiven⟩ := hreached.exists_solved (q := ⟨.evaluate, .ofNode 8 .root⟩) hw
    (by simp [identityQueries]) nofun
  obtain ⟨values, hvalues⟩ := hreached.exists_solved
    (q := ⟨.evaluate, .ofNode 2 (Env.root.cons (.push 9 Env.root.head 1))⟩) hw
    (by simp [identityQueries]) nofun
  have hasked : ⟨.evaluate, .ofNode 9 .root⟩ ∈ identityQueries := by simp [identityQueries]
  obtain ⟨result, found, hresult, hfound, hcalls⟩ :=
    call_sound_in_context hbuild hreached hcall hasked
  cases hfound.symm.trans htable
  have henters := hcalls 5 .root (hmem) (by rw [hdepth]; rfl) nofun
  refine ⟨p, s, result, targets, given, values, hbuild, hreached, hcall, hresult, htable,
    hmem, henters, hgiven, hvalues, ?_⟩
  have hworld := hreached.world_eq
  exact henters.passed (i := 0) (by rw [hworld]; exact hf) rfl (by rw [hworld]; exact hb)
    (by rw [hworld]; exact hid) rfl (by rw [hworld]; simpa using hplain)
    (by rw [hworld]; exact hn) hgiven hvalues

end Session

end ValueFlow
