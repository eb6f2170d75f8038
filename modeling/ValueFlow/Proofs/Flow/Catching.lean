import ValueFlow.Proofs.Flow.Calls
import ValueFlow.Proofs.Flow.Tracing

/-!
# Catching

The origins of a `catch` parameter are what the `try` block throws and what the functions
throw that it calls. Neither may look into functions that are only created there: they
throw when they are called.

The rule keeps to this by listing the nodes of the block, and of the body of a function,
without what is inside of nested functions. The body of an arrow function can be a function
itself, though. Then the list is that of the inner function, and its statements are taken
for those of the outer one (`catch_sees_uncalled`).
-/

namespace ValueFlow

/-- A fitted environment has a context for each function and one for the module. -/
lemma Env.depth_fit (functions : List NodeId) (env : Env) :
    (env.fit functions).depth = functions.length + 1 := by
  unfold Env.fit
  dsimp only
  rw [← Env.length_toList]
  have hpos : 0 < env.depth := Nat.succ_pos _
  split
  · rw [Env.toList_dropInner, List.length_drop, Env.length_toList]
    omega
  · rw [Env.toList_extend, List.length_append, Env.length_toList, List.length_map,
      List.length_take]
    omega

-- two functions below the module level, the innermost first
example : Env.root.fit [9, 4] = (Env.root.cons (.question 4)).cons (.question 9) := by
  decide +kernel

/-! ## Statements of a function -/

namespace Arena.Forest

variable {a : Arena} (h : a.Forest)
include h

/-- What is listed for a function, other than itself, is inside of it and of no further
function. -/
lemma around_of_listed {f d : NodeId} (hf : a.isFunction f = true)
    (hd : d ∈ a.localDescendants f) (hne : d ≠ f) : a.functionsAround d = a.functionsWithin f := by
  obtain rfl | hd := List.mem_cons.mp hd
  · exact absurd rfl hne
  · obtain ⟨c, hc, hd⟩ := List.mem_flatMap.mp hd
    rw [h.around_of_mem_localFrom hd, h.functionsAround_of_part hc]

/-- The statements that count for a function are in its body, or if that is a function,
in the body of the inner one. -/
lemma around_of_thrown_by {f body d value : NodeId} {name : Option NodeId}
    {params : List NodeId} {flags : FunctionFlags}
    (hform : a.form f = .function name params body flags) (hd : d ∈ a.localDescendants body)
    (hthrow : a.form d = .throwStmt value) :
    a.functionsAround d =
      if a.isFunction body then body :: f :: a.functionsAround f else f :: a.functionsAround f := by
  have hf : a.isFunction f = true := by
    rw [isFunction, hform]
    rfl
  have hbody : a.functionsAround body = f :: a.functionsAround f := by
    rw [h.functionsAround_of_part (n := f) (by simp [hform, Form.children]),
      functionsWithin_of_function hf]
  split
  · next hfunction =>
    have hne : d ≠ body := by
      rintro rfl
      rw [isFunction, hthrow] at hfunction
      cases hfunction
    rw [h.around_of_listed hfunction hd hne, functionsWithin_of_function hfunction, hbody]
  · next hplain => rw [h.around_of_mem_localDescendants (Bool.eq_false_iff.mpr hplain) hd, hbody]

lemma around_of_try_part {t block m : NodeId} {handler finalizer : Option NodeId}
    (htry : a.form t = .tryStmt block handler finalizer) (hm : m ∈ a.children t) :
    a.functionsAround m = a.functionsAround t := by
  have hplain : a.isFunction t = false := by
    rw [isFunction, htry]
    rfl
  rw [h.functionsAround_of_part hm, functionsWithin_of_not hplain]

end Arena.Forest

/-! ## The rule -/

namespace Rule

variable {P : Request → Prop} {s : Setting} {perform : Meaning} {env : Env} {set : ConfigSet}
  {c : Config} {clause : NodeId}

/-- A call throws what the functions it invokes throw. -/
lemma Comes.of_mem_thrownByCall {call callee : NodeId}
    (h : Comes P s (thrownByCall perform call callee env) set) (hc : c ∈ set) :
    ∃ invoked f outer name params body flags d value,
      Comes P s (perform (.targets callee env)) invoked ∧
      .function (.ofNode f outer) ∈ invoked ∧
      s.world.arena.form f = .function name params body flags ∧
      d ∈ s.world.arena.localDescendants body ∧
      s.world.arena.form d = .throwStmt value ∧
      c = .ofNode value (outer.cons (.push call env.head s.world.bound)) := by
  unfold Rule.thrownByCall at h
  rw [comes_bind_arena] at h
  obtain ⟨invoked, hinvoked, h⟩ := h.bind
  obtain ⟨target, htarget, part, hpart, hc⟩ := h.exists_of_mem_unionOf hc
  cases target with
  | builtin | external =>
    cases hpart.pure
    exact absurd hc (PowerSet.not_mem_empty c)
  | function function =>
    dsimp only at hpart
    split at hpart
    · next name params body flags hmap =>
      obtain ⟨f, hf, hform⟩ := Option.map_eq_some_iff.mp hmap
      obtain ⟨bodyEnv, hbody, hpart⟩ := hpart.bind
      cases hbody.enter
      cases hpart.pure
      obtain ⟨d, hd, hc⟩ := List.mem_filterMap.mp (PowerSet.mem_ofList.mp hc)
      rw [Config.eq_of_node? hf] at htarget
      cases hthrow : s.world.arena.form d with
      | throwStmt value =>
        rw [hthrow] at hc
        cases hc
        exact ⟨invoked, f, _, name, params, body, flags, d, value, hinvoked, htarget, hform, hd,
          hthrow, rfl⟩
      | _ =>
        rw [hthrow] at hc
        cases hc
    · cases hpart.pure
      exact absurd hc (PowerSet.not_mem_empty c)

/-- A `catch` clause sees anything from outside, what its block throws, and what the calls
in the block throw. -/
lemma Comes.of_mem_catchOrigins {t block : NodeId} {handler finalizer : Option NodeId}
    (hparent : s.world.arena.parent? clause = some t)
    (htry : s.world.arena.form t = .tryStmt block handler finalizer)
    (h : Comes P s (catchOrigins perform clause env) set) (hc : c ∈ set) :
    c ∈ ConfigSet.external ∨
      ∃ n ∈ s.world.arena.localDescendants block,
        (∃ value, s.world.arena.form n = .throwStmt value ∧ c = .ofNode value env) ∨
        ∃ callee arguments optional part,
          s.world.arena.form n = .call callee arguments optional ∧
          Comes P s (Rule.thrownByCall perform n callee env) part ∧ c ∈ part := by
  unfold Rule.catchOrigins at h
  rw [comes_bind_arena, hparent, Option.map_some, htry] at h
  obtain ⟨thrown, hthrown, h⟩ := h.bind
  cases h.pure
  obtain hc | hc := PowerSet.mem_union.mp hc
  · obtain ⟨n, hn, part, hpart, hc⟩ := hthrown.exists_of_mem_unionOf hc
    refine .inr ⟨n, hn, ?_⟩
    cases hform : s.world.arena.form n with
    | throwStmt value =>
      rw [hform] at hpart
      cases hpart.pure
      exact .inl ⟨value, rfl, PowerSet.mem_singleton.mp hc⟩
    | call callee arguments optional =>
      rw [hform] at hpart
      exact .inr ⟨callee, arguments, optional, part, rfl, hpart, hc⟩
    | _ =>
      rw [hform] at hpart
      cases hpart.pure
      exact absurd hc (PowerSet.not_mem_empty c)
  · exact .inl hc

/-- For every call in the block it is looked up what is called. -/
lemma Comes.targets_of_catchOrigins {t block call callee : NodeId}
    {handler finalizer : Option NodeId} {arguments : List NodeId} {optional : Bool}
    (hparent : s.world.arena.parent? clause = some t)
    (htry : s.world.arena.form t = .tryStmt block handler finalizer)
    (h : Comes P s (catchOrigins perform clause env) set)
    (hcall : call ∈ s.world.arena.localDescendants block)
    (hform : s.world.arena.form call = .call callee arguments optional) :
    ∃ invoked, Comes P s (perform (.targets callee env)) invoked := by
  unfold Rule.catchOrigins at h
  rw [comes_bind_arena, hparent, Option.map_some, htry] at h
  obtain ⟨thrown, hthrown, -⟩ := h.bind
  obtain ⟨part, hpart, -⟩ := hthrown.unionOf hcall
  rw [hform] at hpart
  change Comes P s (Rule.thrownByCall perform call callee env) part at hpart
  unfold Rule.thrownByCall at hpart
  rw [comes_bind_arena] at hpart
  obtain ⟨invoked, hinvoked, -⟩ := hpart.bind
  exact ⟨invoked, hinvoked⟩

def storedThrough (perform : Meaning) (reference : NodeId) (env : Env) : Rule ConfigSet := do
  mutationOrigins perform reference (← envAt reference env)

/-- The origins of a `catch` parameter that is a plain name are those of its clause, and
what is stored in it later. -/
lemma Comes.bind_catchParameter {w : World} (hbuilt : w.program.Built) {visiting : List Visit}
    {id : DeclId} {n b body : NodeId} (hn : w.program.scopes.symbolAt n = some id)
    (hid : (w.program.scopes.decl id).binding = b)
    (hclause : w.arena.form clause = .catchClause (some b) body)
    (h : Comes P ⟨w, visiting⟩ (Rule.bind perform (.ofNode n env)) set) :
    ∃ start,
      Comes P ⟨w, visiting⟩
        (Rule.catchOrigins perform clause (env.fit (w.arena.functionsAround clause))) start ∧
      ∀ c ∈ set, c ∈ start ∨ ∃ reference ∈ w.program.scopes.referencesOf id, ∃ stored,
        Comes P ⟨w, visiting⟩ (storedThrough perform reference
          (env.fit (w.arena.functionsAround clause))) stored ∧ c ∈ stored := by
  have hforest : w.arena.Forest := hbuilt.parsed.forest
  have hscope : (w.program.scopes.decl id).scope = clause := by
    obtain ⟨m, hm⟩ := hbuilt.exists_introduction (hbuilt.lt_of_symbolAt hn)
    rw [hid] at hm
    exact Arena.owner_of_catchParameter hforest hclause hbuilt.parsed.tidy hm
  have hplain : w.arena.isFunction clause = false := by
    rw [Arena.isFunction, hclause]
    rfl
  unfold Rule.bind at h
  dsimp only [Config.node?, Config.ofNode, Cursor.node?] at h
  rw [comes_bind_scopes] at h
  dsimp only at h
  rw [hn] at h
  obtain ⟨declEnv, hdecl, h⟩ := h.bind
  have hfit := hdecl.scopeEnv
  rw [hscope, Arena.functionsWithin_of_not hplain] at hfit
  cases hfit
  obtain ⟨start, hstart, h⟩ := h.bind
  obtain ⟨later, hlater, h⟩ := h.bind
  cases h.pure
  refine ⟨start, ?_, fun c hc => (PowerSet.mem_union.mp hc).imp_right fun hc =>
    hlater.exists_of_mem_unionOf hc⟩
  -- the parameter is the whole pattern, so no steps are followed
  rw [hid] at hstart
  unfold bindingOrigins at hstart
  rw [comes_bind_arena] at hstart
  dsimp only at hstart
  rw [Arena.patternRoot_of_catchParameter hforest hclause,
    Arena.parent_of_catchParameter hforest hclause] at hstart
  obtain ⟨origins, horigins, hstart⟩ := hstart.bind
  cases hstart.pure
  unfold rootOrigins at horigins
  rw [comes_bind_formOf, hclause] at horigins
  dsimp only at horigins
  rwa [if_pos rfl] at horigins

end Rule

/-! ## Sessions -/

lemma Query.answerable_of_symbolAt {w : World} {n : NodeId} {env : Env} {id : DeclId}
    (h : w.program.scopes.symbolAt n = some id) : Query.Answerable w ⟨.bind, .ofNode n env⟩ := by
  rintro - m ⟨⟩
  rw [h]
  rfl

namespace Session

variable {w : World} {asked : List Query} {s : Session}

/-- The call can have invoked the function, created under `outer`: it was among the targets
of the callee on some part of the final answers. -/
def Invoked (s : Session) (callee : NodeId) (env : Env) (f : NodeId) (outer : Env) : Prop :=
  ∃ invoked, Rule.Comes s.Once ⟨s.world, []⟩
    (Rule.meaning s.world.depthLimit (.targets callee env)) invoked ∧
    .function (.ofNode f outer) ∈ invoked

/-- What a callee may invoke on some part of the final answers it may invoke on all of them. -/
lemma Reached.mem_targets_of_once (h : Reached w asked s) {p : Config → Prop}
    {htabled : s.Tabled p} {depth : Nat}
    (hresolves : Rule.Resolves htabled.comparison (Rule.meaning depth) (Rule.meaning depth))
    {callee : NodeId} {env : Env} {target : Target} {invoked final : List Target}
    (hinvoked : Rule.Comes s.Once ⟨s.world, []⟩ (Rule.meaning depth (.targets callee env)) invoked)
    (hmem : target ∈ invoked)
    (hfinal : Rule.Comes s.Grants ⟨s.world, []⟩ (Rule.meaning depth (.targets callee env)) final) :
    target ∈ final := by
  obtain ⟨es, hrun, hes⟩ := hinvoked
  have hwithin := (hresolves.targets ⟨trivial, trivial⟩ [] final hfinal).2
  refine (hwithin.of_run hrun fun q set he => PowerSet.le_iff.mpr fun c hc => ?_).subset _ hmem
  obtain ⟨answer, hanswer, hc⟩ := hes _ he c hc
  rwa [(h.touched_of_solved q answer hanswer).2]

lemma Reached.invoked_in_the_end (h : Reached w asked s) (hgrow : s.CallsGrow)
    {callee f : NodeId} {env outer : Env} (hinvoked : s.Invoked callee env f outer)
    {final : List Target}
    (hfinal : Rule.Comes s.Grants ⟨s.world, []⟩
      (Rule.meaning s.world.depthLimit (.targets callee env)) final) :
    .function (.ofNode f outer) ∈ final := by
  obtain ⟨invoked, hinvoked, hmem⟩ := hinvoked
  obtain ⟨p, htabled, hresolves⟩ := hgrow
  exact h.mem_targets_of_once hresolves hinvoked hmem hfinal

/-- What is stored in a variable later, on some part of the final answers. -/
def Assigned (s : Session) (id : DeclId) (env : Env) (c : Config) : Prop :=
  ∃ reference ∈ s.world.program.scopes.referencesOf id, ∃ stored,
    Rule.Comes s.Once ⟨s.world, []⟩
      (Rule.storedThrough (Rule.meaning s.world.depthLimit) reference env) stored ∧ c ∈ stored

/-- **A `catch` parameter sees only what is thrown.** Every origin of a `catch` parameter
that is a plain name comes from outside, is assigned to it later, or is the value of a
`throw` statement: one with the same functions around it as the `try` statement, in the
environment of that place; or one that counts for a function which a call in the block
invokes, where the call has the same functions around it too. Such a statement is inside of
that function and no further one, unless the body of the function is a function itself: then
it is inside of that one. Its environment is that of the body that the call enters, with a
context for each function around the statement and one more if it is in step with the
function and the statement is inside of no further one. -/
theorem catch_sees_throws {sources : Sources} {p : Program}
    (hbuild : Program.build sources = .ok p) {bound : Nat} {targets : List NodeId}
    (h : Reached ⟨p, .standard, bound, targets⟩ asked s)
    {id : DeclId} {n b clause caught t block : NodeId} {finalizer : Option NodeId}
    (hn : p.scopes.symbolAt n = some id) (hid : (p.scopes.decl id).binding = b)
    (hclause : p.arena.form clause = .catchClause (some b) caught)
    (htry : p.arena.form t = .tryStmt block (some clause) finalizer)
    {env : Env} {set : ConfigSet} (hset : s.Solved ⟨.bind, .ofNode n env⟩ set) :
    ∀ c ∈ set, c ∈ ConfigSet.external ∨ ∃ declEnv : Env,
      declEnv.depth = (p.arena.functionsAround t).length + 1 ∧
      (s.Assigned id declEnv c ∨
      ∃ d value thrownEnv, p.arena.form d = .throwStmt value ∧ c = .ofNode value thrownEnv ∧
        ((p.arena.functionsAround d = p.arena.functionsAround t ∧
            thrownEnv.depth = (p.arena.functionsAround d).length + 1) ∨
        ∃ call callee arguments optional f outer name params body flags,
          call ∈ p.arena.localDescendants block ∧
          p.arena.functionsAround call = p.arena.functionsAround t ∧
          p.arena.form call = .call callee arguments optional ∧
          s.Invoked callee declEnv f outer ∧
          (p.spreadsError = false ∨ s.Plain → ∃ final,
            s.result (Rule.meaning s.world.depthLimit (.targets callee declEnv)) = some final ∧
            .function (.ofNode f outer) ∈ final) ∧
          p.arena.form f = .function name params body flags ∧
          (p.arena.functionsAround d = if p.arena.isFunction body
            then body :: f :: p.arena.functionsAround f else f :: p.arena.functionsAround f) ∧
          thrownEnv = outer.cons (.push call declEnv.head bound) ∧
          (outer.depth = (p.arena.functionsAround f).length + 1 →
            p.arena.isFunction body = false →
            thrownEnv.depth = (p.arena.functionsAround d).length + 1))) := by
  have hbuilt := Program.built_of_build hbuild
  have hw : World.Sound ⟨p, .standard, bound, targets⟩ := ⟨hbuilt, Catalogue.length_lookup_standard⟩
  have hforest : p.arena.Forest := hbuilt.parsed.forest
  have hworld := h.world_eq
  have hparts : p.arena.children t = block :: clause :: finalizer.toList := by
    rw [Arena.children, htry]
    rfl
  have hparent : p.arena.parent? clause = some t := hforest.parent.mpr (by simp [hparts])
  have hblock := Arena.Forest.isFunction_block hbuilt.parsed.tidy htry
  have hlisted : ∀ m ∈ p.arena.localDescendants block,
      p.arena.functionsAround m = p.arena.functionsAround t := by
    intro m hm
    rw [hforest.around_of_mem_localDescendants hblock hm]
    exact hforest.around_of_try_part htry (by simp [hparts])
  have hdepth : ∀ env : Env, (env.fit (p.arena.functionsAround clause)).depth =
      (p.arena.functionsAround t).length + 1 := by
    intro env
    rw [Env.depth_fit, hforest.around_of_try_part htry (m := clause) (by simp [hparts])]
  intro c hc
  -- the rule runs on some part of the final answers, for this environment or a refined one
  obtain ⟨⟨cursor, refinedEnv⟩, own, hchain, hown, hc⟩ := h.once_of_answer hw (by decide) hset c hc
  rw [hworld] at hown
  obtain ⟨part, hpart, -⟩ := h.solved_of_refined (by decide) hset hchain
  obtain rfl : cursor = .node n := Config.cursor_of_refined hchain
  obtain ⟨start, hstart, hsplit⟩ := Rule.Comes.bind_catchParameter hbuilt hn hid hclause hown
  obtain hc | hstored := hsplit c hc
  swap
  · exact .inr ⟨_, hdepth _, .inl (by rwa [Assigned, hworld])⟩
  obtain hc | ⟨call, hcall, hthrows⟩ := hstart.of_mem_catchOrigins hparent htry hc
  · exact .inl hc
  refine .inr ⟨_, hdepth refinedEnv, .inr ?_⟩
  obtain ⟨value, hthrow, rfl⟩ | ⟨callee, arguments, optional, thrown, hform, hthrown, hc⟩ := hthrows
  · have haround := hlisted call hcall
    exact ⟨call, value, _, hthrow, rfl, .inl ⟨haround, by rw [haround, hdepth]⟩⟩
  -- the same call is looked up on the final answers
  obtain ⟨invoked, f, outer, name, params, body, flags, d, value, hinvoked, hf, hfunction, hd,
    hthrow, rfl⟩ := hthrown.of_mem_thrownByCall hc
  have hwas : s.Invoked callee (refinedEnv.fit (p.arena.functionsAround clause)) f outer :=
    ⟨invoked, by rwa [hworld], hf⟩
  have haround := hforest.around_of_thrown_by hfunction hd hthrow
  refine ⟨d, value, _, hthrow, rfl, .inr ⟨call, callee, arguments, optional, f, outer, name,
    params, body, flags, hcall, hlisted call hcall, hform, hwas, fun hcase => ?_, hfunction,
    haround, rfl, fun houter hplain => ?_⟩⟩
  · obtain ⟨own, hown, -⟩ := h.comes hw hpart
    rw [hworld] at hown
    obtain ⟨start, hstart, -⟩ := Rule.Comes.bind_catchParameter hbuilt hn hid hclause hown
    obtain ⟨final, hfinal⟩ := hstart.targets_of_catchOrigins hparent htry hcall hform
    have hgrow : s.CallsGrow := hcase.elim (h.callsGrow_of_standard hbuilt rfl)
      (h.callsGrow_of_plain hbuilt)
    refine ⟨final, ?_, h.invoked_in_the_end hgrow hwas (by rwa [hworld])⟩
    rw [hworld]
    exact h.result_eq hfinal
  · rw [haround, hplain, ← Env.length_toList, Env.toList_cons, List.length_cons,
      Env.length_toList, houter]
    rfl

def throwsTwice : Sources :=
  [("main", "function f() \x7b throw 1; \x7d\ntry \x7b f(); throw 2; \x7d catch (e) \x7b e; \x7d")]

theorem catch_sees_throws_twice :
    ∃ p s set, Program.build throwsTwice = .ok p ∧
      Reached ⟨p, .standard, 1, []⟩ [⟨.bind, .ofNode 12 .root⟩] s ∧
      p.arena.form 16 = .tryStmt 10 (some 15) none ∧
      s.Solved ⟨.bind, .ofNode 12 .root⟩ set ∧
      .ofNode 1 (Env.root.cons (.push 6 Env.root.head 1)) ∈ set ∧ .ofNode 8 .root ∈ set ∧
      ∀ c ∈ set, c ∈ ConfigSet.external ∨ ∃ declEnv : Env, declEnv.depth = 1 ∧
        (s.Assigned 1 declEnv c ∨
          ∃ d value thrownEnv, p.arena.form d = .throwStmt value ∧ c = .ofNode value thrownEnv) := by
  obtain ⟨p, s, hbuild, hw, hs, hn, hid, hclause, htry, haround, hone, htwo⟩ :=
    exists_reached throwsTwice 1 (fun _ => [⟨.bind, .ofNode 12 .root⟩]) (fun p s =>
      p.scopes.symbolAt 12 = some 1 ∧ (p.scopes.decl 1).binding = 11 ∧
      p.arena.form 15 = .catchClause (some 11) 14 ∧
      p.arena.form 16 = .tryStmt 10 (some 15) none ∧ p.arena.functionsAround 16 = [] ∧
      .ofNode 1 (Env.root.cons (.push 6 Env.root.head 1)) ∈
        s.solver.assignment ⟨.bind, .ofNode 12 .root⟩ ∧
      .ofNode 8 .root ∈ s.solver.assignment ⟨.bind, .ofNode 12 .root⟩) (by decide +kernel)
  have hset := hs.solved_assignment hw (.head _) (Query.answerable_of_symbolAt hn)
  refine ⟨p, s, _, hbuild, hs, htry, hset, hone, htwo, fun c hc => ?_⟩
  obtain hc | ⟨declEnv, hdepth, hc⟩ := catch_sees_throws hbuild hs hn hid hclause htry hset c hc
  · exact .inl hc
  · rw [haround] at hdepth
    refine .inr ⟨declEnv, hdepth, hc.imp_right ?_⟩
    rintro ⟨d, value, thrownEnv, hd, rfl, -⟩
    exact ⟨d, value, thrownEnv, hd, rfl⟩

/-- A function that creates one that throws. It is called in a block, the other one is not. -/
def throwsLater : Sources :=
  [("main", "const f = () => () => \x7b throw 1; \x7d;\ntry \x7b f(); \x7d catch (e) \x7b e; \x7d")]

/-- The statement is inside of two functions, of which only the outer one is called. Its
value is seen all the same, with a context for one function. -/
theorem catch_sees_uncalled :
    ∃ p s set, Program.build throwsLater = .ok p ∧
      Reached ⟨p, .standard, 1, []⟩ [⟨.bind, .ofNode 13 .root⟩] s ∧
      p.scopes.symbolAt 13 = some 1 ∧ (p.scopes.decl 1).binding = 12 ∧
      p.arena.form 16 = .catchClause (some 12) 15 ∧ p.arena.form 17 = .tryStmt 11 (some 16) none ∧
      p.arena.form 2 = .throwStmt 1 ∧ p.arena.functionsAround 2 = [4, 5] ∧
      s.result (Rule.meaning s.world.depthLimit (.targets 8 .root)) =
        some [.function (.ofNode 5 .root)] ∧
      s.Solved ⟨.bind, .ofNode 13 .root⟩ set ∧
      .ofNode 1 (Env.root.cons (.push 9 Env.root.head 1)) ∈ set := by
  obtain ⟨p, s, hbuild, hw, hs, hn, hid, hclause, htry, hthrow, haround, htargets, hmem⟩ :=
    exists_reached throwsLater 1 (fun _ => [⟨.bind, .ofNode 13 .root⟩]) (fun p s =>
      p.scopes.symbolAt 13 = some 1 ∧ (p.scopes.decl 1).binding = 12 ∧
      p.arena.form 16 = .catchClause (some 12) 15 ∧
      p.arena.form 17 = .tryStmt 11 (some 16) none ∧
      p.arena.form 2 = .throwStmt 1 ∧ p.arena.functionsAround 2 = [4, 5] ∧
      s.result (Rule.meaning s.world.depthLimit (.targets 8 .root)) =
        some [.function (.ofNode 5 .root)] ∧
      .ofNode 1 (Env.root.cons (.push 9 Env.root.head 1)) ∈
        s.solver.assignment ⟨.bind, .ofNode 13 .root⟩) (by decide +kernel)
  exact ⟨p, s, _, hbuild, hs, hn, hid, hclause, htry, hthrow, haround, htargets,
    hs.solved_assignment hw (.head _) (Query.answerable_of_symbolAt hn), hmem⟩

end Session

end ValueFlow
