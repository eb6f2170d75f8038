import ValueFlow.Proofs.Scope.Chains

/-!
# Where configurations stand

A rule makes new configurations out of those it is given: it goes from a node to
one of its parts or to what is around it, it fits an environment to another
node, and it enters calls. Which environments go with a point depends on the
functions around the point and on nothing else about it. A *terrain* is a choice
of nodes and environments that is closed under what the rules do.

Two kinds of configurations are found away from their place. The names of
globals mean the same everywhere, so as values they are put at module level; and
so is the element of one that a pattern picks. They are told apart from the
configurations that stand where they belong.
-/

namespace ValueFlow

variable {env : Env} {c : Config} {n : NodeId}

/-! ## Cursors, environments and sets -/

def Cursor.point? : Cursor → Option NodeId
  | .node n => some n
  | .arguments call _ => some call
  | .pick expression _ => some expression
  | .external => none

def Cursor.call? : Cursor → Option NodeId
  | .node call => some call
  | .arguments call _ => some call
  | .pick _ _ => none
  | .external => none

lemma Cursor.point?_of_call? {cursor : Cursor} {call : NodeId} (h : cursor.call? = some call) :
    cursor.point? = some call := by
  cases cursor with
  | node | arguments => exact h
  | pick | external => exact nomatch h

lemma Config.eq_of_node? (h : c.node? = some n) : c = .ofNode n c.env := by
  obtain ⟨cursor, env⟩ := c
  cases cursor with
  | node m =>
    cases h
    rfl
  | _ => cases h

lemma Config.node?_of_cursor (h : c.cursor = .node n) : c.node? = some n := by
  rw [Config.node?, h]
  rfl

def Cursor.around? (a : Arena) (cursor : Cursor) : Option (List NodeId) :=
  cursor.point?.map a.functionsAround

/-- The same, where a function stands for its body. -/
def Cursor.within? (a : Arena) : Cursor → Option (List NodeId)
  | .node n => some (a.functionsWithin n)
  | cursor => cursor.around? a

def Env.All (p : Context → Prop) (env : Env) : Prop := ∀ c ∈ env.toList, p c

/-- All elements of the set satisfy `p`. -/
def ConfigSet.All (p : Config → Prop) (set : ConfigSet) : Prop := ∀ c ∈ set, p c

lemma Env.toList_of_ofList? {contexts : List Context} (h : Env.ofList? contexts = some env) :
    env.toList = contexts := by
  cases contexts with
  | nil => exact nomatch h
  | cons first rest =>
    cases h
    rfl

lemma Env.replace?_eq_some_iff {env' : Env} {index : Nat} {c : Context} :
    env.replace? index c = some env' ↔
      index < env.depth ∧ env'.toList = env.toList.set index c := by
  unfold replace?
  split
  · next hlt =>
    constructor
    · intro h
      exact ⟨hlt, toList_of_ofList? h⟩
    · rintro ⟨-, h⟩
      rw [← h]
      rfl
  · next hge => simp [hge]

lemma Env.exists_replace? {index : Nat} (h : index < env.depth) (c : Context) :
    ∃ env', env.replace? index c = some env' := by
  cases index with
  | zero => exact ⟨⟨c, env.outer⟩, replace?_eq_some_iff.mpr ⟨h, rfl⟩⟩
  | succ index => exact ⟨⟨env.head, env.outer.set index c⟩, replace?_eq_some_iff.mpr ⟨h, rfl⟩⟩

/-- At module level no caller is unknown. -/
lemma Env.drop_root_ne (index : Nat) (f : NodeId) (outer : List Context) :
    Env.root.toList.drop index ≠ .question f :: outer := by
  intro h
  have hmem := List.mem_of_mem_drop (h ▸ List.mem_cons_self : Context.question f ∈ _)
  cases List.mem_singleton.mp hmem

namespace Env.All

variable {p : Context → Prop} {env : Env} {c : Context}

lemma head (h : env.All p) : p env.head := h _ (.head _)

lemma cons (h : env.All p) (hc : p c) : (env.cons c).All p := List.forall_mem_cons.mpr ⟨hc, h⟩

lemma withHead (h : env.All p) (hc : p c) : (env.withHead c).All p :=
  List.forall_mem_cons.mpr ⟨hc, fun d hd => h d (.tail _ hd)⟩

lemma dropInner (h : env.All p) (n : Nat) : (env.dropInner n).All p := by
  intro c hc
  rw [toList_dropInner] at hc
  exact h c (List.mem_of_mem_drop hc)

lemma fit (h : env.All p) {functions : List NodeId} (hf : ∀ f ∈ functions, p (.question f)) :
    (env.fit functions).All p := by
  unfold Env.fit
  extract_lets size
  split
  · exact h.dropInner _
  · intro c hc
    rw [toList_extend] at hc
    obtain hc | hc := List.mem_append.mp hc
    · obtain ⟨f, hmem, rfl⟩ := List.mem_map.mp hc
      exact hf f (List.mem_of_mem_take hmem)
    · exact h c hc

lemma replace {env' : Env} (h : env.All p) {index : Nat} {c : Context} (hc : p c)
    (hreplace : env.replace? index c = some env') : env'.All p := by
  intro d hd
  rw [(replace?_eq_some_iff.mp hreplace).2] at hd
  obtain hd | rfl := List.mem_or_eq_of_mem_set hd
  · exact h d hd
  · exact hc

end Env.All

namespace ConfigSet.All

variable {p q : Config → Prop} {set set' : ConfigSet} {c : Config}

lemma empty : All p .empty := fun c hc => absurd hc (PowerSet.not_mem_empty c)

lemma singleton (h : p c) : All p (.singleton c) := by
  intro d hd
  rwa [PowerSet.mem_singleton.mp hd]

lemma union (h : All p set) (h' : All p set') : All p (set ∪ set') :=
  fun c hc => (PowerSet.mem_union.mp hc).elim (h c) (h' c)

lemma insert (h : All p set) (hc : p c) : All p (set.insert c) := by
  intro d hd
  obtain hd | rfl := PowerSet.mem_insert.mp hd
  · exact h d hd
  · exact hc

lemma ofList {items : List Config} (h : ∀ c ∈ items, p c) : All p (.ofList items) :=
  fun c hc => h c (PowerSet.mem_ofList.mp hc)

lemma imp (h : All p set) (hpq : ∀ c, p c → q c) : All q set := fun c hc => hpq c (h c hc)

end ConfigSet.All

/-! ## Terrains -/

def World.IsGlobal (w : World) (n : NodeId) : Prop :=
  ∃ name, w.program.arena.form n = .identifier name ∧ w.program.scopes.symbolAt n = none ∧
    w.catalogue.isGlobal (w.program.text name) = true

/-- Which nodes and environments go together, closed under what the rules of a
world do. -/
structure Terrain (w : World) where
  built : w.program.Built
  node : NodeId → Prop
  fits : Option (List NodeId) → Env → Prop
  /-- An environment of a point with the first functions around it can be fitted
  to one with the others. -/
  near : List NodeId → List NodeId → Prop
  inside : ∀ n < w.program.arena.size, node n
  root : fits (some []) .root
  outside : fits none .root
  nested : ∀ chain other, Arena.Nested chain other → near chain other
  fit : ∀ chain other (env : Env), w.program.arena.Chain chain → w.program.arena.Chain other →
    near chain other → fits (some chain) env → fits (some other) (env.fit other)
  enter : ∀ f (outer : Env) call (env : Env), w.program.arena.isFunction f = true →
    fits (some (w.program.arena.functionsAround f)) outer → node call →
    fits (some (w.program.arena.functionsAround call)) env →
    fits (some (w.program.arena.functionsWithin f)) (outer.cons (.push call env.head w.bound))
  leave : ∀ f (env : Env), w.program.arena.isFunction f = true →
    fits (some (w.program.arena.functionsWithin f)) env →
    fits (some (w.program.arena.functionsAround f)) (env.dropInner 1)
  unknown : ∀ chain (env : Env) index f (outer : Env), fits chain env →
    env.toList.drop index = .question f :: outer.toList →
    node f ∧ fits (some (w.program.arena.functionsAround f)) outer
  /-- Such a context may be replaced by one that the function is entered with. -/
  refined : ∀ chain (env : Env) index f (outer body env' : Env), fits chain env →
    env.toList.drop index = .question f :: outer.toList →
    fits (some (w.program.arena.functionsWithin f)) body →
    env.replace? index body.head = some env' → fits chain env'
  /-- The context of a call, found by taking the call off a context. -/
  tail : ∀ chain (body : Env) call sites terminal (env : Env), fits chain body →
    body.head = ⟨call :: sites, terminal⟩ →
    fits (some (w.program.arena.functionsAround call)) env →
    fits (some (w.program.arena.functionsAround call)) (env.withHead ⟨sites, terminal⟩)
  thrown : ∀ f name params body flags d value env,
    w.program.arena.form f = .function name params body flags →
    d ∈ w.program.arena.localDescendants body → w.program.arena.form d = .throwStmt value →
    fits (some (w.program.arena.functionsWithin f)) env →
    fits (some (w.program.arena.functionsAround value)) env

namespace Terrain

variable {w : World} (G : Terrain w)

structure At (n : NodeId) (env : Env) : Prop where
  node : G.node n
  fits : G.fits (some (w.program.arena.functionsAround n)) env

structure Body (f : NodeId) (env : Env) : Prop where
  node : G.node f
  fits : G.fits (some (w.program.arena.functionsWithin f)) env

structure spot (c : Config) : Prop where
  point : ∀ n, c.cursor.point? = some n → G.node n
  fits  : G.fits (c.cursor.around? w.program.arena) c.env

/-- The same, where a function stands for its body. -/
structure body (c : Config) : Prop where
  point : ∀ n, c.cursor.point? = some n → G.node n
  fits  : G.fits (c.cursor.within? w.program.arena) c.env

def place (c : Config) : Prop := G.spot c ∨ ∃ n, w.IsGlobal n ∧ c = .ofNode n .root

/-- The configuration is a place, or an element of a global name at module
level. -/
def origin (c : Config) : Prop :=
  G.place c ∨ ∃ n position, w.IsGlobal n ∧ c = ⟨.pick n position, .root⟩

/-- A function value where it belongs. -/
def closure (c : Config) : Prop :=
  ∃ f env, c = .ofNode f env ∧ w.program.arena.isFunction f = true ∧ G.At f env

/-- What the rules ask. -/
def Asked (q : Query) : Prop :=
  match q.kind with
  | .evaluate => G.origin q.config
  | .traced => G.place q.config
  | .callers => G.body q.config
  | .applied | .bind | .entered => G.spot q.config

/-- What the rules find. -/
def Found (q : Query) (c : Config) : Prop :=
  match q.kind with
  | .evaluate => G.place c
  | .bind => G.origin c
  | .traced | .applied | .callers => G.spot c
  | .entered => ∀ f, q.config.node? = some f →
    G.fits (some (w.program.arena.functionsWithin f)) c.env

/-- The name of the function is used only where the environment of its body can
be fitted to. -/
def traceable (n : NodeId) : Prop :=
  ∀ name params body flags id reference,
    w.program.arena.form n = .function (some name) params body flags →
    w.program.scopes.symbolAt name = some id → reference ∈ w.program.scopes.referencesOf id →
    G.near (w.program.arena.functionsWithin n) (w.program.arena.functionsAround reference)

/-- What can be answered by what the rules find. Only evaluation makes sense of
what stands elsewhere than where it belongs. -/
def Posed (q : Query) : Prop :=
  match q.kind with
  | .traced => G.spot q.config ∧ ∀ n, q.config.node? = some n → G.traceable n
  | _ => G.Asked q

variable {G} {n call position f : NodeId} {env : Env} {c : Config} {form : Form NodeId}
  {chain other : List NodeId} {p : NodeId} {arguments : List NodeId}

/-! ## Points of the program -/

lemma spot_ofNode : G.spot (.ofNode n env) ↔ G.At n env := by
  refine ⟨fun h => ⟨h.point n rfl, h.fits⟩, fun h => ⟨fun m hm => ?_, h.fits⟩⟩
  cases hm
  exact h.node

lemma spot_arguments : G.spot ⟨.arguments call position, env⟩ ↔ G.At call env := by
  refine ⟨fun h => ⟨h.point call rfl, h.fits⟩, fun h => ⟨fun m hm => ?_, h.fits⟩⟩
  cases hm
  exact h.node

lemma spot_pick {expression : NodeId} {position : Option Nat} :
    G.spot ⟨.pick expression position, env⟩ ↔ G.At expression env := by
  refine ⟨fun h => ⟨h.point expression rfl, h.fits⟩, fun h => ⟨fun m hm => ?_, h.fits⟩⟩
  cases hm
  exact h.node

lemma body_ofNode : G.body (.ofNode f env) ↔ G.Body f env := by
  refine ⟨fun h => ⟨h.point f rfl, h.fits⟩, fun h => ⟨fun m hm => ?_, h.fits⟩⟩
  cases hm
  exact h.node

lemma spot_external : G.spot .external := ⟨nofun, G.outside⟩

lemma spot_of_call? {caller : Cursor} (h : caller.call? = some call) :
    G.spot ⟨caller, env⟩ ↔ G.At call env := by
  cases caller with
  | node n =>
    cases h
    exact spot_ofNode
  | arguments n position =>
    cases h
    exact spot_arguments
  | pick | external => cases h

lemma at_of_spot (h : G.spot c) (hn : c.node? = some n) : G.At n c.env := by
  rw [Config.eq_of_node? hn] at h
  exact spot_ofNode.mp h

lemma node_of_global (h : w.IsGlobal n) : G.node n := by
  obtain ⟨name, hform, -⟩ := h
  exact G.inside n (Arena.lt_size_of_form (by rw [hform]; exact nofun))

lemma origin_of_spot (h : G.spot c) : G.origin c := .inl (.inl h)

lemma origin_ofNode (h : G.At n env) : G.origin (.ofNode n env) :=
  origin_of_spot (spot_ofNode.mpr h)

/-- A global name under any environment, as far as its element may be asked for. -/
lemma origin_of_pick {position : Option Nat} (h : G.origin ⟨.pick n position, env⟩) :
    G.origin (.ofNode n env) := by
  obtain (h | ⟨m, -, heq⟩) | ⟨m, p, hglobal, heq⟩ := h
  · exact origin_ofNode (spot_pick.mp h)
  · cases heq
  · cases heq
    exact .inl (.inr ⟨_, hglobal, rfl⟩)

lemma pick_of_origin (h : G.origin (.ofNode n env)) (position : Option Nat) :
    G.origin ⟨.pick n position, env⟩ := by
  obtain (h | ⟨m, hglobal, heq⟩) | ⟨m, p, -, heq⟩ := h
  · exact origin_of_spot (spot_pick.mpr (spot_ofNode.mp h))
  · cases heq
    exact .inr ⟨_, _, hglobal, rfl⟩
  · cases heq

/-- What is no global name at module level stands where it belongs. -/
lemma at_of_not_global (h : G.origin (.ofNode n env)) (hn : ¬ (w.IsGlobal n ∧ env = .root)) :
    G.At n env := by
  obtain (h | ⟨m, hglobal, heq⟩) | ⟨m, p, -, heq⟩ := h
  · exact spot_ofNode.mp h
  · cases heq
    exact absurd ⟨hglobal, rfl⟩ hn
  · cases heq

lemma at_of_symbol (h : G.origin (.ofNode n env))
    (hsymbol : (w.program.scopes.symbolAt n).isSome = true) : G.At n env := by
  refine at_of_not_global h ?_
  rintro ⟨⟨name, -, hnone, -⟩, -⟩
  rw [hnone] at hsymbol
  cases hsymbol

lemma at_of_origin (h : G.origin (.ofNode n env)) (hform : w.arena.form n = form)
    (hnot : form.isReference = false) : G.At n env := by
  refine at_of_not_global h ?_
  rintro ⟨⟨name, hname, -⟩, -⟩
  rw [← hform, hname] at hnot
  cases hnot

lemma at_of_place (h : G.place (.ofNode n env)) (hform : w.arena.form n = form)
    (hnot : form.isReference = false) : G.At n env :=
  at_of_origin (.inl h) hform hnot

lemma place_of_origin (h : G.origin c) (hc : ∀ n position, c.cursor ≠ .pick n position) :
    G.place c := by
  obtain h | ⟨n, position, -, rfl⟩ := h
  · exact h
  · exact absurd rfl (hc n position)

lemma at_of_place_arguments (h : G.place c) (hcursor : c.cursor = .arguments call position) :
    G.At call c.env := by
  obtain ⟨cursor, env⟩ := c
  cases hcursor
  obtain h | ⟨m, -, heq⟩ := h
  · exact spot_arguments.mp h
  · cases heq

lemma place_of_node? (h : G.place c) (hn : c.node? = some n) : G.place (.ofNode n c.env) :=
  Config.eq_of_node? hn ▸ h

lemma closure_of_place (h : G.place c) (hn : c.node? = some f)
    (hf : w.arena.isFunction f = true) : G.closure c := by
  refine ⟨f, c.env, Config.eq_of_node? hn, hf, at_of_place (place_of_node? h hn) rfl ?_⟩
  unfold Arena.isFunction at hf
  cases hform : w.arena.form f <;> rw [hform] at hf <;> first | rfl | cases hf

/-! ## Steps -/

lemma near_of_eq (h : other = chain) : G.near chain other :=
  G.nested _ _ (h ▸ Arena.nested_self chain)

lemma near_inner (h : chain <:+ other) : G.near chain other := G.nested _ _ (.inl h)

lemma near_outer (h : other <:+ chain) : G.near chain other := G.nested _ _ (.inr h)

lemma At.under {m : NodeId} (h : G.At n env)
    (hm : w.arena.Under (w.arena.functionsAround n) m) : G.At m env :=
  ⟨G.inside m hm.1, hm.2 ▸ h.fits⟩

lemma At.part {c : NodeId} (h : G.At n env) (hform : w.arena.form n = form)
    (hc : c ∈ form.children) (hnot : form.isFunction = false) : G.At c env :=
  h.under (G.built.forest.under_of_part hform hc hnot)

lemma At.parent (h : G.At n env) (hp : w.arena.parent? n = some p)
    (hform : w.arena.form p = form) (hnot : form.isFunction = false) : G.At p env :=
  h.under (G.built.forest.under_of_parent hp hform hnot)

lemma At.callee {call callee : NodeId} {env : Env} (h : G.At call env)
    (hparts : (w.arena.form call).callParts? = some (callee, arguments)) :
    G.At callee env :=
  h.under (G.built.forest.under_of_callParts hparts (.inl rfl))

lemma At.argument {callee : NodeId} (h : G.At call env)
    (hparts : (w.arena.form call).callParts? = some (callee, arguments))
    (hn : n ∈ arguments) : G.At n env :=
  h.under (G.built.forest.under_of_callParts hparts (.inr hn))

lemma At.calleeOf (h : G.At n env) (hcall : w.arena.calleeOf? n = some call) :
    G.At call env :=
  h.under (G.built.forest.under_of_calleeOf? hcall)

lemma At.argumentOf (h : G.At n env)
    (hcall : w.arena.argumentOf? n = some (call, position)) : G.At call env :=
  h.under (G.built.forest.under_of_argumentOf? hcall)

lemma At.assigned {target value : NodeId} (h : G.At target env)
    (hvalue : w.arena.assignedValue? target = some value) : G.At value env :=
  h.under (G.built.forest.under_of_assignedValue? hvalue)

/-- What the pattern around a variable is a part of. -/
lemma At.patternParent (h : G.At n env)
    (hp : w.arena.parent? (w.arena.patternRoot n).1 = some p)
    (hform : w.arena.form p = form) (hnot : form.isFunction = false) : G.At p env := by
  have hunder := G.built.forest.under_of_parent hp hform hnot
  exact h.under ⟨hunder.1, hunder.2.trans (G.built.forest.around_patternRoot n)⟩

lemma Body.returned {value : NodeId} (h : G.Body f env)
    (hvalue : value ∈ w.arena.returnedValues f) : G.At value env := by
  obtain ⟨hlt, haround⟩ := G.built.forest.under_of_mem_returnedValues G.built.tidy hvalue
  exact ⟨G.inside value hlt, haround ▸ h.fits⟩

lemma Body.enter {outer : Env} (hf : w.arena.isFunction f = true) (houter : G.At f outer)
    (hcall : G.At call env) : G.Body f (outer.cons (.push call env.head w.bound)) :=
  ⟨houter.node, G.enter f outer call env hf houter.fits hcall.node hcall.fits⟩

lemma Body.leave (h : G.Body f env) (hf : w.arena.isFunction f = true) :
    G.At f (env.dropInner 1) :=
  ⟨h.node, G.leave f env hf h.fits⟩

lemma At.fit (h : G.fits (some chain) env) (hchain : w.arena.Chain chain)
    (hn : n < w.arena.size) (hnear : G.near chain (w.arena.functionsAround n)) :
    G.At n (env.fit (w.arena.functionsAround n)) :=
  ⟨G.inside n hn, G.fit _ _ env hchain (G.built.forest.chain_around n) hnear h⟩

lemma at_openEnv (hn : n < w.arena.size) : G.At n (w.arena.openEnv n) :=
  .fit G.root Arena.chain_nil hn (near_inner List.nil_suffix)

/-- A module at its own level. -/
lemma at_root {m : ModuleId} (hm : m < w.arena.modules.size) :
    G.At (w.arena.modules.getD m default).root .root := by
  obtain ⟨hlt, htop, -⟩ := G.built.root_spec hm
  refine ⟨G.inside _ hlt, ?_⟩
  rw [G.built.forest.functionsAround_of_top htop]
  exact G.root

/-! ## Queries -/

lemma asked_of_posed {q : Query} (h : G.Posed q) : G.Asked q := by
  obtain ⟨kind, config⟩ := q
  cases kind with
  | traced => exact .inl h.1
  | _ => exact h

lemma fits_of_place (h : G.place c) : ∃ chain, G.fits chain c.env := by
  obtain h | ⟨n, -, rfl⟩ := h
  · exact ⟨_, h.fits⟩
  · exact ⟨_, G.root⟩

lemma fits_of_asked {q : Query} (h : G.Asked q) : ∃ chain, G.fits chain q.config.env := by
  obtain ⟨kind, config⟩ := q
  cases kind with
  | evaluate =>
    obtain h | ⟨n, position, -, rfl⟩ := h
    · exact fits_of_place h
    · exact ⟨_, G.root⟩
  | traced => exact fits_of_place h
  | applied | callers | bind | entered => exact ⟨_, h.fits⟩

end Terrain

/-! ## Everything -/

namespace Terrain

variable {w : World}

def all (hbuilt : w.program.Built) : Terrain w where
  built := hbuilt
  node _ := True
  fits _ _ := True
  near _ _ := True
  inside _ _ := trivial
  root := trivial
  outside := trivial
  nested _ _ _ := trivial
  fit _ _ _ _ _ _ _ := trivial
  enter _ _ _ _ _ _ _ _ := trivial
  leave _ _ _ _ := trivial
  unknown _ _ _ _ _ _ _ := ⟨trivial, trivial⟩
  refined _ _ _ _ _ _ _ _ _ _ _ := trivial
  tail _ _ _ _ _ _ _ _ _ := trivial
  thrown _ _ _ _ _ _ _ _ _ _ _ _ := trivial

variable {hbuilt : w.program.Built}

lemma spot_all (c : Config) : (all hbuilt).spot c := ⟨fun _ _ => trivial, trivial⟩

lemma posed_all (q : Query) : (all hbuilt).Posed q := by
  obtain ⟨kind, config⟩ := q
  cases kind with
  | evaluate => exact origin_of_spot (spot_all config)
  | traced => exact ⟨spot_all config, fun _ _ _ _ _ _ _ _ _ _ _ => trivial⟩
  | callers => exact ⟨fun _ _ => trivial, trivial⟩
  | applied | bind | entered => exact spot_all config

lemma found_all (q : Query) (c : Config) : (all hbuilt).Found q c := by
  obtain ⟨kind, config⟩ := q
  cases kind with
  | evaluate => exact .inl (spot_all c)
  | bind => exact origin_of_spot (spot_all c)
  | traced | applied | callers => exact spot_all c
  | entered => exact fun _ _ => trivial

end Terrain

end ValueFlow
