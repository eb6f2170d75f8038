import ValueFlow.Proofs.Flow.Keeps.Table
import ValueFlow.Proofs.Flow.Settled

/-!
# Environments in step with their points

The environment of a point has one context for each function around the point,
and one for the module level. A context that ends at an unknown caller of a
function is at the level of that function: its call sites lead from there to the
point.

Environments are fitted by their length alone, so this has to be kept wherever a
rule goes from one point to another. How much is kept depends on what of the
functions is compared: their number only, or the functions themselves.

It is not always kept. A function that is traced takes the environment of its
body to every use of its name, also in functions that it has nothing to do with
(`traced_name_out_of_step`). A global name that is traced takes the module level
into the function where it stands; and what a function throws that is the body of
another one counts for the other.
-/

namespace ValueFlow

variable {κ : Type} {a : Arena} {key : NodeId → κ}

/-! ## Contexts -/

def Context.base (a : Arena) (chain : List NodeId) (c : Context) : List NodeId :=
  (c.sites.getLast?.map a.functionsAround).getD chain

def Context.Rooted (a : Arena) (key : NodeId → κ) (chain : List NodeId) (c : Context) : Prop :=
  ∀ f, c.terminal = .question f →
    a.isFunction f = true ∧ (c.base a chain).map key = (a.functionsWithin f).map key

/-- A context ends where it does without its first call site. -/
lemma Context.base_cons (chain : List NodeId) (site : NodeId) (sites : List NodeId)
    (terminal : Terminal) :
    Context.base a chain ⟨site :: sites, terminal⟩ =
      Context.base a (a.functionsAround site) ⟨sites, terminal⟩ := by
  simp [base, List.getLast?_cons]

namespace Context.Rooted

variable {chain other : List NodeId} {c : Context} {site : NodeId}

lemma of_map_eq (h : c.Rooted a key chain) (heq : other.map key = chain.map key) :
    c.Rooted a key other := by
  intro f hf
  obtain ⟨hfunction, hbase⟩ := h f hf
  refine ⟨hfunction, ?_⟩
  rw [← hbase]
  unfold base
  cases c.sites.getLast? with
  | none => exact heq
  | some site => rfl

lemma stackBottom : Context.stackBottom.Rooted a key chain := by rintro f ⟨⟩

/-- The context of any caller, in the body of its function. -/
lemma question_iff {f : NodeId} : (Context.question f).Rooted a key chain ↔
    a.isFunction f = true ∧ chain.map key = (a.functionsWithin f).map key := by
  refine ⟨fun h => h f rfl, ?_⟩
  rintro h _ ⟨⟩
  exact h

lemma push (h : c.Rooted a key (a.functionsAround site)) (bound : Nat) :
    (Context.push site c bound).Rooted a key chain := by
  unfold Context.push Context.frame Context.truncate
  split
  · intro f hf
    rw [base_cons]
    exact h f hf
  · rintro f ⟨⟩

lemma tail {sites : List NodeId} {terminal : Terminal}
    (h : Context.Rooted a key chain ⟨site :: sites, terminal⟩) :
    Context.Rooted a key (a.functionsAround site) ⟨sites, terminal⟩ := by
  intro f hf
  rw [← base_cons chain]
  exact h f hf

end Context.Rooted

/-! ## Environments -/

/-- The environment has a context for each function of the chain and one more,
and each context is rooted at its level. -/
structure Env.Aligned (a : Arena) (key : NodeId → κ) (chain : List NodeId) (env : Env) : Prop where
  depth : env.depth = chain.length + 1
  rooted : ∀ (i : Nat) (c : Context), env.toList[i]? = some c → c.Rooted a key (chain.drop i)

namespace Env.Aligned

variable {chain other : List NodeId} {env outer : Env} {c : Context}

lemma root : Env.root.Aligned a key [] := by
  refine ⟨rfl, fun i c hc => ?_⟩
  cases List.mem_singleton.mp (List.mem_of_getElem? hc)
  exact .stackBottom

/-- The outer contexts go with the outer functions. -/
lemma drop (h : env.Aligned a key chain) {k : Nat} (hdrop : env.toList.drop k = outer.toList)
    (hother : other.map key = (chain.drop k).map key) : outer.Aligned a key other := by
  have hlength := congrArg List.length hdrop
  have hkeys := congrArg List.length hother
  simp only [List.length_drop, length_toList, List.length_map, h.depth] at hlength hkeys
  refine ⟨?_, fun i c hc => ?_⟩
  · have hpos : outer.depth ≠ 0 := Nat.succ_ne_zero _
    omega
  · rw [← hdrop, List.getElem?_drop] at hc
    refine (h.rooted _ c hc).of_map_eq ?_
    rw [List.map_drop, hother, ← List.map_drop, List.drop_drop]

/-- Functions that are entered on the way may have been called from anywhere. -/
lemma extend (hforest : a.Forest) (h : env.Aligned a key chain) (hother : a.Chain other) {k : Nat}
    (hk : k ≤ other.length) (hchain : chain.map key = (other.drop k).map key) :
    (env.extend ((other.take k).map .question)).Aligned a key other := by
  have hkeys := congrArg List.length hchain
  simp only [List.length_map, List.length_drop] at hkeys
  refine ⟨?_, fun i c hc => ?_⟩
  · rw [← length_toList, toList_extend, List.length_append, length_toList, h.depth, List.length_map,
      List.length_take]
    omega
  · rw [toList_extend] at hc
    have htake : ((other.take k).map Context.question).length = k := by
      rw [List.length_map, List.length_take, Nat.min_eq_left hk]
    by_cases hi : i < k
    · rw [List.getElem?_append_left (by rwa [htake]), List.getElem?_map] at hc
      obtain ⟨f, hf, rfl⟩ := Option.map_eq_some_iff.mp hc
      rw [List.getElem?_take_of_lt hi] at hf
      obtain ⟨hfunction, hdrop⟩ := hforest.drop_of_getElem? hother hf
      exact Context.Rooted.question_iff.mpr ⟨hfunction, congrArg _ hdrop⟩
    · obtain ⟨j, rfl⟩ := Nat.exists_eq_add_of_le (Nat.le_of_not_lt hi)
      rw [List.getElem?_append_right (by omega), htake, Nat.add_sub_cancel_left] at hc
      refine (h.rooted j c hc).of_map_eq ?_
      rw [← List.drop_drop, List.map_drop, ← hchain, ← List.map_drop]

lemma cons (h : outer.Aligned a key chain) {f : NodeId} (hc : c.Rooted a key (f :: chain)) :
    (outer.cons c).Aligned a key (f :: chain) := by
  refine ⟨?_, fun i d hd => ?_⟩
  · rw [← length_toList, toList_cons, List.length_cons, length_toList, h.depth, List.length_cons]
  · cases i with
    | zero =>
      cases hd
      exact hc
    | succ i => exact h.rooted i d hd

lemma replace (h : env.Aligned a key chain) {index : Nat} {env' : Env}
    (hc : c.Rooted a key (chain.drop index)) (hreplace : env.replace? index c = some env') :
    env'.Aligned a key chain := by
  have hlist := (Env.replace?_eq_some_iff.mp hreplace).2
  refine ⟨?_, fun i d hd => ?_⟩
  · rw [← h.depth, ← length_toList, hlist, List.length_set, length_toList]
  · rw [hlist, List.getElem?_set] at hd
    split at hd
    · next hi =>
      subst hi
      split at hd
      · cases hd
        exact hc
      · cases hd
    · exact h.rooted i d hd

lemma withHead (h : env.Aligned a key chain) (hc : c.Rooted a key chain) :
    (env.withHead c).Aligned a key chain := by
  refine ⟨h.depth, fun i d hd => ?_⟩
  cases i with
  | zero =>
    cases hd
    exact hc
  | succ i => exact h.rooted (i + 1) d hd

lemma eq_drop_of_nested {l l' : List κ} (h : l <:+ l' ∨ l' <:+ l) (hle : l.length ≤ l'.length) :
    l = l'.drop (l'.length - l.length) := by
  obtain h | h := h
  · exact List.suffix_iff_eq_drop.mp h
  · rw [h.eq_of_length (Nat.le_antisymm h.length_le hle), Nat.sub_self, List.drop_zero]

/-- An environment that is fitted to an outer or an inner chain is aligned with
it. -/
lemma fit (hforest : a.Forest) (h : env.Aligned a key chain) (hother : a.Chain other)
    (hnear : chain.map key <:+ other.map key ∨ other.map key <:+ chain.map key) :
    (env.fit other).Aligned a key other := by
  have hdepth := h.depth
  unfold Env.fit
  extract_lets size
  split
  · next hsize =>
    refine h.drop (k := chain.length - other.length) ?_ ?_
    · rw [toList_dropInner]
      congr 1
      omega
    · rw [eq_drop_of_nested hnear.symm (by simp; omega), List.map_drop]
      simp
  · next hsize =>
    have htake : size - env.depth = other.length - chain.length := by omega
    rw [htake]
    refine h.extend hforest hother (Nat.sub_le _ _) ?_
    rw [eq_drop_of_nested hnear (by simp; omega), List.map_drop]
    simp

end Env.Aligned

/-! ## The terrain -/

/-- Whether no function has another one that throws for its body. The statements
of the inner function would count for the outer one. -/
def Arena.throwsAtHome (a : Arena) : Bool :=
  (List.range a.size).all fun f =>
    match a.form f with
    | .function _ _ body _ => !a.isFunction body || (Rule.thrownIn a body .root).isEmpty
    | _ => true

def Program.usedNearby (p : Program) (f : NodeId) : Bool :=
  match p.arena.form f with
  | .function (some name) _ _ _ =>
    match p.scopes.symbolAt name with
    | some id => (p.scopes.referencesOf id).all fun reference =>
      (p.arena.functionsWithin f).isSuffixOf (p.arena.functionsAround reference) ||
        (p.arena.functionsAround reference).isSuffixOf (p.arena.functionsWithin f)
    | none => true
  | _ => true

lemma Arena.Forest.around_of_thrown (hforest : a.Forest) (hthrows : a.throwsAtHome = true)
    {f body d value : NodeId} {name : Option NodeId} {params : List NodeId} {flags : FunctionFlags}
    (hform : a.form f = .function name params body flags) (hd : d ∈ a.localDescendants body)
    (hthrow : a.form d = .throwStmt value) : a.functionsAround value = a.functionsWithin f := by
  have hlt : f < a.size := Arena.lt_size_of_form (by rw [hform]; exact nofun)
  have hhome := List.all_eq_true.mp hthrows f (List.mem_range.mpr hlt)
  simp only [hform, Bool.or_eq_true, Bool.not_eq_true'] at hhome
  obtain hbody | hempty := hhome
  · have hvalue := (hforest.under_of_part (c := value) hthrow (by simp [Form.children]) rfl).2
    rw [hvalue, hforest.around_of_mem_localDescendants hbody hd]
    exact hforest.functionsAround_of_part (by simp [hform, Form.children])
  · have hmem : Config.ofNode value .root ∈ Rule.thrownIn a body .root :=
      List.mem_filterMap.mpr ⟨d, hd, by simp only [hthrow]⟩
    rw [List.isEmpty_iff.mp hempty] at hmem
    cases hmem

namespace Terrain

variable {w : World} {f : NodeId}

/-- The environment is aligned with the chain, or else it is the module level. -/
def Fits (a : Arena) (key : NodeId → κ) : Option (List NodeId) → Env → Prop
  | some chain, env => env.Aligned a key chain
  | none, env => env = .root

lemma unknown_aligned {chain : Option (List NodeId)} {env outer : Env} {index : Nat}
    (h : Fits a key chain env) (hdrop : env.toList.drop index = .question f :: outer.toList) :
    outer.Aligned a key (a.functionsAround f) ∧
      ∃ functions, chain = some functions ∧
        (functions.drop index).map key = (a.functionsWithin f).map key := by
  cases chain with
  | none =>
    cases h
    exact absurd hdrop (Env.drop_root_ne index f outer.toList)
  | some chain =>
    have hget : env.toList[index]? = some (.question f) := by
      rw [← List.head?_drop, hdrop]
      rfl
    obtain ⟨hfunction, hchain⟩ := Context.Rooted.question_iff.mp (Env.Aligned.rooted h index _ hget)
    refine ⟨Env.Aligned.drop h (k := index + 1) ?_ ?_, chain, rfl, hchain⟩
    · rw [← List.drop_drop, hdrop]
      rfl
    · rw [Arena.functionsWithin_of_function hfunction] at hchain
      rw [← List.drop_drop, List.map_drop, hchain]
      rfl

/-- All nodes, with the environments that are aligned with what is around them. -/
def aligned (hbuilt : w.program.Built) (hthrows : w.program.arena.throwsAtHome = true)
    (key : NodeId → κ) : Terrain w where
  built := hbuilt
  node _ := True
  fits := Fits w.program.arena key
  near chain other := chain.map key <:+ other.map key ∨ other.map key <:+ chain.map key
  inside _ _ := trivial
  root := .root
  outside := rfl
  nested _ _ h := h.imp (·.map key) (·.map key)
  fit _ _ _ _ hother hnear h := h.fit hbuilt.forest hother hnear
  enter f outer call env hf houter _ henv := by
    rw [Arena.functionsWithin_of_function hf]
    exact houter.cons (.push (henv.rooted 0 env.head rfl) w.bound)
  leave f env hf henv := by
    rw [Arena.functionsWithin_of_function hf] at henv
    refine henv.drop (k := 1) ?_ rfl
    have hdepth : env.depth = (w.program.arena.functionsAround f).length + 2 := henv.depth
    rw [Env.toList_dropInner, Nat.min_eq_left (by omega)]
  unknown _ _ _ _ _ hfits hdrop := ⟨trivial, (unknown_aligned hfits hdrop).1⟩
  refined chain env index f outer body env' hfits hdrop hbody hreplace := by
    obtain ⟨-, functions, rfl, hchain⟩ := unknown_aligned hfits hdrop
    exact hfits.replace ((hbody.rooted 0 body.head rfl).of_map_eq hchain) hreplace
  tail chain body call sites terminal env hbody hhead henv := by
    refine henv.withHead ?_
    cases chain with
    | none =>
      cases hbody
      cases hhead
    | some chain => exact .tail (hhead ▸ hbody.rooted 0 body.head rfl)
  thrown f name params body flags d value env hform hd hthrow henv := by
    rwa [hbuilt.forest.around_of_thrown hthrows hform hd hthrow]

variable {hbuilt : w.program.Built} {hthrows : w.arena.throwsAtHome = true}

lemma traceable_of_usedNearby (h : w.program.usedNearby f = true) :
    (aligned hbuilt hthrows key).traceable f := by
  intro name params body flags id reference hform hsymbol hreference
  simp only [Program.usedNearby, hform, hsymbol, List.all_eq_true, Bool.or_eq_true,
    List.isSuffixOf_iff_suffix] at h
  exact (h reference hreference).imp (·.map key) (·.map key)

/-- As far as their number goes, functions can always be fitted. -/
lemma traceable_of_length (f : NodeId) :
    (aligned hbuilt hthrows fun _ => ()).traceable f := by
  intro _ _ _ _ _ reference _ _ _
  have hsuffix : ∀ l l' : List Unit, l.length ≤ l'.length → l <:+ l' := by
    intro l l' hle
    refine List.suffix_iff_eq_drop.mpr (List.ext_getElem ?_ fun _ _ _ => rfl)
    rw [List.length_drop]
    omega
  exact (Nat.le_total _ _).imp (hsuffix _ _) (hsuffix _ _)

end Terrain

/-! ## Sessions -/

/-- The question about a node when nothing is known about calls. For callers, the
point is the body of the function. -/
def Query.topLevel (p : Program) (kind : QueryKind) (n : NodeId) : Query :=
  ⟨kind, .ofNode n (match kind with
    | .callers => Env.root.fit (p.arena.functionsWithin n)
    | _ => p.arena.openEnv n)⟩

namespace Terrain

variable {w : World} {hbuilt : w.program.Built} {hthrows : w.arena.throwsAtHome = true}
  {q : Query} {G : Terrain w}

lemma fits_root_fit {chain : List NodeId} (hchain : w.arena.Chain chain) :
    (aligned hbuilt hthrows key).fits (some chain) (Env.root.fit chain) :=
  Env.Aligned.root.fit hbuilt.forest hchain (.inl List.nil_suffix)

lemma asked_topLevel (kind : QueryKind) (n : NodeId) :
    (aligned hbuilt hthrows key).Asked (.topLevel w.program kind n) := by
  have hspot : (aligned hbuilt hthrows key).spot (.ofNode n (w.arena.openEnv n)) :=
    spot_ofNode.mpr ⟨trivial, fits_root_fit (hbuilt.forest.chain_around n)⟩
  cases kind with
  | evaluate => exact origin_of_spot hspot
  | traced => exact .inl hspot
  | callers => exact body_ofNode.mpr ⟨trivial, fits_root_fit (hbuilt.forest.chain_within n)⟩
  | applied | bind | entered => exact hspot

lemma posed_of_asked (h : (aligned hbuilt hthrows key).Asked q)
    (hglobals : ∀ n, w.IsGlobal n → q = ⟨.traced, .ofNode n .root⟩ → w.arena.depth n = 0)
    (htraceable : ∀ f env, q = ⟨.traced, .ofNode f env⟩ → (aligned hbuilt hthrows key).traceable f) :
    (aligned hbuilt hthrows key).Posed q := by
  obtain ⟨kind, config⟩ := q
  cases kind with
  | traced =>
    refine ⟨?_, fun n hn => htraceable n config.env (by rw [← Config.eq_of_node? hn])⟩
    obtain hspot | ⟨n, hglobal, rfl⟩ := h
    · exact hspot
    · -- a global name at module level is where it belongs
      have hdepth := hglobals n hglobal rfl
      rw [← hbuilt.forest.length_functionsAround, List.length_eq_zero_iff] at hdepth
      refine spot_ofNode.mpr ⟨trivial, ?_⟩
      rw [hdepth]
      exact Env.Aligned.root
  | _ => exact h

/-- The questions about what stands at a point or goes on there. -/
lemma origin_of_asked (hkind : q.kind ∈ [.evaluate, .bind, .traced, .applied]) (h : G.Asked q) :
    G.origin q.config := by
  obtain ⟨kind, config⟩ := q
  cases kind with
  | evaluate => exact h
  | traced => exact .inl h
  | bind | applied => exact origin_of_spot h
  | callers | entered => simp at hkind

lemma origin_of_found {c : Config} (hkind : q.kind ∈ [.evaluate, .bind, .traced, .applied])
    (h : G.Found q c) : G.origin c := by
  obtain ⟨kind, config⟩ := q
  cases kind with
  | evaluate => exact .inl h
  | bind => exact h
  | traced | applied => exact origin_of_spot h
  | callers | entered => simp at hkind

end Terrain

namespace Session

open Moment (resting)

variable {w : World} {asked : List Query} {s : Session}

/-- Every point that a question is about, and every point in an answer, has an
aligned environment, as far as `key` can tell. -/
lemma aligned_of_trail (hbuilt : w.program.Built) (hthrows : w.arena.throwsAtHome = true)
    {m : Moment Query ConfigSet AnalysisError Diagnostic Env}
    (h : Trail w.equation (resting .empty) (asked.map .ask) m)
    (htop : ∀ q ∈ asked, ∃ kind n, q = .topLevel w.program kind n)
    (hglobals : ∀ n, w.IsGlobal n → m.solver.Touched ⟨.traced, .ofNode n .root⟩ →
      w.arena.depth n = 0)
    (htraceable : ∀ f env, m.solver.Touched ⟨.traced, .ofNode f env⟩ →
      (Terrain.aligned hbuilt hthrows key).traceable f)
    {q : Query} (hkind : q.kind ∈ [.evaluate, .bind, .traced, .applied]) {set : ConfigSet}
    (hset : m.solver.cached q = some set) {c : Config} (hc : c = q.config ∨ c ∈ set) {n : NodeId}
    (hn : c.node? = some n) (hplace : ¬ (w.IsGlobal n ∧ c.env = .root)) :
    c.env.Aligned w.arena key (w.arena.functionsAround n) := by
  have hkept : m.solver.Kept ((Terrain.aligned hbuilt hthrows key).law fun _ => True) := by
    refine Terrain.kept_of_trail h (fun _ _ => trivial) (fun _ _ _ _ _ _ => trivial)
      (fun r hr hasked => ?_) fun r hr => ?_
    · exact Terrain.posed_of_asked hasked (fun n hglobal heq => hglobals n hglobal (heq ▸ hr))
        fun f env heq => htraceable f env (heq ▸ hr)
    · obtain ⟨kind, n, rfl⟩ := htop r hr
      exact Terrain.asked_topLevel kind n
  obtain ⟨i, cell, hi, hcell, rfl⟩ := Solver.exists_of_cached hset
  obtain ⟨hasked, hheld, -⟩ := hkept i q cell hi hcell
  suffices horigin : (Terrain.aligned hbuilt hthrows key).origin c by
    rw [Config.eq_of_node? hn] at horigin
    exact (Terrain.at_of_not_global horigin hplace).fits
  obtain rfl | hc := hc
  · exact Terrain.origin_of_asked hkind hasked
  · exact Terrain.origin_of_found hkind (hheld c hc).1

/-- **Environments are in step with their points.** Take a session that was asked
about points of the program only, where nothing is known about calls; and any
moment of it. Let no function have another one that throws for its body, and let
no global name inside a function be traced. Then the environment of a point has a
context for each function around the point and one more, and a context of any
caller is that of a function at the same level. It is that of the function around
the point, if no function was traced whose name is used away from it. -/
theorem environment_in_step {sources : Sources} {p : Program}
    (hbuild   : Program.build sources = .ok p) {catalogue : Catalogue} {bound : Nat}
    {targets : List NodeId} (h : Reached ⟨p, catalogue, bound, targets⟩ asked s)
    {more : List Query} {m : Moment Query ConfigSet AnalysisError Diagnostic Env}
    (hm       : Trail (World.equation ⟨p, catalogue, bound, targets⟩) (resting s.solver)
      (more.map .ask) m)
    (htop     : ∀ q ∈ asked ++ more, ∃ kind n, q = .topLevel p kind n)
    (hthrows  : p.arena.throwsAtHome = true)
    (hglobals : ∀ n, World.IsGlobal ⟨p, catalogue, bound, targets⟩ n →
      m.solver.Touched ⟨.traced, .ofNode n .root⟩ → p.arena.depth n = 0)
    {q : Query} (hkind : q.kind ∈ [.evaluate, .bind, .traced, .applied]) {set : ConfigSet}
    (hset     : m.solver.cached q = some set) {c : Config} (hc : c = q.config ∨ c ∈ set) {n : NodeId}
    (hn       : c.node? = some n)
    (hplace   : ¬ (World.IsGlobal ⟨p, catalogue, bound, targets⟩ n ∧ c.env = .root)) :
    c.env.depth = p.arena.depth n + 1 ∧
      (∀ (i : Nat) (f : NodeId), c.env.toList[i]? = some (.question f) →
        p.arena.depth f + i + 1 = p.arena.depth n) ∧
      ((∀ f env, m.solver.Touched ⟨.traced, .ofNode f env⟩ → p.usedNearby f = true) →
        ∀ (i : Nat) (f : NodeId), c.env.toList[i]? = some (.question f) →
          (p.arena.functionsAround n)[i]? = some f) := by
  have hbuilt : World.program ⟨p, catalogue, bound, targets⟩ |>.Built :=
    Program.built_of_build hbuild
  have htrail := h.trail.trans hm
  rw [← List.map_append] at htrail
  have hlength := hbuilt.forest.length_functionsAround
  have hlevel := aligned_of_trail hbuilt hthrows htrail htop hglobals
    (fun f _ _ => Terrain.traceable_of_length f) hkind hset hc hn hplace
  refine ⟨by rw [hlevel.depth, hlength], fun i f hf => ?_, fun hnearby i f hf => ?_⟩
  · obtain ⟨hfunction, hkeys⟩ := Context.Rooted.question_iff.mp (hlevel.rooted i _ hf)
    have hkeys := congrArg List.length hkeys
    rw [Arena.functionsWithin_of_function hfunction] at hkeys
    simp only [List.length_map, List.length_drop, List.length_cons, hlength] at hkeys
    have : p.arena.depth n - i = p.arena.depth f + 1 := hkeys
    omega
  · have hexact : c.env.Aligned p.arena id (p.arena.functionsAround n) :=
      aligned_of_trail hbuilt hthrows htrail htop hglobals
        (fun f env hf => Terrain.traceable_of_usedNearby (hnearby f env hf)) hkind hset hc hn hplace
    obtain ⟨hfunction, hdrop⟩ := Context.Rooted.question_iff.mp (hexact.rooted i _ hf)
    rw [List.map_id, List.map_id, Arena.functionsWithin_of_function hfunction] at hdrop
    rw [← List.head?_drop, hdrop]
    rfl

/-- A function inside of another one, each called where it is declared. -/
def nestedFunctions : Sources :=
  [("main", "function outer(x) { function inner() { return x; } return inner(); }\nouter(1);")]

theorem environment_in_step_nestedFunctions :
    ∃ p s, Program.build nestedFunctions = .ok p ∧
      Reached ⟨p, .standard, 1, []⟩ [.topLevel p .evaluate 3] s ∧
      (p.arena.openEnv 3).toList = [.question 6, .question 11, .stackBottom] ∧
      (p.arena.openEnv 3).depth = p.arena.depth 3 + 1 ∧
      (p.arena.functionsAround 3)[0]? = some 6 ∧ (p.arena.functionsAround 3)[1]? = some 11 := by
  obtain ⟨p, s, hbuild, -, hs, hthrows, henv, htraced⟩ :=
    exists_reached nestedFunctions 1 (fun p => [.topLevel p .evaluate 3]) (fun p s =>
      p.arena.throwsAtHome = true ∧
      (p.arena.openEnv 3).toList = [.question 6, .question 11, .stackBottom] ∧
      ∀ q ∈ s.solver.queries.toList, q.kind = .traced → ∀ n ∈ q.config.node?,
        p.arena.depth n = 0 ∧ p.usedNearby n = true) (by decide +kernel)
  have htraced : ∀ n env, s.solver.Touched ⟨.traced, .ofNode n env⟩ →
      p.arena.depth n = 0 ∧ p.usedNearby n = true := by
    rintro n env ⟨i, hi⟩
    exact htraced _ (Array.mem_toList_iff.mpr (Array.mem_of_getElem? hi)) rfl n rfl
  have hrest : Trail (World.equation ⟨p, .standard, 1, []⟩) (resting s.solver)
      (([] : List Query).map .ask) (resting s.solver) := .rest
  have hset := Solver.cached_of_touched hs.sane.1 (hs.touched (.head _))
  obtain ⟨hdepth, -, hexact⟩ := environment_in_step hbuild hs hrest
    (fun q hq => ⟨.evaluate, 3, List.mem_singleton.mp hq⟩) hthrows
    (fun n _ htouched => (htraced n _ htouched).1) (.head _) hset (.inl rfl) rfl fun hglobal => by
      have hroot : (p.arena.openEnv 3).toList = Env.root.toList := congrArg Env.toList hglobal.2
      rw [henv] at hroot
      cases hroot
  have hexact := hexact fun f env hf => (htraced f env hf).2
  refine ⟨p, s, hbuild, hs, henv, hdepth, hexact 0 6 ?_, hexact 1 11 ?_⟩
  · exact congrArg (·[0]?) henv
  · exact congrArg (·[1]?) henv

def calledFromSibling : Sources :=
  [("main", "function a() {}\nfunction b() { a(); }")]

/-- **A function that is traced carries its own unknown callers elsewhere.** Node 4
is the name `a` inside of `b`, and is found with any caller of `a` for the context
of `b`. -/
theorem traced_name_out_of_step :
    ∃ p s c, Program.build calledFromSibling = .ok p ∧
      Reached ⟨p, .standard, 1, []⟩ [.topLevel p .traced 2] s ∧
      c ∈ s.solver.assignment (.topLevel p .traced 2) ∧ c.node? = some 4 ∧
      c.env.toList[0]? = some (.question 2) ∧ p.arena.functionsAround 4 = [8] := by
  obtain ⟨p, s, hbuild, -, hs, hmem, haround⟩ :=
    exists_reached calledFromSibling 1 (fun p => [.topLevel p .traced 2]) (fun p s =>
      (⟨.node 4, ⟨.question 2, [.stackBottom]⟩⟩ : Config) ∈
        s.solver.assignment (.topLevel p .traced 2) ∧ p.arena.functionsAround 4 = [8])
      (by decide +kernel)
  exact ⟨p, s, _, hbuild, hs, hmem, rfl, rfl, haround⟩

end Session

end ValueFlow
