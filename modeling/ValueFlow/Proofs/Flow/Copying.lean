import ValueFlow.Proofs.Equations.Allowance
import ValueFlow.Proofs.Flow.Composition
import ValueFlow.Proofs.Scope.Constants

/-!
# Numbers that are only passed on

In a program of constants nothing is computed: an expression takes its values from other
expressions, and where it leads in the end are numbers. The analysis answers exactly that.

Both directions come from one law of the table. It admits the evaluation of expressions
and the origins of names, both at module level, and lets them hold what the program
accounts for; errors are not admitted. All rules keep to it, so there are no failures and
no other answers, and there are so few queries and values that a drain ends within a
known number of steps. That no answer is missing is read off the rules of a settled table.
-/

namespace ValueFlow

open Moment (resting)

/-! ## Programs that ask for nothing -/

namespace Rhs

variable {Q V E N T α β : Type} {thing : T → Prop} {p : Rhs Q V E N T α} {post : α → Prop}
  {f : α → Rhs Q V E N T β} {D : Q → Prop}

/-- The program only has things numbered. Whatever their numbers are, it comes to a
result that satisfies `post`. -/
def Silent (thing : T → Prop) : Rhs Q V E N T α → (α → Prop) → Prop
  | .done a, post => post a
  | .number t next, post => thing t ∧ ∀ i, (next i).Silent thing post
  | .fail _, _ => False
  | .diverge, _ => False
  | .read _ _, _ => False
  | .push _ _ _, _ => False
  | .note _ _, _ => False

lemma Silent.bind {post' : β → Prop} (hp : p.Silent thing post)
    (hf : ∀ a, post a → (f a).Silent thing post') : (p.bind f).Silent thing post' := by
  induction p with
  | done a => exact hf a hp
  | number t next ih => exact ⟨hp.1, fun i => ih i (hp.2 i)⟩
  | fail | diverge | read | push | note => exact hp.elim

lemma Silent.keeps [Lattice V] {L : Law Q V E T} (hp : p.Silent thing post)
    (hthing : ∀ t, thing t → L.thing t) : p.Keeps L post := by
  induction p with
  | done a => exact hp
  | number t next ih => exact ⟨hthing t hp.1, fun i => ih i (hp.2 i)⟩
  | fail | diverge | read | push | note => exact hp.elim

lemma Silent.confined (hp : p.Silent thing post) : p.Confined D := by
  induction p with
  | done a => trivial
  | number t next ih => exact fun i => ih i (hp.2 i)
  | fail | diverge | read | push | note => exact hp.elim

lemma Silent.of_run (hp : p.Silent thing post) {es : List (Event Q V N T)} {a : α}
    (h : p.Run es (.done a)) : post a := by
  induction p generalizing es with
  | done b =>
    cases h
    exact hp
  | number t next ih =>
    cases h with
    | number h => exact ih _ (hp.2 _) h
  | fail | diverge | read | push | note => exact hp.elim

lemma Confined.bind (hp : p.Confined D) (hf : ∀ a, (f a).Confined D) : (p.bind f).Confined D := by
  induction p with
  | done a => exact hf a
  | fail e => trivial
  | diverge => exact hp.elim
  | read q next ih => exact ⟨hp.1, fun v => ih v (hp.2 v)⟩
  | push q v next ih => exact ⟨hp.1, ih hp.2⟩
  | note n next ih => exact ih hp
  | number t next ih => exact fun i => ih i (hp i)

end Rhs

namespace Rule

variable {thing : Env → Prop} {s : Setting} {α β : Type} {post : α → Prop} {P : Config → Prop}
  {set : ConfigSet}

/-- The rule asks for nothing but numbers of environments. -/
def Silent (thing : Env → Prop) (s : Setting) (r : Rule α) (post : α → Prop) : Prop :=
  (r s).Silent thing post

lemma Silent.bind {r : Rule α} {f : α → Rule β} {post' : β → Prop} (hr : Silent thing s r post)
    (hf : ∀ a, post a → Silent thing s (f a) post') : Silent thing s (r >>= f) post' :=
  Rhs.Silent.bind hr hf

lemma silent_pure {a : α} (h : post a) : Silent thing s (pure a) post := h

lemma silent_known {env : Env} (h : thing env) : Silent thing s (known env) (· = env) :=
  ⟨h, fun _ => rfl⟩

@[simp] lemma silent_bind_arena {f : Arena → Rule α} :
    Silent thing s (arena >>= f) post ↔ Silent thing s (f s.world.arena) post :=
  .rfl

@[simp] lemma silent_bind_scopes {f : Scopes → Rule α} :
    Silent thing s (scopes >>= f) post ↔ Silent thing s (f s.world.program.scopes) post :=
  .rfl

@[simp] lemma silent_bind_formOf {n : NodeId} {f : Form NodeId → Rule α} :
    Silent thing s (formOf n >>= f) post ↔ Silent thing s (f (s.world.arena.form n)) post :=
  .rfl

lemma silent_unionOf {f : α → Rule ConfigSet} (items : List α)
    (hf : ∀ a ∈ items, Silent thing s (f a) (ConfigSet.All P)) :
    Silent thing s (unionOf items f) (ConfigSet.All P) := by
  unfold unionOf
  have hloop : ∀ start : ConfigSet, start.All P → Silent thing s
      (items.foldlM (fun set item => do return set ∪ (← f item)) start) (ConfigSet.All P) := by
    induction items with
    | nil => exact fun start hstart => silent_pure hstart
    | cons a items ih =>
      intro start hstart
      obtain ⟨ha, hitems⟩ := List.forall_mem_cons.mp hf
      rw [List.foldlM_cons]
      exact (ha.bind fun part hpart => silent_pure (hstart.union hpart)).bind (ih hitems)
  exact hloop .empty .empty

/-- A set is put in order without asking. -/
lemma silent_inOrder (hset : ∀ c ∈ set, thing c.env) :
    Silent thing s (inOrder set) fun items => ∀ c ∈ items, c ∈ set := by
  have hnumbered : ∀ items : List Config, (∀ c ∈ items, thing c.env) → Silent thing s
      (items.mapM fun c => do return ((c.cursor.key, ← numberOf c.env), c))
      fun numbered => numbered.map (·.2) = items := by
    intro items
    induction items with
    | nil => exact fun _ => silent_pure rfl
    | cons c items ih =>
      intro hitems
      obtain ⟨hc, hitems⟩ := List.forall_mem_cons.mp hitems
      rw [List.mapM_cons]
      have hfirst : Silent thing s (do return ((c.cursor.key, ← numberOf c.env), c))
          fun first => first.2 = c := ⟨hc, fun _ => rfl⟩
      refine hfirst.bind fun first hfirst => (ih hitems).bind fun rest hrest => silent_pure ?_
      rw [List.map_cons, hfirst, hrest]
  refine (hnumbered set.elems hset).bind fun numbered hsame => silent_pure fun c hc => ?_
  rwa [((sortBy_perm _ numbered).map (·.2)).mem_iff, hsame] at hc

/-- A loop that evaluates what it is given, one after the other. -/
lemma keeps_evaluateAll_of_law {L : Law Query ConfigSet AnalysisError Env}
    (hset : ∀ c ∈ set, L.thing c.env ∧ L.query ⟨.evaluate, c⟩ ∧
      ∀ part, L.given ⟨.evaluate, c⟩ part → part.All P) :
    (evaluateAll set s).Keeps L (ConfigSet.All P) := by
  have hloop : ∀ items : List Config, (∀ c ∈ items, c ∈ set) → ∀ start : ConfigSet, start.All P →
      (items.foldlM (fun set item => do return set ∪ (← ask .evaluate item)) start s).Keeps L
        (ConfigSet.All P) := by
    intro items
    induction items with
    | nil => exact fun _ start hstart => hstart
    | cons c items ih =>
      intro hitems start hstart
      obtain ⟨hc, hitems⟩ := List.forall_mem_cons.mp hitems
      obtain ⟨-, hquery, hpart⟩ := hset c hc
      rw [List.foldlM_cons]
      exact ⟨hquery, fun part hgiven => ih hitems _ (hstart.union (hpart part hgiven))⟩
  have horder : Silent L.thing s (inOrder set) _ := silent_inOrder fun c hc => (hset c hc).1
  exact Rhs.keeps_bind (horder.keeps fun _ ht => ht) fun items hitems =>
    hloop items hitems .empty .empty

lemma confined_evaluateAll (set : ConfigSet) :
    (evaluateAll set s).Confined fun _ => True := by
  have hloop : ∀ (items : List Config) (start : ConfigSet),
      (items.foldlM (fun set item => do return set ∪ (← ask .evaluate item)) start s).Confined
        fun _ => True := by
    intro items
    induction items with
    | nil => exact fun start => trivial
    | cons c items ih =>
      intro start
      rw [List.foldlM_cons]
      exact ⟨trivial, fun part => ih (start ∪ part)⟩
  have horder : Silent (fun _ => True) s (inOrder set) _ := silent_inOrder fun _ _ => trivial
  exact horder.confined.bind fun items => hloop items .empty

end Rule

/-! ## The rules -/

namespace Rule

variable {perform : Meaning} {w : World} (h : w.program.Copying) {n : NodeId}
include h

lemma silent_envAt (n : NodeId) : Silent (· = .root) ⟨w, []⟩ (envAt n .root) (· = .root) := by
  unfold envAt
  rw [silent_bind_arena, h.around_eq_nil h.built.forest]
  exact silent_known rfl

lemma silent_scopeEnv (n : NodeId) :
    Silent (· = .root) ⟨w, []⟩ (scopeEnv n .root) (· = .root) := by
  unfold scopeEnv
  rw [silent_bind_arena, h.within_eq_nil h.built.forest]
  exact silent_known rfl

/-- The variable of a constant comes from what it is initialized with. -/
lemma silent_bindingOrigins {b d init : NodeId}
    (hparent : w.arena.parent? b = some d)
    (hd : w.arena.form d = .declarator b (some init)) :
    Silent (· = .root) ⟨w, []⟩ (bindingOrigins perform b .root) (· = .ofNode init .root) := by
  have horigins : Silent (· = .root) ⟨w, []⟩ (rootOrigins perform b b d .root)
      (· = .ofNode init .root) := by
    unfold rootOrigins
    rw [silent_bind_formOf, hd]
    dsimp only
    rw [if_neg (not_not_intro rfl)]
    exact (silent_envAt h init).bind fun env henv => silent_pure (by rw [henv])
  unfold bindingOrigins
  rw [silent_bind_arena, h.patternRoot_eq h.built.forest]
  dsimp only
  rw [hparent]
  exact horigins.bind fun _ heq => silent_pure heq

/-- Nothing is stored in a constant later. -/
lemma silent_mutationOrigins (perform : Meaning) (reference : NodeId) (env : Env) :
    Silent (· = .root) ⟨w, []⟩ (mutationOrigins perform reference env)
      (ConfigSet.All fun _ => False) := by
  unfold mutationOrigins
  rw [silent_bind_arena, h.patternRoot_eq h.built.forest]
  dsimp only
  cases hparent : w.arena.parent? reference with
  | none => exact silent_pure .empty
  | some parent =>
    have hcopying := h.isCopying_of_lt (h.built.forest.lt_size_of_parent hparent)
    rw [Option.map_some]
    unfold Arena.isCopying at hcopying
    -- no construct of such a program assigns
    split at hcopying
    case h_9 => cases hcopying
    all_goals next hform =>
      rw [hform]
      exact silent_pure .empty

/-- **The origin of a name is what its constant is initialized with.** -/
theorem silent_bind {name : Symbol} (hn : w.arena.form n = .identifier name) :
    Silent (· = .root) ⟨w, []⟩ (bind perform (.ofNode n .root)) fun set =>
      ∀ c, c ∈ set ↔ ∃ m, w.arena.CopiesFrom n m ∧ c = .ofNode m .root := by
  obtain ⟨id, hid, hbinding⟩ := h.symbolAt_identifier hn
  obtain ⟨d, init, hparent, hd, hinit⟩ := h.declarator_of_binding hbinding
  unfold Rule.bind
  dsimp only [Config.node?, Config.ofNode, Cursor.node?]
  rw [silent_bind_scopes, hid]
  refine (silent_scopeEnv h _).bind fun env henv => ?_
  subst henv
  refine (silent_bindingOrigins h hparent hd).bind fun start hstart => ?_
  have hstored := silent_unionOf (s := ⟨w, []⟩) (w.program.scopes.referencesOf id)
    fun reference _ => (silent_envAt h reference).bind fun env _ =>
      silent_mutationOrigins h perform reference env
  refine hstored.bind fun stored hnone => silent_pure fun c => ?_
  rw [PowerSet.mem_union, hstart]
  constructor
  · rintro (hc | hc)
    · exact ⟨init, .initializer hn hinit, PowerSet.mem_singleton.mp hc⟩
    · exact (hnone c hc).elim
  · rintro ⟨m, hnm, rfl⟩
    rw [h.eq_of_mem_constants ((Arena.copiesFrom_identifier hn).mp hnm) hinit]
    exact .inl (PowerSet.mem_singleton.mpr rfl)

omit h in
lemma run_scopes {α : Type} {f : Scopes → Rule α} {visiting : List Visit} :
    (scopes >>= f) ⟨w, visiting⟩ = f w.program.scopes ⟨w, visiting⟩ :=
  rfl

omit h in
lemma evaluate_number {text : Symbol} (hn : w.arena.form n = .number text) :
    evaluate perform (.ofNode n .root) ⟨w, []⟩ = .done (.ofNode n .root) := by
  change evaluateNode perform n .root ⟨w, []⟩ = _
  unfold evaluateNode
  rw [run_formOf, hn]
  rfl

/-- The rule of an expression: a number is its own value, a conditional and a logical
operator look at two expressions, a name at its origins. -/
lemma evaluate_cases (perform : Meaning) (hn : (w.arena.form n).isCopy = true) :
    (∃ text, w.arena.form n = .number text ∧
      evaluate perform (.ofNode n .root) ⟨w, []⟩ = .done (.ofNode n .root)) ∨
    (∃ first second, w.arena.CopiesFrom n first ∧ w.arena.CopiesFrom n second ∧
      evaluate perform (.ofNode n .root) ⟨w, []⟩ =
        .read ⟨.evaluate, .ofNode first .root⟩ fun found =>
          .read ⟨.evaluate, .ofNode second .root⟩ fun others => .done (found ∪ others)) ∨
    ∃ name, w.arena.form n = .identifier name ∧
      evaluate perform (.ofNode n .root) ⟨w, []⟩ =
        .read ⟨.bind, .ofNode n .root⟩ fun origins => evaluateAll origins ⟨w, []⟩ := by
  have heval : evaluate perform (.ofNode n .root) ⟨w, []⟩ =
      evaluateNode perform n .root ⟨w, []⟩ := rfl
  unfold evaluateNode at heval
  rw [run_formOf] at heval
  rw [heval]
  unfold Form.isCopy at hn
  split at hn
  · next text hform =>
    rw [hform]
    exact .inl ⟨text, rfl, rfl⟩
  · next name hform =>
    obtain ⟨id, hid, -⟩ := h.symbolAt_identifier hform
    rw [hform]
    refine .inr (.inr ⟨name, rfl, ?_⟩)
    change nameValues n .root ⟨w, []⟩ = _
    unfold nameValues
    rw [run_scopes, hid, Option.isSome_some, if_pos rfl]
    rfl
  · next lhs rhs hform =>
    rw [hform]
    exact .inr (.inl ⟨lhs, rhs, .left hform, .right hform, rfl⟩)
  · next consequent alternative hform =>
    rw [hform]
    exact .inr (.inl ⟨consequent, alternative, .consequent hform, .alternative hform, rfl⟩)
  · cases hn

end Rule

/-! ## The law -/

namespace Arena

variable (a : Arena)

def Copies (n m : NodeId) : Prop :=
  Relation.ReflTransGen a.CopiesFrom n m ∧ ∃ text, a.form m = .number text

/-- What is asked about a program of constants, at module level: what an expression
evaluates to, and where the values of a name come from. -/
def CopyQuery : Query → Prop
  | ⟨.evaluate, config⟩ => ∃ n, config = .ofNode n .root ∧ (a.form n).isCopy = true
  | ⟨.bind, config⟩ => ∃ n name, config = .ofNode n .root ∧ a.form n = .identifier name
  | _ => False

/-- What an answer may hold. -/
def CopyAnswer : Query → Config → Prop
  | ⟨.evaluate, config⟩, c => ∃ n m, config = .ofNode n .root ∧ c = .ofNode m .root ∧ a.Copies n m
  | ⟨.bind, config⟩, c => ∃ n m, config = .ofNode n .root ∧ c = .ofNode m .root ∧ a.CopiesFrom n m
  | _, _ => False

/-- Nothing fails, and only the module level is known. -/
def copyLaw : Law Query ConfigSet AnalysisError Env :=
  .ofMembers a.CopyQuery a.CopyAnswer (fun _ => False) (· = .root)

/-- All the queries that may be asked. -/
def copyQueries : List Query :=
  a.nodeIds.flatMap fun n => [⟨.evaluate, .ofNode n .root⟩, ⟨.bind, .ofNode n .root⟩]

lemma length_copyQueries : a.copyQueries.length = 2 * a.size := by
  simp [copyQueries, nodeIds, Nat.mul_comm]

end Arena

namespace Program.Copying

section Law

variable {p : Program} (h : p.Copying)
include h

lemma exists_of_copyAnswer {q : Query} {c : Config} (hc : p.arena.CopyAnswer q c) :
    ∃ m < p.arena.size, c = .ofNode m .root := by
  obtain ⟨kind, config⟩ := q
  cases kind with
  | evaluate =>
    obtain ⟨n, m, -, rfl, -, text, hm⟩ := hc
    exact ⟨m, Arena.lt_size_of_form (by simp [hm]), rfl⟩
  | bind =>
    obtain ⟨n, m, -, rfl, hnm⟩ := hc
    exact ⟨m, Arena.lt_size_of_isCopy (h.isCopy_of_copiesFrom hnm), rfl⟩
  | applied | traced | callers | entered => cases hc

lemma bounded : p.arena.copyLaw.Bounded p.arena.copyQueries p.arena.size PowerSet.size where
  query q hq := by
    obtain ⟨kind, config⟩ := q
    cases kind with
    | evaluate =>
      obtain ⟨n, rfl, hn⟩ := hq
      have hmem : n ∈ p.arena.nodeIds := List.mem_range.mpr (Arena.lt_size_of_isCopy hn)
      exact List.mem_flatMap.mpr ⟨n, hmem, .head _⟩
    | bind =>
      obtain ⟨n, name, rfl, hn⟩ := hq
      have hmem : n ∈ p.arena.nodeIds := List.mem_range.mpr (Arena.lt_size_of_form (by simp [hn]))
      exact List.mem_flatMap.mpr ⟨n, hmem, .tail _ (.head _)⟩
    | applied | traced | callers | entered => cases hq
  held q set hset := by
    have hsub : ∀ c ∈ set, c ∈ p.arena.nodeIds.map (Config.ofNode · .root) := by
      intro c hc
      obtain ⟨m, hm, rfl⟩ := h.exists_of_copyAnswer (hset c hc)
      exact List.mem_map_of_mem (List.mem_range.mpr hm)
    have hsize := PowerSet.size_le_of_subset hsub
    rwa [List.length_map, Arena.nodeIds, List.length_range] at hsize
  mono _ _ := PowerSet.size_le_size
  grows _ _ := PowerSet.size_lt_size

end Law

section Equations

variable {w : World} (h : w.program.Copying) {perform : Meaning} {n : NodeId}

/-- At module level there is nothing to refine. -/
lemma equation_eq {kind : QueryKind} (hkind : kind = .evaluate ∨ kind = .bind) (n : NodeId) :
    w.equation ⟨kind, .ofNode n .root⟩ =
      (Rule.answer (Rule.meaning w.depthLimit) kind (.ofNode n .root) ⟨w, []⟩).bind
        fun own => .done (own ∪ .empty) := by
  obtain rfl | rfl := hkind <;> rfl

include h

lemma keeps_evaluate (hn : (w.arena.form n).isCopy = true) :
    (Rule.evaluate perform (.ofNode n .root) ⟨w, []⟩).Keeps w.arena.copyLaw
      (ConfigSet.All (w.arena.CopyAnswer ⟨.evaluate, .ofNode n .root⟩)) := by
  -- what is found one step further is found here
  have hstep : ∀ {m}, w.arena.CopiesFrom n m → ∀ part,
      w.arena.copyLaw.given ⟨.evaluate, .ofNode m .root⟩ part →
        part.All (w.arena.CopyAnswer ⟨.evaluate, .ofNode n .root⟩) := by
    rintro m hnm part hpart c hc
    obtain ⟨_, k, ⟨⟩, rfl, hreach, hnumber⟩ := hpart c hc
    exact ⟨n, k, rfl, rfl, .head hnm hreach, hnumber⟩
  have hquery : ∀ {m}, w.arena.CopiesFrom n m →
      w.arena.copyLaw.query ⟨.evaluate, .ofNode m .root⟩ :=
    fun hnm => ⟨_, rfl, h.isCopy_of_copiesFrom hnm⟩
  rcases Rule.evaluate_cases h perform hn with
    ⟨text, hform, heq⟩ | ⟨first, second, hfirst, hsecond, heq⟩ | ⟨name, hform, heq⟩
  · rw [heq]
    exact .singleton ⟨n, n, rfl, rfl, .refl, text, hform⟩
  · rw [heq]
    refine ⟨hquery hfirst, fun found hfound => ⟨hquery hsecond, fun others hothers => ?_⟩⟩
    exact (hstep hfirst found hfound).union (hstep hsecond others hothers)
  · rw [heq]
    refine ⟨⟨n, name, rfl, hform⟩, fun origins horigins => ?_⟩
    refine Rule.keeps_evaluateAll_of_law fun o ho => ?_
    obtain ⟨_, m, ⟨⟩, rfl, hnm⟩ := horigins o ho
    exact ⟨rfl, hquery hnm, hstep hnm⟩

lemma keeps_bind {name : Symbol} (hn : w.arena.form n = .identifier name) :
    (Rule.bind perform (.ofNode n .root) ⟨w, []⟩).Keeps w.arena.copyLaw
      (ConfigSet.All (w.arena.CopyAnswer ⟨.bind, .ofNode n .root⟩)) := by
  have hkeeps : (Rule.bind perform (.ofNode n .root) ⟨w, []⟩).Keeps w.arena.copyLaw _ :=
    Rhs.Silent.keeps (Rule.silent_bind h hn) fun _ ht => ht
  refine hkeeps.imp fun set hset c hc => ?_
  obtain ⟨m, hnm, rfl⟩ := (hset c).mp hc
  exact ⟨n, m, rfl, rfl, hnm⟩

lemma confined_evaluate (hn : (w.arena.form n).isCopy = true) :
    (Rule.evaluate perform (.ofNode n .root) ⟨w, []⟩).Confined fun _ => True := by
  rcases Rule.evaluate_cases h perform hn with ⟨_, -, heq⟩ | ⟨_, _, -, -, heq⟩ | ⟨_, -, heq⟩
  · rw [heq]
    trivial
  · rw [heq]
    exact ⟨trivial, fun _ => ⟨trivial, fun _ => trivial⟩⟩
  · rw [heq]
    exact ⟨trivial, fun origins => Rule.confined_evaluateAll origins⟩

/-- **All right-hand sides keep to the law and end.** -/
theorem equation_spec {q : Query} (hq : w.arena.CopyQuery q) :
    (w.equation q).Keeps w.arena.copyLaw (w.arena.copyLaw.held q) ∧
      (w.equation q).Confined fun _ => True := by
  have hjoined : ∀ {P : Config → Prop} {own : ConfigSet}, own.All P → (own ∪ .empty).All P :=
    fun hown => hown.union .empty
  obtain ⟨kind, config⟩ := q
  cases kind with
  | evaluate =>
    obtain ⟨n, rfl, hn⟩ := hq
    rw [equation_eq (.inl rfl)]
    exact ⟨Rhs.keeps_bind (h.keeps_evaluate hn) fun _ => hjoined,
      (h.confined_evaluate hn).bind fun _ => trivial⟩
  | bind =>
    obtain ⟨n, name, rfl, hn⟩ := hq
    rw [equation_eq (.inr rfl)]
    exact ⟨Rhs.keeps_bind (h.keeps_bind hn) fun _ => hjoined,
      Rhs.Confined.bind (Rhs.Silent.confined (Rule.silent_bind h hn)) fun _ => trivial⟩
  | applied | traced | callers | entered => cases hq

end Equations

/-! ## Settled tables -/

section Settled

variable {w : World} {s : FlowSolver} (h : w.program.Copying)
  (hs : Solver.Sane w.equation (resting s)) (hempty : s.worklist.toList = [])
  (hkept : s.Kept w.arena.copyLaw) {set : ConfigSet} {n : NodeId} {m : NodeId}
include hs hempty hkept

/-- The rule of a query in the table, run on the table, finds part of the answer. -/
lemma comes_answer {q : Query} (hset : s.cached q = some set) :
    ∃ own, Rule.Comes s.Supports ⟨w, []⟩
      (Rule.answer (Rule.meaning w.depthLimit) q.kind q.config) own ∧ ∀ c ∈ own, c ∈ set := by
  have hok := hkept.failure_eq_none (fun _ herror => herror) q
  obtain ⟨part, hsolve, hpart⟩ := Solver.supports_solve hs hempty hset hok
  obtain ⟨own, hown, hsub⟩ := hsolve.answer_of_solve
  exact ⟨own, hown, fun c hc => hpart c (hsub c hc)⟩

include h

/-- What an expression takes its values from is answered with it. -/
lemma cached_of_copiesFrom (hnm : w.arena.CopiesFrom n m)
    (hset : s.cached ⟨.evaluate, .ofNode n .root⟩ = some set) :
    ∃ part, s.cached ⟨.evaluate, .ofNode m .root⟩ = some part ∧ ∀ c ∈ part, c ∈ set := by
  obtain ⟨own, hown, hsub⟩ := comes_answer hs hempty hkept hset
  have hread : ∀ {part}, s.Supports (.read ⟨.evaluate, .ofNode m .root⟩ part) →
      (∀ c ∈ part, c ∈ own) →
      ∃ part, s.cached ⟨.evaluate, .ofNode m .root⟩ = some part ∧ ∀ c ∈ part, c ∈ set :=
    fun hpart hpartsub => ⟨_, hpart.1, fun c hc => hsub c (hpartsub c hc)⟩
  cases hnm with
  | consequent hform | alternative hform | left hform | right hform =>
    obtain ⟨part, hpart, hpartsub⟩ :=
      (Rule.Comes.alternatives hown (congrArg Form.alternatives? hform)).every _ ⟨m, by simp, rfl⟩
    exact hread hpart hpartsub
  | initializer hform hinit =>
    obtain ⟨id, hid, -⟩ := h.symbolAt_identifier hform
    obtain ⟨origins, horigins, hparts⟩ := Rule.Comes.origins hown hform (by rw [hid]; rfl)
    -- the origin is there because the rule of the origins asks for nothing
    obtain ⟨found, ⟨es, hrun, -⟩, hfound⟩ := comes_answer hs hempty hkept horigins.1
    have hmem := (Rhs.Silent.of_run (Rule.silent_bind h hform) hrun _).mpr
      ⟨m, .initializer hform hinit, rfl⟩
    obtain ⟨part, hpart, hpartsub⟩ := hparts.every _ (hfound _ hmem)
    exact hread hpart hpartsub

/-- **Nothing is missing**: a number that an expression can be traced back to is in its
answer. -/
theorem mem_of_copies (hnm : w.arena.Copies n m)
    (hset : s.cached ⟨.evaluate, .ofNode n .root⟩ = some set) : .ofNode m .root ∈ set := by
  obtain ⟨hreach, text, hm⟩ := hnm
  induction hreach using Relation.ReflTransGen.head_induction_on generalizing set with
  | refl =>
    obtain ⟨own, ⟨es, hrun, -⟩, hsub⟩ := comes_answer hs hempty hkept hset
    change (Rule.evaluate _ (.ofNode m .root) ⟨w, []⟩).Run es (.done own) at hrun
    rw [Rule.evaluate_number hm] at hrun
    obtain ⟨-, rfl⟩ := Rhs.run_done hrun
    exact hsub _ (PowerSet.mem_singleton.mpr rfl)
  | head hstep _ ih =>
    obtain ⟨part, hpart, hsub⟩ := h.cached_of_copiesFrom hs hempty hkept hstep hset
    exact hsub _ (ih hpart)

/-- The answer of an expression in the table. -/
lemma mem_answer_iff (hset : s.cached ⟨.evaluate, .ofNode n .root⟩ = some set) {c : Config} :
    c ∈ set ↔ ∃ m, w.arena.Copies n m ∧ c = .ofNode m .root := by
  constructor
  · intro hc
    obtain ⟨i, cell, hi, hcell, rfl⟩ := Solver.exists_of_cached hset
    obtain ⟨_, m, ⟨⟩, rfl, hnm⟩ := (hkept i _ cell hi hcell).2.1 c hc
    exact ⟨m, hnm, rfl⟩
  · rintro ⟨m, hnm, rfl⟩
    exact h.mem_of_copies hs hempty hkept hnm hset

end Settled

lemma openEnv_eq {p : Program} (h : p.Copying) (n : NodeId) : p.arena.openEnv n = .root := by
  rw [Arena.openEnv, h.around_eq_nil h.built.forest]
  rfl

/-- A drain ends within a number of steps that the size of the program bounds. -/
lemma exists_drains {w : World} (h : w.program.Copying) {s : FlowSolver}
    (hs : Solver.Sane w.equation (resting s)) (hkept : s.Kept w.arena.copyLaw) :
    ∃ steps t, steps ≤ 2 * w.arena.size * (w.arena.size + 1) *
        (2 * w.arena.size + 1) + 2 * w.arena.size ∧
      Solver.Drains w.equation s steps t := by
  obtain ⟨steps, t, hsteps, hdrains⟩ := Solver.exists_drains_within h.bounded
    (fun q hq => (h.equation_spec hq).1) (fun _ _ hheld => hheld)
    (fun q hq => (h.equation_spec hq).2) hs hkept
  have hwork := Solver.workLeft_le h.bounded hs.coherent hkept
  rw [Arena.length_copyQueries] at hsteps hwork
  exact ⟨steps, t, hsteps.trans hwork, hdrains⟩

end Program.Copying

/-! ## The answers -/

namespace Session

variable {s : Session}

/-- A session that is only asked to evaluate expressions keeps to the law. -/
lemma Reached.kept_copyLaw {w : World} (h : w.program.Copying) {asked : List NodeId}
    (hs     : Reached w (asked.map fun n => ⟨.evaluate, .ofNode n (w.arena.openEnv n)⟩) s)
    (hasked : ∀ n ∈ asked, (w.arena.form n).isCopy = true) :
    s.solver.Kept w.arena.copyLaw := by
  refine Solver.kept_of_trail hs.trail (fun q hq _ => (h.equation_spec hq).1)
    (fun _ _ hheld _ => hheld) (fun q hq => ?_) fun q v hv => ?_
  · obtain ⟨_, hmem, ⟨⟩⟩ := List.mem_map.mp hq
    obtain ⟨n, hn, rfl⟩ := List.mem_map.mp hmem
    exact ⟨n, by rw [h.openEnv_eq], hasked n hn⟩
  · -- nothing is told
    obtain ⟨_, -, hcall⟩ := List.mem_map.mp hv
    cases hcall

lemma solve_of_drains {q : Query} {steps : Nat} {t : FlowSolver}
    (h : Solver.Drains s.world.equation (s.solver.touch q).2 steps t) :
    s.solve q = if steps ≤ Solver.ample
      then some (t.current (s.solver.touch q).1, { s with solver := t }) else none := by
  unfold solve Solver.valueOf
  dsimp only
  rw [h Solver.ample]
  split <;> rfl

/-- **The analysis is exact on programs of constants.** Let expressions of such a program
be evaluated at top level, whatever the bound on contexts is. Then every expression is
answered: the drain ends after a number of steps that the size of the program bounds, and
the values of the expression are exactly the numbers it can be traced back to, going from
a conditional to its branches, from a logical operator to its operands and from a name to
what its constant is initialized with. If there are none, it has no values. -/
theorem evaluate_constants_exact {sources : Sources} {p : Program}
    (hbuild : Program.build sources = .ok p) (hp : p.arena.Copying) {catalogue : Catalogue}
    {bound : Nat} {targets asked : List NodeId} {s : Session}
    (hs     : Reached ⟨p, catalogue, bound, targets⟩
      (asked.map fun n => ⟨.evaluate, .ofNode n (p.arena.openEnv n)⟩) s)
    (hasked : ∀ n ∈ asked, (p.arena.form n).isCopy = true) {e : NodeId}
    (he     : (p.arena.form e).isCopy = true) :
    let q : Query := ⟨.evaluate, (s.topLevel e).1⟩
    let opened := (s.topLevel e).2
    ∃ steps set t,
      steps ≤ 2 * p.arena.size * (p.arena.size + 1) * (2 * p.arena.size + 1) + 2 * p.arena.size ∧
      Solver.Drains opened.world.equation (opened.solver.touch q).2 steps t.solver ∧
      t.solver.current (opened.solver.touch q).1 = .ok set ∧
      opened.solve q = (if steps ≤ Solver.ample then some (.ok set, t) else none) ∧
      ∀ c, c ∈ set ↔ ∃ m, p.arena.Copies e m ∧ c = .ofNode m .root := by
  intro q opened
  have h : p.Copying := ⟨hp, Program.built_of_build hbuild,
    (Program.built_of_build hbuild).parsed.covered⟩
  have hopened : Reached ⟨p, catalogue, bound, targets⟩ _ opened := hs.known _
  have hworld : opened.world = ⟨p, catalogue, bound, targets⟩ := hopened.world_eq
  have hconfig : q = ⟨.evaluate, .ofNode e .root⟩ := by
    rw [← h.openEnv_eq e, ← show s.world.program = p by rw [hs.world_eq]]
    rfl
  clear_value q opened
  subst hconfig
  rw [hworld]
  -- asking keeps to the law, and so does the drain
  have hsane := hopened.sane
  have htouched := Solver.sane_move (Move.ask _ ⟨.evaluate, .ofNode e .root⟩) hsane
  have hquery : p.arena.copyLaw.query ⟨.evaluate, .ofNode e .root⟩ := ⟨e, rfl, he⟩
  have hkept := (hopened.kept_copyLaw h hasked).touch hsane.1 hquery
  obtain ⟨steps, t, hsteps, hdrains⟩ := h.exists_drains htouched hkept
  have hdrain := (hdrains steps).trans (if_pos le_rfl)
  obtain ⟨ht, hkeptAt⟩ := Solver.keptAt_course (fun q hq => (h.equation_spec hq).1)
    (fun _ _ hheld => hheld) (Solver.course_drain hdrain) htouched hkept
  obtain ⟨hcurrent, hmem⟩ := Solver.current_of_drain hsane hdrain
  rw [Solver.answer_of_touched ht.1 (Solver.Kept.failure_eq_none hkeptAt (fun _ => id) _) hmem]
    at hcurrent
  refine ⟨steps, _, { opened with solver := t }, hsteps, hdrains, hcurrent, ?_, fun c => ?_⟩
  · rw [solve_of_drains (hworld ▸ hdrains), hcurrent]
  · exact h.mem_answer_iff ht (Solver.toList_of_drain hdrain) hkeptAt
      (Solver.cached_of_touched ht.1 hmem)

/-- Constants of which two are defined by each other. -/
def cyclicConstants : Sources :=
  [("main", "const a = b ? 1 : (c || 2);\nconst b = c;\nconst c = b ?? b;")]

theorem evaluate_constants_exact_cycle :
    ∃ p s set t, Program.build cyclicConstants = .ok p ∧ p.arena.Copying ∧
      Reached ⟨p, .standard, 1, []⟩
        ([10].map fun n => ⟨.evaluate, .ofNode n (p.arena.openEnv n)⟩) s ∧
      p.arena.form 10 = .identifier 3 ∧ p.arena.form 6 = .conditional 1 2 5 ∧
      (s.topLevel 6).2.solve ⟨.evaluate, (s.topLevel 6).1⟩ = some (.ok set, t) ∧
      (∀ c, c ∈ set ↔ ∃ m, p.arena.Copies 6 m ∧ c = .ofNode m .root) ∧
      .ofNode 2 .root ∈ set := by
  obtain ⟨p, s, hbuild, -, hs, hp, hsize, hname, hchoice, hnumber⟩ :=
    exists_reached cyclicConstants 1
      (fun p => [10].map fun n => ⟨.evaluate, .ofNode n (p.arena.openEnv n)⟩) (fun p _ =>
      p.arena.Copying ∧ p.arena.size = 20 ∧ p.arena.form 10 = .identifier 3 ∧
      p.arena.form 6 = .conditional 1 2 5 ∧ p.arena.form 2 = .number 2) (by decide +kernel)
  obtain ⟨steps, set, t, hsteps, -, -, hsolve, hset⟩ :=
    evaluate_constants_exact hbuild hp hs (by simp [hname, Form.isCopy])
      (show (p.arena.form 6).isCopy = true by rw [hchoice]; rfl)
  rw [hsize] at hsteps
  rw [if_pos (hsteps.trans (by decide))] at hsolve
  have hcopies : p.arena.Copies 6 2 := ⟨.single (.consequent hchoice), 2, hnumber⟩
  exact ⟨p, s, set, t, hbuild, hp, hs, hname, hchoice, hsolve, hset, (hset _).mpr ⟨2, hcopies, rfl⟩⟩

end Session

end ValueFlow
