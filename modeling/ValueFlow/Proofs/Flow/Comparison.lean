import ValueFlow.Proofs.Flow.Awaiting
import ValueFlow.Proofs.Flow.Terrain

/-!
# Comparing runs of the rules

There is more than one thing to say of all rules: that they ask and find only what
has its place, that they find less where they read less, that they find the same
however deep their operations may nest. Each of them compares two runs of a rule. A
`Comparison` says how runs compare, and that they do for each request and each loop
that rules are built from. Then they do for every rule, by one argument about the rule.

Most comparisons are of runs that find the same. Where one side finds less than the
other, the two go through different lists and may take different branches; only then
has a comparison to say more about loops.

Here are the requests, the loops, and the rules that the other rules share.
-/

namespace ValueFlow

/-! ## Parts of sets and lists -/

/-- The elements of `a` are among those of `b`, which satisfy `p`. If `same` holds, `b`
has no others. -/
structure Below {γ δ : Type} [Membership δ γ] (same : Prop) (p : δ → Prop) (a b : γ) : Prop where
  eq     : same → a = b
  subset : ∀ c ∈ a, c ∈ b
  all    : ∀ c ∈ b, p c

namespace Below

section General

variable {γ δ : Type} [Membership δ γ] {same same' : Prop} {p p' : δ → Prop} {a b a' b' : γ}

lemma refl (h : ∀ c ∈ a, p c) : Below same p a a := ⟨fun _ => rfl, fun _ hc => hc, h⟩

lemma right (h : Below same p a b) : Below same p b b := refl h.all

lemma imp (h : Below same p a b) (hp : ∀ c, p c → p' c) : Below same p' a b :=
  ⟨h.eq, h.subset, fun c hc => hp c (h.all c hc)⟩

lemma of_same (h : Below same p a b) (hsame : same' → same) : Below same' p a b :=
  ⟨fun h' => h.eq (hsame h'), h.subset, h.all⟩

/-- What is made of both in the same way. -/
lemma image {γ' δ' : Type} [Membership δ' γ'] {q : δ' → Prop} {f : γ → γ'}
    (h : Below same p a b) (hf : ∀ a b : γ, (∀ c ∈ a, c ∈ b) → ∀ d ∈ f a, d ∈ f b)
    (hq : ∀ d ∈ f b, q d) : Below same q (f a) (f b) :=
  ⟨fun hsame => congrArg f (h.eq hsame), hf a b h.subset, hq⟩

lemma add {add : γ → γ → γ} (hadd : ∀ x y d, d ∈ add x y ↔ d ∈ x ∨ d ∈ y)
    (h : Below same p a b) (h' : Below same p a' b') : Below same p (add a a') (add b b') where
  eq hsame := by rw [h.eq hsame, h'.eq hsame]
  subset c hc := (hadd _ _ c).mpr (((hadd _ _ c).mp hc).imp (h.subset c) (h'.subset c))
  all c hc := ((hadd _ _ c).mp hc).elim (h.all c) (h'.all c)

end General

section Sets

variable {same : Prop} {p : Config → Prop} {a b a' b' : ConfigSet} {c : Config}

lemma empty : Below same p (.empty : ConfigSet) .empty := refl ConfigSet.All.empty

lemma singleton (hc : p c) : Below same p (.singleton c : ConfigSet) (.singleton c) :=
  refl (ConfigSet.All.singleton hc)

lemma union (h : Below same p a b) (h' : Below same p a' b') :
    Below same p (a ∪ a') (b ∪ b') :=
  h.add (fun _ _ _ => PowerSet.mem_union) h'

lemma insert (h : Below same p a b) (hc : p c) : Below same p (a.insert c) (b.insert c) := by
  refine h.image (f := fun set : ConfigSet => set.insert c) (fun a b hsub d hd => ?_) ?_
  · exact PowerSet.mem_insert.mpr ((PowerSet.mem_insert.mp hd).imp_left (hsub d))
  · exact ConfigSet.All.insert h.all hc

/-- What is added to a set that may be missing. -/
lemma addTo {found found' : Option ConfigSet} (h : Below same p a b)
    (hfound : Option.Rel (Below same p) found found') :
    Below same p (found.getD .empty ∪ a) (found'.getD .empty ∪ b) := by
  cases hfound with
  | some hfound => exact union hfound h
  | none => exact empty.union h

end Sets

section Lists

variable {α β : Type} {same : Prop} {p : α → Prop} {q : β → Prop} {items items' : List α}

lemma nil : Below same p ([] : List α) [] := refl fun _ hc => absurd hc List.not_mem_nil

lemma list_singleton {a : α} (h : p a) : Below same p [a] [a] := by
  refine refl fun b hb => ?_
  rwa [List.mem_singleton.mp hb]

lemma append {others others' : List α} (h : Below same p items items')
    (h' : Below same p others others') : Below same p (items ++ others) (items' ++ others') :=
  h.add (fun _ _ _ => List.mem_append) h'

lemma filter (h : Below same p items items') (test : α → Bool) :
    Below same p (items.filter test) (items'.filter test) :=
  h.image (fun _ _ hsub => List.filter_subset test hsub)
    fun c hc => h.all c (List.mem_of_mem_filter hc)

lemma map (h : Below same p items items') {f : α → β} (hf : ∀ a, p a → q (f a)) :
    Below same q (items.map f) (items'.map f) := by
  refine h.image (fun _ _ hsub => List.map_subset f hsub) fun b hb => ?_
  obtain ⟨a, ha, rfl⟩ := List.mem_map.mp hb
  exact hf a (h.all a ha)

lemma filterMap (h : Below same p items items') {f : α → Option β}
    (hf : ∀ a b, p a → f a = some b → q b) :
    Below same q (items.filterMap f) (items'.filterMap f) := by
  refine h.image (fun _ _ hsub => List.filterMap_subset f hsub) fun b hb => ?_
  obtain ⟨a, ha, hab⟩ := List.mem_filterMap.mp hb
  exact hf a b (h.all a ha) hab

lemma firstOccurrences [DecidableEq α] (h : Below same p items items') :
    Below same p (firstOccurrences items) (ValueFlow.firstOccurrences items') :=
  h.image (fun _ _ hsub c hc => mem_firstOccurrences.mpr (hsub c (mem_firstOccurrences.mp hc)))
    fun c hc => h.all c (mem_firstOccurrences.mp hc)

end Lists

end Below

/-- The second test is passed where the first one is. -/
structure Implies (same : Prop) (b b' : Bool) : Prop where
  eq  : same → b = b'
  imp : b = true → b' = true

lemma Implies.refl {same : Prop} (b : Bool) : Implies same b b := ⟨fun _ => rfl, id⟩

lemma Below.any {α : Type} {same : Prop} {p : α → Prop} {items items' : List α}
    (h : Below same p items items') (test : α → Bool) :
    Implies same (items.any test) (items'.any test) := by
  refine ⟨fun hsame => by rw [h.eq hsame], fun hany => ?_⟩
  obtain ⟨a, ha, htest⟩ := List.any_eq_true.mp hany
  exact List.any_eq_true.mpr ⟨a, h.subset a ha, htest⟩

/-- The same result, which satisfies `p`. -/
def Same {α : Type} (p : α → Prop) (a b : α) : Prop := a = b ∧ p a

/-! ## Comparisons -/

/-- Only the origins of a name can be missing. -/
def Query.Answerable (w : World) (q : Query) : Prop :=
  q.kind = .bind → ∀ n, q.config.node? = some n → (w.program.scopes.symbolAt n).isSome = true

lemma Query.not_answerable {w : World} {q : Query} :
    ¬ q.Answerable w ↔
      q.kind = .bind ∧ ∃ n, q.config.node? = some n ∧ w.program.scopes.symbolAt n = none := by
  simp [Answerable]

lemma Query.answerable_ofNode {w : World} {kind : QueryKind} {n : NodeId} {env : Env}
    (h : (w.program.scopes.symbolAt n).isSome = true) : Answerable w ⟨kind, .ofNode n env⟩ := by
  rintro - m hm
  cases hm
  exact h

/-- Whether an expression of this form can be a value of its own. -/
def Form.isValue {α : Type} : Form α → Bool
  | .number _ | .string _ | .bool _ | .null | .undefined | .template .. | .function ..
  | .object _ | .array _ | .module _ | .update .. | .call .. | .new .. | .member .. | .index .. =>
    true
  | .binary op _ _ => !op.isBitwise
  | .unary op _ => op ≠ .bitNot
  | .assign (.arithmetic op) _ _ => !op.isBitwise
  | _ => false

def Config.Stands (w : World) (c : Config) : Prop :=
  match c.cursor with
  | .node n => (w.program.arena.form n).isValue = true
  | .arguments _ _ => True
  | .pick _ _ => False
  | .external => True

/-- The values that are found without an evaluation of their own: what comes from
outside, global names and modules, all at module level. -/
def Config.Immediate (w : World) (c : Config) : Prop :=
  c.env = .root ∧
    match c.cursor with
    | .node n => w.IsGlobal n ∨ ∃ body, w.program.arena.form n = .module body
    | .arguments _ _ => False
    | .pick _ _ => False
    | .external => True

/-- Whether a value stands for what a call or an access gives. -/
def Arena.isResult (a : Arena) (value : Config) : Bool :=
  value.node?.any fun n => match a.form n with
    | .call .. | .member .. => true
    | _ => false

section IsResult

variable {a : Arena} {c : Config} {n : NodeId} {isOptional : Bool} (hn : c.node? = some n)
include hn

lemma Arena.isResult_call {callee : NodeId} {arguments : List NodeId}
    (hform : a.form n = .call callee arguments isOptional) : a.isResult c = true := by
  simp [isResult, hn, hform]

lemma Arena.isResult_member {object : NodeId} {property : Symbol}
    (hform : a.form n = .member object property isOptional) : a.isResult c = true := by
  simp [isResult, hn, hform]

end IsResult

/-- A way to compare runs, on a terrain, that goes with requests and loops. -/
structure Comparison (w : World) extends Terrain w where
  /-- Both sides find the same. -/
  same : Prop
  /-- The runs compare, and what they come to is related by `R`. -/
  Holds : {α : Type} → (α → α → Prop) → Rhs Query ConfigSet AnalysisError Diagnostic Env α →
    Rhs Query ConfigSet AnalysisError Diagnostic Env α → Prop
  value : Config → Prop
  /-- What can be counted on in an answer. -/
  fact : Query → Config → Prop
  immediate : ∀ c, c.Immediate w → value c
  reads : ∀ {q c}, fact q c → toTerrain.Found q c ∧ (q.kind = .evaluate → value c)
  mono : ∀ {α : Type} {R R' : α → α → Prop} {p p'}, Holds R p p' → (∀ a b, R a b → R' a b) →
    Holds R' p p'
  done : ∀ {α : Type} {R : α → α → Prop} {a b}, R a b → R b b → Holds R (.done a) (.done b)
  bind : ∀ {α β : Type} {R : α → α → Prop} {R' : β → β → Prop} {p p'} {f f' : α → _},
    Holds R p p' → (∀ a b, R a b → Holds R' (f a) (f' b)) → Holds R' (p.bind f) (p'.bind f')
  read : ∀ {q}, toTerrain.Asked q → q.Answerable w →
    Holds (Below same (fact q)) (.read q .done) (.read q .done)
  note : ∀ report, Holds Eq (.note report (.done ())) (.note report (.done ()))
  number : ∀ {chain env}, fits chain env →
    Holds (fun i j => same → i = j) (.number env .done) (.number env .done)
  enters : ∀ f outer caller call env, w.program.arena.isFunction f = true →
    toTerrain.At f outer → toTerrain.At call env → caller.call? = some call →
    ∀ {visiting}, let bodyEnv := outer.cons (.push call env.head w.bound)
      let tells : Rule Unit := do
        Rule.tell .callers (.ofNode f bodyEnv) (.singleton ⟨caller, env⟩)
        Rule.tell .entered (.ofNode f outer) (.ofNode f bodyEnv)
      Holds Eq (tells ⟨w, visiting⟩) (tells ⟨w, visiting⟩)
  ambiguous : (∀ shape, (w.catalogue.lookup shape).length ≤ 1) ∨
    ∀ {α : Type} (R : α → α → Prop) e, Holds R (.fail e) (.fail e)
  /-- What is reported does not matter. -/
  report : ¬ same → ∀ {α : Type} {R : α → α → Prop} {p p'}, Holds R p p' → ∀ report (b b' : Bool),
    Holds R (if b then .note report p else p) (if b' then .note report p' else p')
  /-- Nothing is less than anything. -/
  void : ¬ same → ∀ {γ δ : Type} [Membership δ γ] {p : δ → Prop} {none : γ} {r r'},
    (∀ d, d ∉ none) → Holds (Below same p) r r' → Holds (Below same p) (.done none) r'
  order : ¬ same → ∀ {q : Config → Prop} {set set' : ConfigSet}, Below same q set set' →
    ∀ visiting, Holds (Below same q) (Rule.inOrder set ⟨w, visiting⟩)
      (Rule.inOrder set' ⟨w, visiting⟩)
  /-- More items, each of which contributes more, give more. -/
  gather : ¬ same → ∀ {α γ δ : Type} [Membership δ γ] {add : γ → γ → γ} {none : γ} {q : α → Prop}
    {p : δ → Prop} {items items' : List α} {f f' : α → Rule γ} {visiting},
    (∀ x y d, d ∈ add x y ↔ d ∈ x ∨ d ∈ y) → (∀ d, d ∉ none) → Below same q items items' →
    (∀ a, q a → Holds (Below same p) (f a ⟨w, visiting⟩) (f' a ⟨w, visiting⟩)) →
    Holds (Below same p) ((items.foldlM (fun x a => do return add x (← f a)) none : Rule γ)
        ⟨w, visiting⟩)
      ((items'.foldlM (fun x a => do return add x (← f' a)) none : Rule γ) ⟨w, visiting⟩)

namespace Comparison

variable {w : World} (C : Comparison w)

abbrev values : ConfigSet → ConfigSet → Prop := Below C.same fun c => C.place c ∧ C.value c

/-- Both sides can tell what the value stands for. -/
def Settled (c : Config) : Prop := C.same ∨ w.arena.isResult c = false

abbrev places : ConfigSet → ConfigSet → Prop := Below C.same fun c => C.place c ∧ C.Settled c

abbrev spots : ConfigSet → ConfigSet → Prop := Below C.same C.spot

abbrev origins : ConfigSet → ConfigSet → Prop := Below C.same C.origin

abbrev listed : List Config → List Config → Prop := Below C.same C.spot

/-- A function that may be invoked is a function where it belongs. -/
def target : Target → Prop
  | .function value => C.closure value
  | .builtin _ => True
  | .external => True

abbrev targets : List Target → List Target → Prop := Below C.same C.target

/-- A call or an access that can be a value of its own. -/
def site (s : Site) : Prop :=
  C.At s.node s.env ∧
    (C.value (.ofNode s.node s.env) ∨ (w.program.arena.form s.node).isValue = true)

/-- Values, or else what an access at the site stands for. -/
abbrev accessed (site : Option Site) : ConfigSet → ConfigSet → Prop := Below C.same fun c =>
  C.place c ∧ (C.value c ∨ ∃ s, site = some s ∧ c = .ofNode s.node s.env ∧ c.Stands w)

/-- Values, or else the configuration itself. -/
abbrev results (config : Config) : ConfigSet → ConfigSet → Prop := Below C.same fun c =>
  C.place c ∧ (C.value c ∨ c = config ∧ c.Stands w)

variable {C} {a b : ConfigSet} {n : NodeId} {env : Env}

lemma origins_of_values (h : C.values a b) : C.origins a b := h.imp fun _ hc => .inl hc.1

lemma accessed_of_values {site : Option Site} (h : C.values a b) : C.accessed site a b :=
  h.imp fun _ hc => ⟨hc.1, .inl hc.2⟩

lemma values_of_accessed (h : C.accessed none a b) : C.values a b := by
  refine h.imp fun c hc => ⟨hc.1, hc.2.resolve_right ?_⟩
  rintro ⟨s, hs, -⟩
  cases hs

lemma results_of_accessed {s : Site} (h : C.accessed (some s) a b) :
    C.results (.ofNode s.node s.env) a b := by
  refine h.imp fun c hc => ⟨hc.1, hc.2.imp_right ?_⟩
  rintro ⟨_, ⟨⟩, heq, hstands⟩
  exact ⟨heq, hstands⟩

lemma results_of_values {config : Config} (h : C.values a b) : C.results config a b :=
  h.imp fun _ hc => ⟨hc.1, .inl hc.2⟩

lemma values_external : C.values .external .external :=
  .singleton ⟨.inl C.spot_external, C.immediate _ ⟨rfl, trivial⟩⟩

lemma values_global (h : w.IsGlobal n) : C.values (.ofNode n .root) (.ofNode n .root) :=
  .singleton ⟨.inr ⟨n, h, rfl⟩, C.immediate _ ⟨rfl, .inl h⟩⟩

lemma values_module {m : ModuleId} (hm : m < w.arena.modules.size) :
    C.values (.ofNode (w.arena.modules.getD m default).root .root)
      (.ofNode (w.arena.modules.getD m default).root .root) :=
  .singleton ⟨.inl (C.spot_ofNode.mpr (C.at_root hm)),
    C.immediate _ ⟨rfl, .inr (C.built.root_spec hm).2.2⟩⟩

lemma origins_external : C.origins .external .external := origins_of_values values_external

lemma origins_ofNode (h : C.At n env) : C.origins (.ofNode n env) (.ofNode n env) :=
  .singleton (C.origin_ofNode h)

/-- An expression that is a value of its own. -/
lemma results_itself {s : Site} (h : C.site s) :
    C.results (.ofNode s.node s.env) s.value s.value :=
  .singleton ⟨.inl (C.spot_ofNode.mpr h.1), h.2.imp_right fun hvalue => ⟨rfl, hvalue⟩⟩

lemma listed_singleton (h : C.At n env) : C.listed [.ofNode n env] [.ofNode n env] :=
  .list_singleton (C.spot_ofNode.mpr h)

lemma same_of_settled {c : Config} (hresult : w.arena.isResult c = true) (h : C.Settled c) :
    C.same := by
  refine h.resolve_right fun hnot => ?_
  rw [hresult] at hnot
  cases hnot

lemma fits_of_origin {c : Config} (h : C.origin c) : ∃ chain, C.fits chain c.env :=
  C.fits_of_asked (q := ⟨.evaluate, c⟩) h

end Comparison

namespace Rule

/-- The rules compare under all questions that may be being worked on. -/
def Compares {w : World} (C : Comparison w) {α : Type} (R : α → α → Prop) (r r' : Rule α) : Prop :=
  ∀ visiting, C.Holds R (r ⟨w, visiting⟩) (r' ⟨w, visiting⟩)

/-- The rule compares with itself. -/
abbrev Steady {w : World} (C : Comparison w) {α : Type} (R : α → α → Prop) (r : Rule α) : Prop :=
  Compares C R r r

variable {w : World} {C : Comparison w} {α β : Type} {R : α → α → Prop} {R' : β → β → Prop}
  {r r' : Rule α} {f f' : α → Rule β} {p q : Config → Prop} {a b : ConfigSet} {n call : NodeId}
  {env : Env} {config : Config} {chain : List NodeId} {items items' : List α} {function : Config}

/-! ## Ways to build a rule -/

lemma Compares.bind (hr : Compares C R r r') (hf : ∀ a b, R a b → Compares C R' (f a) (f' b)) :
    Compares C R' (r >>= f) (r' >>= f') :=
  fun visiting => C.bind (hr visiting) fun a b h => hf a b h visiting

/-- After rules with the same result. -/
lemma Compares.next (hr : Compares C Eq r r') (hf : ∀ a, Compares C R' (f a) (f' a)) :
    Compares C R' (r >>= f) (r' >>= f') := by
  refine hr.bind ?_
  rintro a _ rfl
  exact hf a

lemma Compares.andThen {p : α → Prop} (hr : Compares C (Same p) r r')
    (hf : ∀ a, p a → Compares C R' (f a) (f' a)) : Compares C R' (r >>= f) (r' >>= f') := by
  refine hr.bind ?_
  rintro a _ ⟨rfl, ha⟩
  exact hf a ha

lemma Compares.mono {R' : α → α → Prop} (hr : Compares C R r r') (h : ∀ a b, R a b → R' a b) :
    Compares C R' r r' :=
  fun visiting => C.mono (hr visiting) h

lemma Compares.imp {γ δ : Type} [Membership δ γ] {same : Prop} {p p' : δ → Prop} {r r' : Rule γ}
    (hr : Compares C (Below same p) r r') (h : ∀ d, p d → p' d) :
    Compares C (Below same p') r r' :=
  hr.mono fun _ _ hab => hab.imp h

lemma Compares.ite {c : Prop} [Decidable c] {s s' : Rule α} (hr : c → Compares C R r r')
    (hs : ¬c → Compares C R s s') : Compares C R (if c then r else s) (if c then r' else s') := by
  split
  · next h => exact hr h
  · next h => exact hs h

lemma compares_pure {a b : α} (h : R a b) (hright : R b b) : Compares C R (pure a) (pure b) :=
  fun _ => C.done h hright

lemma compares_rfl (a : α) : Steady C Eq (pure a) := compares_pure rfl rfl

/-- Rules with the same result, of which nothing has to be known. -/
lemma Compares.same {p : α → Prop} (hr : Compares C Eq r r') (hp : ∀ a, p a) :
    Compares C (Same p) r r' :=
  hr.mono fun a _ h => ⟨h, hp a⟩

lemma compares_same {p : α → Prop} {a : α} (h : p a) : Steady C (Same p) (pure a) :=
  compares_pure ⟨rfl, h⟩ ⟨rfl, h⟩

section Parts

variable {γ δ : Type} [Membership δ γ] {same : Prop} {p : δ → Prop} {a b : γ}

lemma compares_below (h : Below same p a b) : Compares C (Below same p) (pure a) (pure b) :=
  compares_pure h h.right

lemma compares_option {found found' : Option γ} (h : Option.Rel (Below same p) found found') :
    Compares C (Option.Rel (Below same p)) (pure found) (pure found') := by
  refine compares_pure h ?_
  cases h with
  | some h => exact .some h.right
  | none => exact .none

lemma compares_some {r r' : Rule γ} (h : Compares C (Below same p) r r') :
    Compares C (Option.Rel (Below same p)) (some <$> r) (some <$> r') := by
  rw [map_eq_pure_bind, map_eq_pure_bind]
  exact h.bind fun _ _ hab => compares_option (.some hab)

/-- What is missing is missing on both sides. -/
lemma Compares.ifAny {r r' : Rule (Option γ)} {f f' : Option γ → Rule α}
    (hr : Compares C (Option.Rel (Below same p)) r r')
    (hsome : ∀ a b, Below same p a b → Compares C R (f (some a)) (f' (some b)))
    (hnone : Compares C R (f none) (f' none)) : Compares C R (r >>= f) (r' >>= f') := by
  refine hr.bind fun found found' h => ?_
  cases h with
  | some h => exact hsome _ _ h
  | none => exact hnone

/-- A branch that the first side may leave out. -/
lemma Compares.gated {none : γ} {r r' : Rule γ} {c c' : Bool} (hnone : ∀ d, d ∉ none)
    (hc : Implies C.same c c') (hr : Compares C (Below C.same p) r r') :
    Compares C (Below C.same p) (if c then r else pure none) (if c' then r' else pure none) := by
  cases c with
  | true =>
    rw [hc.imp rfl]
    exact hr
  | false =>
    by_cases hsame : C.same
    · rw [← hc.eq hsame]
      exact compares_below (.refl fun d hd => absurd hd (hnone d))
    · cases c' with
      | true => exact fun visiting => C.void hsame hnone (hr visiting)
      | false => exact compares_below (.refl fun d hd => absurd hd (hnone d))

end Parts

lemma compares_none : Compares C (Option.Rel (Below C.same p))
    (pure (none : Option ConfigSet)) (pure none) :=
  compares_option .none

lemma compares_empty : Compares C (Below C.same p) (pure (.empty : ConfigSet)) (pure .empty) :=
  compares_below .empty

lemma compares_external : Steady C C.values (pure .external) :=
  compares_below C.values_external

lemma compares_nil {same : Prop} {p : α → Prop} : Steady C (Below same p) (pure []) :=
  compares_below .nil

lemma compares_union {r r' : Rule ConfigSet} (h : Below C.same p a b)
    (hr : Compares C (Below C.same p) r r') :
    Compares C (Below C.same p) (do return a ∪ (← r)) (do return b ∪ (← r')) :=
  hr.bind fun _ _ h' => compares_below (h.union h')

lemma compares_append {p : α → Prop} {r r' : Rule (List α)} (h : Below C.same p items items')
    (hr : Compares C (Below C.same p) r r') :
    Compares C (Below C.same p) (do return items ++ (← r)) (do return items' ++ (← r')) :=
  hr.bind fun _ _ h' => compares_below (h.append h')

lemma Compares.guarded {visit : Visit} {inner : α} (hinner : R inner inner)
    (hr : Compares C R r r') : Compares C R (guarded visit inner r) (guarded visit inner r') := by
  intro visiting
  unfold Rule.guarded
  dsimp only
  split
  · exact C.done hinner hinner
  · exact hr _

/-! What a rule looks up is settled by the world. -/

@[simp] lemma compares_bind_world {f f' : World → Rule α} :
    Compares C R (world >>= f) (world >>= f') ↔ Compares C R (f w) (f' w) :=
  .rfl

@[simp] lemma compares_bind_arena {f f' : Arena → Rule α} :
    Compares C R (arena >>= f) (arena >>= f') ↔ Compares C R (f w.arena) (f' w.arena) :=
  .rfl

@[simp] lemma compares_bind_scopes {f f' : Scopes → Rule α} :
    Compares C R (scopes >>= f) (scopes >>= f') ↔
      Compares C R (f w.program.scopes) (f' w.program.scopes) :=
  .rfl

@[simp] lemma compares_bind_catalogue {f f' : Catalogue → Rule α} :
    Compares C R (catalogue >>= f) (catalogue >>= f') ↔
      Compares C R (f w.catalogue) (f' w.catalogue) :=
  .rfl

@[simp] lemma compares_bind_textOf {s : Symbol} {f f' : String → Rule α} :
    Compares C R (textOf s >>= f) (textOf s >>= f') ↔
      Compares C R (f (w.program.text s)) (f' (w.program.text s)) :=
  .rfl

@[simp] lemma compares_bind_formOf {f f' : Form NodeId → Rule α} :
    Compares C R (formOf n >>= f) (formOf n >>= f') ↔
      Compares C R (f (w.arena.form n)) (f' (w.arena.form n)) :=
  .rfl

/-! ## Requests -/

lemma compares_ask (kind : QueryKind) (h : C.Asked ⟨kind, config⟩)
    (hanswerable : Query.Answerable w ⟨kind, config⟩) :
    Steady C (Below C.same (C.fact ⟨kind, config⟩)) (ask kind config) :=
  fun _ => C.read h hanswerable

lemma compares_ask_bind (h : C.At n env) (hsymbol : (w.program.scopes.symbolAt n).isSome = true) :
    Steady C C.origins (ask .bind (.ofNode n env)) :=
  (compares_ask .bind (C.spot_ofNode.mpr h) (Query.answerable_ofNode hsymbol)).imp
    fun _ hc => (C.reads hc).1

lemma compares_ask_traced (h : C.place config) :
    Steady C C.spots (ask .traced config) :=
  (compares_ask .traced h nofun).imp fun _ hc => (C.reads hc).1

lemma compares_ask_callers {f : NodeId} (h : C.Body f env) :
    Steady C C.spots (ask .callers (.ofNode f env)) :=
  (compares_ask .callers (C.body_ofNode.mpr h) nofun).imp fun _ hc => (C.reads hc).1

lemma compares_ask_values (h : C.origin config) :
    Steady C C.values (ask .evaluate config) :=
  (compares_ask .evaluate h nofun).imp fun _ hc => ⟨(C.reads hc).1, (C.reads hc).2 rfl⟩

lemma compares_values (h : C.At n env) : Steady C C.values (values n env) :=
  compares_ask_values (C.origin_ofNode h)

lemma compares_known {chain : Option (List NodeId)} {p : Env → Prop} (h : C.fits chain env)
    (hp : p env) : Steady C (Same p) (known env) :=
  Compares.bind (fun _ => C.number h) fun _ _ _ => compares_same hp

lemma compares_unsupported (n : NodeId) (message : String) :
    Steady C Eq (unsupported n message) :=
  fun _ => C.note _

/-- A construct without a rule contributes nothing. -/
lemma compares_unsupported_empty (n : NodeId) (message : String) :
    Compares C (Below C.same p) (do unsupported n message; return (.empty : ConfigSet))
      (do unsupported n message; return .empty) :=
  (compares_unsupported n message).next fun _ => compares_empty

/-- What is reported does not matter. -/
lemma Compares.reported {message : String} (hr : Compares C R r r') {c c' : Bool}
    (hc : C.same → c = c') : Compares C R (if c then (do unsupported n message; r) else r)
      (if c' then (do unsupported n message; r') else r') := by
  by_cases hsame : C.same
  · rw [hc hsame]
    exact .ite (fun _ => (compares_unsupported n message).next fun _ => hr) fun _ => hr
  · intro visiting
    have h := C.report hsame (hr visiting)
      ⟨(w.arena.node n).span.line, w.arena.label n, message⟩ c c'
    cases c <;> cases c' <;> exact h

/-! ## Loops -/

lemma compares_foldlM {step step' : β → α → Rule β} {start start' : β}
    (hright : ∀ b b', R' b b' → R' b' b') (hstart : R' start start')
    (hstep : ∀ b b', R' b b' → ∀ a ∈ items, Compares C R' (step b a) (step' b' a)) :
    Compares C R' (items.foldlM step start) (items.foldlM step' start') := by
  induction items generalizing start start' with
  | nil => exact compares_pure hstart (hright _ _ hstart)
  | cons a items ih =>
    rw [List.foldlM_cons, List.foldlM_cons]
    exact (hstep start start' hstart a (.head _)).bind fun _ _ h =>
      ih h fun b b' hb a ha => hstep b b' hb a (.tail _ ha)

/-- Gathers what may be missing. -/
lemma compares_foldlM_ifAny {step step' : Option ConfigSet → α → Rule (Option ConfigSet)}
    (hstep : ∀ found found', Option.Rel (Below C.same p) found found' → ∀ a ∈ items,
      Compares C (Option.Rel (Below C.same p)) (step found a) (step' found' a)) :
    Compares C (Option.Rel (Below C.same p)) (items.foldlM step none)
      (items.foldlM step' none) := by
  refine compares_foldlM (fun _ _ h => ?_) .none hstep
  cases h with
  | some h => exact .some h.right
  | none => exact .none

lemma compares_mapM {p : β → Prop} (hf : ∀ a ∈ items, Compares C (Same p) (f a) (f' a)) :
    Compares C (Same fun bs => ∀ b ∈ bs, p b) (items.mapM f) (items.mapM f') := by
  induction items with
  | nil => exact compares_same fun b hb => absurd hb List.not_mem_nil
  | cons a items ih =>
    rw [List.mapM_cons, List.mapM_cons]
    refine (hf a (.head _)).andThen fun b hb => ?_
    exact (ih fun a ha => hf a (.tail _ ha)).andThen fun bs hbs =>
      compares_same (List.forall_mem_cons.mpr ⟨hb, hbs⟩)

lemma Compares.listed {p : α → Prop} {r r' : Rule (List α)}
    (h : Compares C (Same fun items => ∀ a ∈ items, p a) r r') :
    Compares C (Below C.same p) r r' := by
  refine h.mono ?_
  rintro items _ ⟨rfl, hitems⟩
  exact .refl hitems

/-- The loop over the items of lists, one of which may be a part of the other. -/
lemma compares_gather {same γ δ} [Membership δ γ] {add : γ → γ → γ} {none : γ} {q : α → Prop}
    {p : δ → Prop} {f f' : α → Rule γ} (hsame : C.same → same)
    (hadd : ∀ x y d, d ∈ add x y ↔ d ∈ x ∨ d ∈ y) (hnone : ∀ d, d ∉ none)
    (hitems : Below same q items items')
    (hf : ∀ a, q a → Compares C (Below same p) (f a) (f' a)) :
    Compares C (Below same p) (items.foldlM (fun x a => do return add x (← f a)) none)
      (items'.foldlM (fun x a => do return add x (← f' a)) none) := by
  by_cases hboth : same
  · rw [hitems.eq hboth]
    refine compares_foldlM (fun _ _ h => h.right) (.refl fun d hd => absurd hd (hnone d)) ?_
    exact fun b b' hb a ha => (hf a (hitems.all a ha)).bind fun _ _ h =>
      compares_below (hb.add hadd h)
  · have hnot : ¬ C.same := fun h => hboth (hsame h)
    have hless : Compares C (Below C.same p)
        (items.foldlM (fun x a => do return add x (← f a)) none)
        (items'.foldlM (fun x a => do return add x (← f' a)) none) := fun visiting =>
      C.gather hnot hadd hnone (hitems.of_same hsame) fun a ha =>
        C.mono (hf a ha visiting) fun _ _ h => h.of_same hsame
    exact hless.mono fun _ _ h => h.of_same fun h => absurd h hboth

lemma compares_unionOf {q : α → Prop} {f f' : α → Rule ConfigSet}
    (hitems : Below C.same q items items')
    (hf : ∀ a, q a → Compares C (Below C.same p) (f a) (f' a)) :
    Compares C (Below C.same p) (unionOf items f) (unionOf items' f') :=
  compares_gather id (fun _ _ _ => PowerSet.mem_union) PowerSet.not_mem_empty hitems hf

/-- The loop over one list. -/
lemma compares_unionOf_list {f f' : α → Rule ConfigSet} (items : List α)
    (hf : ∀ a ∈ items, Compares C (Below C.same p) (f a) (f' a)) :
    Compares C (Below C.same p) (unionOf items f) (unionOf items f') :=
  compares_unionOf (.refl fun _ h => h) hf

section Append

variable {same : Prop} {q : α → Prop} {p : β → Prop}

lemma compares_appendOf {f f' : α → Rule (List β)} (hsame : C.same → same)
    (hitems : Below same q items items') (hf : ∀ a, q a → Compares C (Below same p) (f a) (f' a)) :
    Compares C (Below same p) (items.foldlM (fun found a => do return found ++ (← f a)) [])
      (items'.foldlM (fun found a => do return found ++ (← f' a)) []) :=
  compares_gather hsame (fun _ _ _ => List.mem_append) (fun _ => List.not_mem_nil) hitems hf

/-- A loop that keeps what it finds, as one that appends. -/
lemma filterMapM_eq_foldlM (f : α → Rule (Option β)) (items : List α) (found : List β) :
    items.foldlM (fun found a => do return found ++ (← Option.toList <$> f a)) found =
      (do return found ++ (← items.filterMapM f)) := by
  induction items generalizing found with
  | nil => simp
  | cons a items ih =>
    rw [List.foldlM_cons, List.filterMapM_cons]
    simp only [map_eq_pure_bind, bind_assoc, pure_bind]
    refine bind_congr fun b => ?_
    cases b with
    | none => simpa using ih found
    | some b => simpa using ih (found ++ [b])

lemma compares_filterMapM {f f' : α → Rule (Option β)} (hsame : C.same → same)
    (hitems : Below same q items items')
    (hf : ∀ a, q a → Compares C (Same fun found => ∀ b, found = some b → p b) (f a) (f' a)) :
    Compares C (Below same p) (items.filterMapM f) (items'.filterMapM f') := by
  have hgather : Compares C (Below same p)
      (items.foldlM (fun found a => do return found ++ (← Option.toList <$> f a)) [])
      (items'.foldlM (fun found a => do return found ++ (← Option.toList <$> f' a)) []) := by
    refine compares_appendOf hsame hitems fun a ha => ?_
    rw [map_eq_pure_bind, map_eq_pure_bind]
    refine (hf a ha).andThen fun found hfound => compares_below (.refl fun b hb => ?_)
    exact hfound b (Option.mem_toList.mp hb)
  rw [filterMapM_eq_foldlM, filterMapM_eq_foldlM] at hgather
  simpa using hgather

/-- A loop that joins what it finds, as one that appends. -/
lemma collect_eq_foldlM (f : α → Rule (List Config)) (items : List α) (found : List Config) :
    items.foldlM (fun found a => do return found ++ (← f a)) found =
      (do return found ++ (← collect items f)) := by
  induction items generalizing found with
  | nil => simp [collect]
  | cons a items ih =>
    rw [List.foldlM_cons]
    simp only [collect, bind_assoc, pure_bind, ih, List.mapM_cons, List.flatten_cons,
      List.append_assoc]

lemma compares_collect {p : Config → Prop} {f f' : α → Rule (List Config)}
    (hitems : Below C.same q items items')
    (hf : ∀ a, q a → Compares C (Below C.same p) (f a) (f' a)) :
    Compares C (Below C.same p) (collect items f) (collect items' f') := by
  have hgather := compares_appendOf id hitems hf
  rw [collect_eq_foldlM, collect_eq_foldlM] at hgather
  simpa using hgather

end Append

/-- A test that asks nothing is made at once. -/
lemma anyM_eq_done {f : α → Rule Bool} {setting : Setting} (test : α → Bool)
    (hf : ∀ a, f a setting = .done (test a)) (items : List α) :
    items.anyM f setting = .done (items.any test) := by
  induction items with
  | nil => rfl
  | cons a items ih =>
    show (f a setting).bind _ = _
    rw [hf a]
    cases h : test a with
    | true => simp [Rhs.bind, List.any_cons, h]; rfl
    | false =>
      rw [List.any_cons, h, Bool.false_or]
      exact ih

lemma compares_inOrder (hset : Below C.same q a b) (hq : ∀ c, q c → ∃ chain, C.fits chain c.env) :
    Compares C (Below C.same q) (inOrder a) (inOrder b) := by
  by_cases hsame : C.same
  · rw [hset.eq hsame]
    have hnumbered : Steady C (Same fun numbered => ∀ c ∈ numbered, q c.2)
        (b.elems.mapM fun c => do return ((c.cursor.key, ← numberOf c.env), c)) := by
      refine compares_mapM fun c hc => ?_
      have hqc : q c := hset.all c hc
      obtain ⟨chain, hfits⟩ := hq c hqc
      refine Compares.bind (fun _ => C.number hfits) fun i j hij => ?_
      rw [hij hsame]
      exact compares_same hqc
    refine hnumbered.andThen fun numbered h => compares_below (.refl fun c hc => ?_)
    obtain ⟨d, hd, rfl⟩ := List.mem_map.mp hc
    exact h d (mem_sortBy.mp hd)
  · exact C.order hsame hset

lemma compares_unionOver {f f' : Config → Rule ConfigSet} (h : Below C.same q a b)
    (hq : ∀ c, q c → C.origin c) (hf : ∀ c, q c → Compares C (Below C.same p) (f c) (f' c)) :
    Compares C (Below C.same p) (unionOver a f) (unionOver b f') :=
  (compares_inOrder h fun c hc => C.fits_of_origin (hq c hc)).bind fun _ _ hitems =>
    compares_unionOf hitems hf

lemma compares_unionOver_places {f f' : Config → Rule ConfigSet} {s : Config → Prop}
    (h : Below C.same (fun c => C.place c ∧ s c) a b)
    (hf : ∀ c, C.place c → s c → Compares C (Below C.same p) (f c) (f' c)) :
    Compares C (Below C.same p) (unionOver a f) (unionOver b f') :=
  compares_unionOver h (fun _ hc => .inl hc.1) fun c hc => hf c hc.1 hc.2

lemma compares_unionOver_spots {f f' : Config → Rule ConfigSet} (h : C.spots a b)
    (hf : ∀ c, C.spot c → Compares C (Below C.same p) (f c) (f' c)) :
    Compares C (Below C.same p) (unionOver a f) (unionOver b f') :=
  compares_unionOver h (fun _ => C.origin_of_spot) hf

lemma compares_evaluateAll (h : C.origins a b) :
    Compares C C.values (evaluateAll a) (evaluateAll b) :=
  compares_unionOver h (fun _ => id) fun _ => compares_ask_values

/-! ## Places -/

lemma compares_envAt (henv : C.fits (some chain) env) (hchain : w.arena.Chain chain)
    (hn : n < w.arena.size) (hnear : C.near chain (w.arena.functionsAround n)) :
    Steady C (Same (C.At n)) (envAt n env) :=
  have hat := Terrain.At.fit henv hchain hn hnear
  compares_bind_arena.mpr (compares_known hat.fits hat)

/-- The environment of a node within the same functions. -/
lemma compares_envAt_under {m : NodeId} (h : C.At m env)
    (hn : w.arena.Under (w.arena.functionsAround m) n) :
    Steady C (Same (C.At n)) (envAt n env) :=
  compares_envAt h.fits (C.built.forest.chain_around m) hn.1 (C.near_of_eq hn.2)

lemma compares_scopeEnv (henv : C.fits (some chain) env) (hchain : w.arena.Chain chain)
    (scope : NodeId) (hnear : C.near chain (w.arena.functionsWithin scope)) :
    Steady C (Same (C.fits (some (w.arena.functionsWithin scope)))) (scopeEnv scope env) :=
  have hfits := C.fit _ _ env hchain (C.built.forest.chain_within scope) hnear henv
  compares_bind_arena.mpr (compares_known hfits hfits)

lemma compares_topLevel (hn : n < w.arena.size) :
    Steady C (Same (C.At n)) (topLevel n) :=
  have hat := C.at_openEnv hn
  compares_bind_arena.mpr (compares_known hat.fits hat)

section Enter

variable {f : NodeId} {outer : Env} (hf : w.arena.isFunction f = true) (houter : C.At f outer)
  (hcall : C.At call env)
include hf houter hcall

lemma compares_enter : Steady C
    (Same fun bodyEnv => bodyEnv = outer.cons (.push call env.head w.bound) ∧ C.Body f bodyEnv)
    (enter (.ofNode f outer) call env) :=
  have hbody := Terrain.Body.enter hf houter hcall
  compares_bind_world.mpr (compares_known hbody.fits ⟨rfl, hbody⟩)

lemma compares_enterFrom {caller : Cursor} (hcaller : caller.call? = some call) :
    Steady C (Same (C.Body f)) (enterFrom (.ofNode f outer) caller call env) := by
  refine (compares_enter hf houter hcall).andThen ?_
  rintro _ ⟨rfl, hbody⟩
  exact Compares.next (f := fun _ => pure _) (fun _ => C.enters f outer caller call env hf houter
    hcall hcaller) fun _ => compares_same hbody

end Enter

lemma compares_isTarget (function : NodeId) :
    Steady C Eq (isTarget function) :=
  compares_bind_world.mpr (compares_rfl _)

/-! ## Builtins and calls -/

lemma compares_entry (id : BuiltinId) : Steady C Eq (entry id) :=
  compares_bind_catalogue.mpr (compares_rfl _)

lemma compares_lookup (n : NodeId) (shape : Shape) :
    Steady C Eq (lookup n shape) := by
  unfold Steady lookup
  rw [compares_bind_catalogue]
  split
  · exact compares_rfl none
  · exact compares_rfl (some _)
  · next hnil hone =>
    obtain hshort | herror := C.ambiguous
    · -- a list that is neither empty nor a single number is too long
      have hshort := hshort shape
      match hids : w.catalogue.lookup shape with
      | [] => exact absurd hids hnil
      | [id] => exact absurd hids (hone id)
      | _ :: _ :: _ =>
        rw [hids] at hshort
        exact absurd hshort (by simp)
    · refine compares_bind_arena.mpr ?_
      refine Compares.andThen (p := fun _ => True) ?_ fun _ _ _ => herror _ _
      refine (compares_mapM (p := fun _ => True) fun id _ => ?_).mono fun _ _ h => ⟨h.1, trivial⟩
      exact (compares_entry id).next fun _ => compares_same trivial

lemma compares_globalName? (n : NodeId) :
    Steady C (Same fun name => name.isSome = true → w.IsGlobal n) (globalName? n) := by
  unfold Steady globalName?
  rw [compares_bind_formOf]
  split
  · next name hform =>
    rw [compares_bind_scopes]
    refine .ite (fun _ => compares_same nofun) fun hsymbol => ?_
    refine compares_bind_textOf.mpr (compares_bind_catalogue.mpr (compares_same fun hsome => ?_))
    split at hsome
    · next hglobal => exact ⟨name, hform, by simpa using hsymbol, hglobal⟩
    · exact nomatch hsome
  · exact compares_same nofun

lemma compares_constructor? (n : NodeId) :
    Steady C Eq (constructor? n) := by
  unfold Steady constructor?
  rw [compares_bind_formOf]
  split
  · exact compares_rfl none
  · refine (compares_globalName? _).andThen fun name _ => ?_
    cases name with
    | some name => exact compares_lookup n _
    | none => exact compares_rfl none

lemma compares_receiver? (hcall : C.At call env) :
    Steady C (Same fun found => ∀ object, found = some object → C.At object env)
      (receiver? call) := by
  unfold Steady receiver?
  rw [compares_bind_formOf]
  split
  · exact compares_same nofun
  · next hparts =>
    rw [compares_bind_formOf]
    split
    · next hform =>
      refine compares_same ?_
      rintro object ⟨⟩
      exact (hcall.callee hparts).part hform (.head _) rfl
    · exact compares_same nofun

lemma compares_argumentsOf (hcall : C.At call env) :
    Steady C (Same fun arguments => ∀ n ∈ arguments, C.At n env) (argumentsOf call) := by
  refine compares_bind_formOf.mpr (compares_same fun n hn => ?_)
  split at hn
  · next hparts => exact hcall.argument hparts hn
  · exact nomatch hn

lemma compares_argument? (hcall : C.At call env) (position : Nat) :
    Steady C (Same fun found => ∀ n, found = some n → C.At n env) (argument? call position) :=
  (compares_argumentsOf hcall).andThen fun _ harguments => compares_same fun n hn =>
    harguments n (List.mem_of_getElem? hn)

lemma compares_isAsync (function : NodeId) :
    Steady C Eq (isAsync function) :=
  compares_bind_formOf.mpr (compares_rfl _)

lemma compares_returns {f : NodeId} {bodyEnv : Env} (h : C.Body f bodyEnv) :
    Steady C C.values (returns f bodyEnv) :=
  compares_bind_arena.mpr <| compares_unionOf_list _ fun _ hvalue =>
    compares_values (h.returned hvalue)

lemma compares_apply (hfunction : C.closure function)
    (hcall : C.site ⟨call, env⟩) :
    Steady C (C.results (.ofNode call env)) (apply function call env) := by
  obtain ⟨f, outer, rfl, hf, houter⟩ := hfunction
  refine (compares_enterFrom hf houter hcall.1 rfl).andThen fun _ _ =>
    (compares_isAsync f).next fun async => ?_
  refine .ite (fun _ => compares_below (C.results_itself hcall)) fun _ => ?_
  refine (compares_enter hf houter hcall.1).andThen fun _ hbody => ?_
  exact (compares_returns hbody.2).mono fun _ _ => C.results_of_values

lemma compares_applyCallback (hfunction : C.closure function) (position : Nat)
    (hcall : C.At call env) : Steady C C.values (applyCallback function call position env) := by
  obtain ⟨f, outer, rfl, hf, houter⟩ := hfunction
  exact (compares_enterFrom hf houter hcall rfl).andThen fun _ hbody => compares_returns hbody

end Rule

end ValueFlow
