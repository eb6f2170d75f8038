import ValueFlow.Flow.Bind
import ValueFlow.Proofs.Equations.Run

/-!
# What a rule comes to

A finished run of a rule has a result and a list of requests with their
answers. `Rule.Comes P` keeps the result, and of the requests only that all of
them satisfy `P`; so a sequence of rules can be taken apart without lists being
cut in pieces. Here `P` is a parameter: it says nothing at all, or that a
settled table has all the answers.

There is one lemma for each way to build a rule, and most go one way: from what
the whole comes to, to what the parts come to.
-/

namespace ValueFlow.Rule

abbrev Request := Event Query ConfigSet Diagnostic Env

variable {P : Request → Prop} {s : Setting} {α β : Type} {set : ConfigSet} {r : Rule α}
  {f : α → Rule β} {a : α} {items : List α} {bs : List β} {n : NodeId} {kind : QueryKind}
  {config c : Config}

def Comes (P : Request → Prop) (s : Setting) (r : Rule α) (a : α) : Prop :=
  ∃ es, (r s).Run es (.done a) ∧ ∀ e ∈ es, P e

/-! ## Without requests -/

lemma run_then (h : r s = .done a) : (r >>= f) s = f a s := by
  change Rhs.bind (r s) (fun a => f a s) = _
  rw [h]
  rfl

lemma run_formOf {f : Form NodeId → Rule α} : (formOf n >>= f) s = f (s.world.arena.form n) s := rfl

lemma comes_pure (a : α) : Comes P s (pure a) a :=
  ⟨[], .stop _, fun _ he => absurd he List.not_mem_nil⟩

lemma Comes.done {b : α} (h : Comes P s r b) (hr : r s = .done a) : a = b := by
  unfold Comes at h
  rw [hr] at h
  obtain ⟨es, hrun, -⟩ := h
  exact (Rhs.run_done hrun).2

/-! ## Requests -/

lemma Comes.pure {b : α} (h : Comes P s (pure a) b) : a = b := by
  obtain ⟨es, hrun, -⟩ := h
  exact (Rhs.run_done hrun).2

lemma Comes.bind {b : β} (h : Comes P s (r >>= f) b) :
    ∃ a, Comes P s r a ∧ Comes P s (f a) b := by
  obtain ⟨es, hrun, hes⟩ := h
  obtain ⟨es₁, es₂, a, rfl, hr, hf⟩ := Rhs.run_bind hrun
  exact ⟨a, ⟨es₁, hr, fun e he => hes e (List.mem_append_left _ he)⟩,
    ⟨es₂, hf, fun e he => hes e (List.mem_append_right _ he)⟩⟩

lemma Comes.andThen {b : β} (hr : Comes P s r a) (hf : Comes P s (f a) b) :
    Comes P s (r >>= f) b := by
  obtain ⟨es, hrun, hes⟩ := hr
  obtain ⟨es', hrun', hes'⟩ := hf
  refine ⟨es ++ es', Rhs.Run.bind hrun hrun', fun e he => ?_⟩
  exact (List.mem_append.mp he).elim (hes e) (hes' e)

lemma Comes.ask (h : Comes P s (ask kind config) set) : P (.read ⟨kind, config⟩ set) := by
  obtain ⟨es, hrun, hes⟩ := h
  cases hrun with
  | read hrest =>
    obtain ⟨rfl, rfl⟩ := Rhs.run_done hrest
    exact hes _ List.mem_cons_self

lemma Comes.tell {facts : ConfigSet} {u : Unit} (h : Comes P s (tell kind config facts) u) :
    P (.push ⟨kind, config⟩ facts) := by
  obtain ⟨es, hrun, hes⟩ := h
  cases hrun with
  | push hrest => exact hes _ List.mem_cons_self

lemma Comes.known {env env' : Env} (h : Comes P s (known env) env') : env = env' := by
  obtain ⟨_, -, h⟩ := h.bind
  exact h.pure

@[simp] lemma comes_bind_world {f : World → Rule α} :
    Comes P s (world >>= f) a ↔ Comes P s (f s.world) a :=
  .rfl

@[simp] lemma comes_bind_arena {f : Arena → Rule α} :
    Comes P s (arena >>= f) a ↔ Comes P s (f s.world.arena) a :=
  .rfl

@[simp] lemma comes_bind_scopes {f : Scopes → Rule α} :
    Comes P s (scopes >>= f) a ↔ Comes P s (f s.world.program.scopes) a :=
  .rfl

@[simp] lemma comes_bind_formOf {f : Form NodeId → Rule α} :
    Comes P s (formOf n >>= f) a ↔ Comes P s (f (s.world.arena.form n)) a :=
  .rfl

@[simp] lemma comes_bind_catalogue {f : Catalogue → Rule α} :
    Comes P s (catalogue >>= f) a ↔ Comes P s (f s.world.catalogue) a :=
  .rfl

@[simp] lemma comes_bind_textOf {symbol : Symbol} {f : String → Rule α} :
    Comes P s (textOf symbol >>= f) a ↔ Comes P s (f (s.world.program.text symbol)) a :=
  .rfl

lemma not_comes_fail (e : AnalysisError) (a : α) : ¬ Comes P s (fail e) a := by
  rintro ⟨es, hrun, -⟩
  cases hrun

lemma not_comes_diverge (a : α) : ¬ Comes P s diverge a := by
  rintro ⟨es, hrun, -⟩
  cases hrun

lemma not_comes_missingDeclaration (n : NodeId) (a : α) :
    ¬ Comes P s (missingDeclaration n) a := by
  intro h
  unfold missingDeclaration at h
  rw [comes_bind_arena] at h
  exact not_comes_fail _ _ h

lemma comes_guarded {visit : Visit} {inner : α} :
    Comes P s (guarded visit inner r) a ↔
      if visit ∈ s.visiting then inner = a
      else Comes P ⟨s.world, visit :: s.visiting⟩ r a := by
  by_cases hvisit : visit ∈ s.visiting
  · have hdone : guarded visit inner r s = .done inner := if_pos hvisit
    rw [if_pos hvisit]
    constructor
    · intro h
      exact h.done hdone
    · rintro rfl
      exact ⟨[], hdone ▸ .stop _, by simp⟩
  · rw [if_neg hvisit]
    unfold Comes guarded
    rw [if_neg hvisit]

/-! ## One result -/

def OneAnswer (P : Request → Prop) : Prop :=
  (∀ q set set', P (.read q set) → P (.read q set') → set = set') ∧
    ∀ env i j, P (.number env i) → P (.number env j) → i = j

/-- Where no request has two answers, a rule comes to one result. -/
lemma Comes.unique (hP : OneAnswer P) {a' : α} (h : Comes P s r a) (h' : Comes P s r a') :
    a = a' := by
  obtain ⟨es, hrun, hes⟩ := h
  obtain ⟨es', hrun', hes'⟩ := h'
  generalize r s = tree at hrun hrun'
  induction tree generalizing es es' with
  | done b => exact (Rhs.run_done hrun).2.symm.trans (Rhs.run_done hrun').2
  | fail | diverge => cases hrun
  | read q next ih =>
    cases hrun with
    | read hrun =>
      cases hrun' with
      | read hrun' =>
        obtain ⟨hread, hrest⟩ := List.forall_mem_cons.mp hes
        obtain ⟨hread', hrest'⟩ := List.forall_mem_cons.mp hes'
        cases hP.1 _ _ _ hread hread'
        exact ih _ _ hrest _ hrest' hrun hrun'
  | push q v next ih =>
    cases hrun with
    | push hrun =>
      cases hrun' with
      | push hrun' =>
        exact ih _ (List.forall_mem_cons.mp hes).2 _ (List.forall_mem_cons.mp hes').2 hrun hrun'
  | note n next ih =>
    cases hrun with
    | note hrun =>
      cases hrun' with
      | note hrun' =>
        exact ih _ (List.forall_mem_cons.mp hes).2 _ (List.forall_mem_cons.mp hes').2 hrun hrun'
  | number t next ih =>
    cases hrun with
    | number hrun =>
      cases hrun' with
      | number hrun' =>
        obtain ⟨hnumber, hrest⟩ := List.forall_mem_cons.mp hes
        obtain ⟨hnumber', hrest'⟩ := List.forall_mem_cons.mp hes'
        cases hP.2 _ _ _ hnumber hnumber'
        exact ih _ _ hrest _ hrest' hrun hrun'

/-! ## Loops -/

/-- Every item is looked at, and what it gives is kept. -/
lemma Comes.mem_filterMapM {f : α → Rule (Option β)} (h : Comes P s (items.filterMapM f) bs) :
    ∀ a ∈ items, ∃ found, Comes P s (f a) found ∧ ∀ b, found = some b → b ∈ bs := by
  induction items generalizing bs with
  | nil => exact fun a ha => nomatch ha
  | cons a items ih =>
    rw [List.filterMapM_cons] at h
    obtain ⟨found, ha, h⟩ := h.bind
    -- what the other items give stands in the rest of the result
    obtain ⟨rest, hrest, hsub, hfirst⟩ : ∃ rest, Comes P s (items.filterMapM f) rest ∧
        rest ⊆ bs ∧ ∀ b, found = some b → b ∈ bs := by
      cases found with
      | none => exact ⟨bs, h, List.Subset.refl _, fun b hb => nomatch hb⟩
      | some first =>
        obtain ⟨rest, hrest, h⟩ := h.bind
        cases h.pure
        exact ⟨rest, hrest, List.subset_cons_self _ _, fun b hb => by cases hb; exact .head _⟩
    intro c hc
    obtain rfl | hc := List.mem_cons.mp hc
    · exact ⟨found, ha, hfirst⟩
    · obtain ⟨found, hfc, hkept⟩ := ih hrest c hc
      exact ⟨found, hfc, fun b hb => hsub (hkept b hb)⟩

/-- Nothing is kept but what an item gives. -/
lemma Comes.exists_of_mem_filterMapM {f : α → Rule (Option β)}
    (h : Comes P s (items.filterMapM f) bs) : ∀ b ∈ bs, ∃ a ∈ items, Comes P s (f a) (some b) := by
  induction items generalizing bs with
  | nil =>
    cases h.pure
    exact fun b hb => absurd hb List.not_mem_nil
  | cons a items ih =>
    rw [List.filterMapM_cons] at h
    obtain ⟨found, ha, h⟩ := h.bind
    have hlater : ∀ {rest}, Comes P s (items.filterMapM f) rest →
        ∀ b ∈ rest, ∃ c ∈ a :: items, Comes P s (f c) (some b) := fun hrest b hb => by
      obtain ⟨c, hc, hfc⟩ := ih hrest b hb
      exact ⟨c, .tail _ hc, hfc⟩
    cases found with
    | none => exact hlater h
    | some first =>
      obtain ⟨rest, hrest, h⟩ := h.bind
      cases h.pure
      exact List.forall_mem_cons.mpr ⟨⟨a, .head _, ha⟩, hlater hrest⟩

lemma Comes.mapM_map {g : β → α} (hg : ∀ a b, Comes P s (f a) b → g b = a)
    (h : Comes P s (items.mapM f) bs) : bs.map g = items := by
  induction items generalizing bs with
  | nil =>
    cases h.pure
    rfl
  | cons a items ih =>
    rw [List.mapM_cons] at h
    obtain ⟨b, hb, h⟩ := h.bind
    obtain ⟨rest, hrest, h⟩ := h.bind
    cases h.pure
    rw [List.map_cons, hg a b hb, ih hrest]

/-- The elements of a set are visited once each. -/
lemma Comes.inOrder_perm {items : List Config} (h : Comes P s (inOrder set) items) :
    items.Perm set.elems := by
  obtain ⟨numbered, hnumbered, h⟩ := h.bind
  cases h.pure
  have hsame : numbered.map (·.2) = set.elems := by
    refine Comes.mapM_map (fun c numbered h => ?_) hnumbered
    obtain ⟨_, -, h⟩ := h.bind
    cases h.pure
    rfl
  exact hsame ▸ (sortBy_perm _ numbered).map (·.2)

/-- A set is visited completely, and nothing else is visited. -/
lemma Comes.inOrder {items : List Config} (h : Comes P s (inOrder set) items) (c : Config) :
    c ∈ items ↔ c ∈ set :=
  h.inOrder_perm.mem_iff

/-- A loop that gathers parts: what it gathered at the start and in every part is
in the result, and nothing else is. -/
lemma Comes.gather {γ δ : Type} {holds : γ → δ → Prop} {add : γ → γ → γ}
    (hadd : ∀ x y d, holds (add x y) d ↔ holds x d ∨ holds y d) {f : α → Rule γ} {start result : γ}
    (h : Comes P s (items.foldlM (fun x item => do return add x (← f item)) start) result) :
    (∀ d, holds start d → holds result d) ∧
      (∀ a ∈ items, ∃ part, Comes P s (f a) part ∧ ∀ d, holds part d → holds result d) ∧
      ∀ d, holds result d →
        holds start d ∨ ∃ a ∈ items, ∃ part, Comes P s (f a) part ∧ holds part d := by
  induction items generalizing start with
  | nil =>
    cases h.pure
    exact ⟨fun _ hd => hd, fun _ ha => absurd ha List.not_mem_nil, fun _ hd => .inl hd⟩
  | cons a items ih =>
    rw [List.foldlM_cons] at h
    obtain ⟨_, hstep, h⟩ := h.bind
    obtain ⟨part, hpart, hstep⟩ := hstep.bind
    cases hstep.pure
    obtain ⟨hkept, hrest, hback⟩ := ih h
    refine ⟨fun d hd => hkept d ((hadd _ _ d).mpr (.inl hd)), fun b hb => ?_, fun d hd => ?_⟩
    · obtain rfl | hb := List.mem_cons.mp hb
      · exact ⟨part, hpart, fun d hd => hkept d ((hadd _ _ d).mpr (.inr hd))⟩
      · exact hrest b hb
    · obtain hd | ⟨b, hb, hfound⟩ := hback d hd
      · obtain hd | hd := (hadd _ _ d).mp hd
        · exact .inl hd
        · exact .inr ⟨a, .head _, part, hpart, hd⟩
      · exact .inr ⟨b, .tail _ hb, hfound⟩

lemma Comes.unionOf {f : α → Rule ConfigSet} (h : Comes P s (unionOf items f) set)
    (ha : a ∈ items) : ∃ part, Comes P s (f a) part ∧ ∀ c ∈ part, c ∈ set :=
  (Comes.gather (fun _ _ _ => PowerSet.mem_union) h).2.1 a ha

lemma Comes.exists_of_mem_unionOf {f : α → Rule ConfigSet}
    (h : Comes P s (Rule.unionOf items f) set) (hc : c ∈ set) :
    ∃ a ∈ items, ∃ part, Comes P s (f a) part ∧ c ∈ part :=
  ((Comes.gather (fun _ _ _ => PowerSet.mem_union) h).2.2 c hc).resolve_left
    (PowerSet.not_mem_empty c)

lemma Comes.unionOver {f : Config → Rule ConfigSet} {items : ConfigSet}
    (h : Comes P s (unionOver items f) set) (hc : c ∈ items) :
    ∃ part, Comes P s (f c) part ∧ ∀ d ∈ part, d ∈ set := by
  obtain ⟨list, hlist, h⟩ := h.bind
  exact h.unionOf ((hlist.inOrder c).mpr hc)

lemma Comes.exists_of_mem_unionOver {f : Config → Rule ConfigSet} {items : ConfigSet}
    (h : Comes P s (Rule.unionOver items f) set) {d : Config} (hd : d ∈ set) :
    ∃ c ∈ items, ∃ part, Comes P s (f c) part ∧ d ∈ part := by
  obtain ⟨list, hlist, h⟩ := h.bind
  obtain ⟨c, hc, part, hpart, hd⟩ := h.exists_of_mem_unionOf hd
  exact ⟨c, (hlist.inOrder c).mp hc, part, hpart, hd⟩

/-! ## Elements of lists -/

section Lists

variable {perform : Meaning} {env : Env} {position : Option Nat}

def plainElements (position offset : Option Nat) (n : NodeId) (env : Env) : Rule ConfigSet :=
  if canBeAt position offset then values n env else pure .empty

def spreadElements (perform : Meaning) (inner : NodeId) (env : Env) : Rule ConfigSet := do
  perform (.elements (← values inner env) none)

/-- What a listed node adds, where a spread may be left out, and the offset behind it. -/
def listedPart (perform : Meaning) (counts : Bool) (env : Env) (position offset : Option Nat)
    (n : NodeId) : Form NodeId → Rule ConfigSet × Option Nat
  | .spread inner => (if counts then spreadElements perform inner env else pure .empty, none)
  | _ => (plainElements position offset n env, offset.map (· + 1))

def listedElements (perform : Meaning) (counts : Option Nat → Bool) (env : Env)
    (position : Option Nat) : Option Nat → List (Option NodeId) → Rule ConfigSet
  | _, [] => return .empty
  | offset, none :: rest => listedElements perform counts env position (offset.map (· + 1)) rest
  | offset, some n :: rest => do
    let part := listedPart perform (counts offset) env position offset n (← formOf n)
    return (← part.1) ∪ (← listedElements perform counts env position part.2 rest)

/-- Among arguments all spreads count. -/
lemma argumentElementsFrom_eq (arguments : List NodeId) (offset : Option Nat) :
    argumentElementsFrom perform env position offset arguments =
      listedElements perform (fun _ => true) env position offset (arguments.map some) := by
  induction arguments generalizing offset with
  | nil => rfl
  | cons argument rest ih =>
    unfold argumentElementsFrom
    refine bind_congr fun form => ?_
    rw [ih, ih]
    cases form with
    | spread inner => exact (bind_assoc ..).symm
    | _ => cases hhere : canBeAt position offset <;> simp [listedPart, plainElements, hhere]

def reaches (position offset : Option Nat) : Bool :=
  match position, offset with
  | some position, some offset => offset ≤ position
  | _, _ => true

-- a spread reaches no position before its own, and may reach any one behind
example : reaches (some 0) (some 1) = false ∧ reaches (some 2) (some 1) = true := by decide +kernel

/-- In an array literal a spread counts if it reaches the position. -/
lemma literalElementsFrom_eq (elements : List (Option NodeId)) (offset : Option Nat) :
    literalElementsFrom perform env position offset elements =
      listedElements perform (reaches position) env position offset elements := by
  induction elements generalizing offset with
  | nil => rfl
  | cons element rest ih =>
    cases element with
    | none => exact ih _
    | some element =>
      unfold literalElementsFrom
      refine bind_congr fun form => ?_
      rw [ih, ih]
      cases form with
      | spread inner =>
        change (if reaches position offset = true then _ else _) = _
        cases reaches position offset <;> simp [listedPart, spreadElements]
      | _ => cases hhere : canBeAt position offset <;> simp [listedPart, plainElements, hhere]

end Lists

end ValueFlow.Rule
