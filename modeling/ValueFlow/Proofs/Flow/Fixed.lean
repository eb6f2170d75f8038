import ValueFlow.Proofs.Flow.Depth

/-!
# Rules on a table that stands still

A session answers the requests of a rule from a table that grows while the rule is
running. A `Table` has one answer for every query and one number for every environment,
so a rule has at most one result on it, and the result can be computed.

Operations on values are only cut off by their depth: `Table.Yields` says what an
operation comes to at some depth, and there is at most one such result.
-/

namespace ValueFlow

namespace Rule

variable {P : Request → Prop} {st : Setting} {α β : Type} {items : List α}

/-! ## Loops that come to an end -/

lemma exists_comes_mapM {f : α → Rule β} (h : ∀ a ∈ items, ∃ b, Comes P st (f a) b) :
    ∃ bs, Comes P st (items.mapM f) bs := by
  induction items with
  | nil => exact ⟨[], comes_pure []⟩
  | cons a items ih =>
    obtain ⟨⟨b, hb⟩, hrest⟩ := List.forall_mem_cons.mp h
    obtain ⟨bs, hbs⟩ := ih hrest
    rw [List.mapM_cons]
    exact ⟨b :: bs, hb.andThen (hbs.andThen (comes_pure _))⟩

lemma exists_comes_foldlM {f : β → α → Rule β} (h : ∀ a ∈ items, ∀ b, ∃ b', Comes P st (f b a) b')
    (b : β) : ∃ b', Comes P st (items.foldlM f b) b' := by
  induction items generalizing b with
  | nil => exact ⟨b, comes_pure b⟩
  | cons a items ih =>
    obtain ⟨ha, hrest⟩ := List.forall_mem_cons.mp h
    obtain ⟨b₁, hb₁⟩ := ha b
    obtain ⟨b₂, hb₂⟩ := ih hrest b₁
    rw [List.foldlM_cons]
    exact ⟨b₂, hb₁.andThen hb₂⟩

/-- The rule comes to a set with exactly the values that satisfy `has`. -/
def Finds (P : Request → Prop) (st : Setting) (r : Rule ConfigSet) (has : Config → Prop) : Prop :=
  ∃ found, Comes P st r found ∧ ∀ c, c ∈ found ↔ has c

lemma finds_empty : Finds P st (pure .empty) fun _ => False :=
  ⟨.empty, comes_pure _, fun c => by simp⟩

/-- A union has what its parts have. -/
lemma finds_unionOf (hP : OneAnswer P) {f : α → Rule ConfigSet} {has : α → Config → Prop}
    (h : ∀ a ∈ items, Finds P st (f a) (has a)) :
    Finds P st (unionOf items f) fun c => ∃ a ∈ items, has a c := by
  obtain ⟨set, hset⟩ : ∃ set, Comes P st (unionOf items f) set := by
    refine exists_comes_foldlM (fun a ha (set : ConfigSet) => ?_) _
    obtain ⟨part, hpart, -⟩ := h a ha
    exact ⟨set ∪ part, hpart.andThen (comes_pure _)⟩
  refine ⟨set, hset, fun c => ⟨fun hc => ?_, fun ⟨a, ha, hc⟩ => ?_⟩⟩
  · obtain ⟨a, ha, part, hpart, hc⟩ := hset.exists_of_mem_unionOf hc
    obtain ⟨part', hpart', hiff⟩ := h a ha
    cases hpart.unique hP hpart'
    exact ⟨a, ha, (hiff c).mp hc⟩
  · obtain ⟨part, hpart, hsub⟩ := hset.unionOf ha
    obtain ⟨part', hpart', hiff⟩ := h a ha
    cases hpart.unique hP hpart'
    exact hsub c ((hiff c).mpr hc)

end Rule

/-! ## Tables -/

/-- Answers to all the queries, and numbers for the environments. Only finitely many
queries have been asked, and the others have no answers. -/
structure Table where
  answer : Query → ConfigSet
  number : Env → Nat
  asked : List Query
  asked_of_mem : ∀ {q : Query} {c : Config}, c ∈ answer q → q ∈ asked

namespace Table

open Rule

/-- The table with the given answers. -/
def ofList (entries : List (Query × List Config)) : Table where
  answer q := (entries.lookup q).elim .empty .ofList
  number _ := 0
  asked := entries.map (·.1)
  asked_of_mem := by
    intro q c hc
    cases hentry : entries.lookup q with
    | none => simp [hentry] at hc
    | some answer =>
      obtain ⟨before, after, rfl, -⟩ := List.lookup_eq_some_iff.mp hentry
      simp

/-- All that any query is answered with. -/
def values (t : Table) : List Config := t.asked.flatMap fun q => (t.answer q).elems

lemma mem_values {t : Table} {q : Query} {c : Config} (h : c ∈ t.answer q) : c ∈ t.values :=
  List.mem_flatMap.mpr ⟨q, t.asked_of_mem h, h⟩

variable {t : Table} {st : Setting} {α : Type}

/-- The request has the answer of the table. -/
def Agrees (t : Table) : Request → Prop :=
  Event.Agrees (fun q => (.ok (t.answer q) : Except AnalysisError ConfigSet)) t.number

/-- What a rule comes to on the table, if it comes to anything. -/
def result (t : Table) (st : Setting) (r : Rule α) : Option α :=
  match ((r st).replay (fun q => .ok (t.answer q)) t.number).2 with
  | .value a => some a
  | _ => none

lemma result_eq_some_iff {r : Rule α} {a : α} :
    t.result st r = some a ↔ Comes t.Agrees st r a := by
  unfold result
  constructor
  · intro h
    split at h
    · next hverdict =>
      cases h
      exact ⟨_, Rhs.run_of_replay (Prod.ext rfl hverdict)⟩
    · cases h
  · rintro ⟨es, hrun, hes⟩
    rw [Rhs.replay_eq_of_run hrun hes]

lemma oneAnswer (t : Table) : OneAnswer t.Agrees :=
  ⟨fun _ _ _ h h' => Except.ok.inj (h.symm.trans h'), fun _ _ _ h h' => h.symm.trans h'⟩

/-! ## Requests -/

lemma comes_ask (t : Table) (st : Setting) (kind : QueryKind) (config : Config) :
    Comes t.Agrees st (ask kind config) (t.answer ⟨kind, config⟩) :=
  ⟨_, .read (.stop _), List.forall_mem_singleton.mpr rfl⟩

lemma comes_numberOf (t : Table) (st : Setting) (env : Env) :
    Comes t.Agrees st (numberOf env) (t.number env) :=
  ⟨_, .number (.stop _), List.forall_mem_singleton.mpr rfl⟩

lemma comes_known (t : Table) (st : Setting) (env : Env) : Comes t.Agrees st (known env) env :=
  (t.comes_numberOf st env).andThen (comes_pure env)

lemma exists_comes_inOrder (t : Table) (st : Setting) (set : ConfigSet) :
    ∃ items, Comes t.Agrees st (inOrder set) items := by
  obtain ⟨numbered, hnumbered⟩ : ∃ numbered, Comes t.Agrees st
      (set.elems.mapM fun c => do return ((c.cursor.key, ← numberOf c.env), c)) numbered :=
    exists_comes_mapM fun c _ =>
      ⟨_, (t.comes_numberOf st c.env).andThen (comes_pure ((c.cursor.key, t.number c.env), c))⟩
  exact ⟨_, hnumbered.andThen (comes_pure _)⟩

lemma finds_unionOver {set : ConfigSet} {f : Config → Rule ConfigSet}
    {has : Config → Config → Prop} (h : ∀ a ∈ set, Finds t.Agrees st (f a) (has a)) :
    Finds t.Agrees st (unionOver set f) fun c => ∃ a ∈ set, has a c := by
  obtain ⟨items, hitems⟩ := t.exists_comes_inOrder st set
  have hparts : ∀ a ∈ items, Finds t.Agrees st (f a) (has a) :=
    fun a ha => h a ((hitems.inOrder a).mp ha)
  obtain ⟨found, hfound, hiff⟩ := finds_unionOf t.oneAnswer hparts
  exact ⟨found, hitems.andThen hfound, fun c => by simp only [hiff, hitems.inOrder]⟩

/-! ## What can be found -/

end Table

/-- The nodes at module level, and what comes from outside. -/
def World.immediates (w : World) : List Config :=
  .external :: (List.range w.arena.size).map (.ofNode · .root)

namespace Table

open Rule

variable {t : Table} {st : Setting} {α : Type} {w : World}

/-- What a rule comes to on the table, as a comparison of the rule with itself: the values
that it finds are among the answers, or are what they are. -/
def comparison (t : Table) (hbuilt : w.program.Built) : Comparison w where
  toTerrain := .all hbuilt
  same := True
  Holds R _ tree := ∀ a, Comes t.Agrees ⟨w, []⟩ (fun _ => tree) a → R a a
  value c := c ∈ t.values ∨ c.Immediate w
  fact q c := c ∈ t.answer q
  immediate _ := .inr
  reads h := ⟨Terrain.found_all _ _, fun _ => .inl (mem_values h)⟩
  mono h hR a ha := hR a a (h a ha)
  done _ h a ha := by
    cases ha.pure
    exact h
  bind {_ _ _ _ _ tree _ f} h hf b hb := by
    obtain ⟨a, ha, hb⟩ := Comes.bind (r := fun _ => tree) (f := fun a _ => f a) hb
    exact hf a a (h a ha) b hb
  read {q} _ _ set h := by
    have h : Comes t.Agrees ⟨w, []⟩ (ask q.kind q.config) set := h
    have hset : t.answer q = set := Except.ok.inj h.ask
    exact .refl fun c hc => by rwa [hset]
  note _ _ _ := rfl
  number _ _ _ _ := rfl
  enters _ _ _ _ _ _ _ _ _ _ _ _ := rfl
  ambiguous := .inr fun _ e a h => absurd h (not_comes_fail e a)
  report h := absurd trivial h
  void h := absurd trivial h
  order h := absurd trivial h
  gather h := absurd trivial h

/-- What an operation comes to on the table, at some depth. -/
def Yields (t : Table) (st : Setting) (op : Operation α) (a : α) : Prop :=
  ∃ depth, Comes t.Agrees st (meaning depth op) a

lemma Yields.unique (hbuilt : st.world.program.Built) {op : Operation α} {a a' : α}
    (h : t.Yields st op a) (h' : t.Yields st op a') : a = a' := by
  obtain ⟨d, hd⟩ := h
  obtain ⟨d', hd'⟩ := h'
  exact hd.unique_depth t.oneAnswer (r := fun d => meaning d op) (deeper_meaning hbuilt op) hd'

end Table

end ValueFlow
