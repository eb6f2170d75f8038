import ValueFlow.Proofs.Flow.Settled

/-!
# Rules that read less

A rule that is run while other answers are still missing reads less than it
will read later. `Session.Tabled.comparison` compares the two: the first rule, whatever
it reads below the table of a settled session, stays below what the second one
comes to on the table itself. It then asks only what the session has answered
and tells only what the session was told.

Not every rule compares with itself. What a call or an access stands for is looked up
again where the value is used, and the rules switch on what they find there;
and a `new` expression switches on whether its callee is a function of the
program. `Session.Plain` are the sessions in which neither switch is met.
-/

namespace ValueFlow

open ValueFlow.Lattice (Le)

variable {s : Session}

namespace Session

variable {asked : List Query}

/-- No query has failed, no value stands for what a call or an access gives, and
no function of the program is constructed. -/
structure Plain (s : Session) : Prop where
  intact : ∀ q, s.solver.failure q = none
  values : ∀ config set, s.Solved ⟨.evaluate, config⟩ set → ∀ c ∈ set,
    s.world.program.arena.isResult c = false
  constructed : ∀ n callee arguments env, s.world.program.arena.form n = .new callee arguments →
    s.solver.Touched ⟨.evaluate, .ofNode n env⟩ →
    ∀ set, s.Solved ⟨.evaluate, .ofNode callee env⟩ set →
      ∀ c ∈ set, c.node?.any s.world.program.arena.isFunction = false

/-- A plain session on a program from sources, with its answers in the table. -/
structure Steady (s : Session) : Prop extends s.Plain where
  built  : s.world.program.Built
  solved : ∀ q set, s.Solved q set → s.solver.Touched q ∧ s.solver.assignment q = set

lemma Reached.touched_of_solved {w : World} (h : Reached w asked s) (q : Query) (set : ConfigSet)
    (hset : s.Solved q set) : s.solver.Touched q ∧ s.solver.assignment q = set := by
  obtain ⟨htouched, hvalue⟩ := Solver.touched_of_cached (h.solved_iff.mp hset).1
  exact ⟨htouched, hvalue.symm⟩

lemma Reached.steady {w : World} (h : Reached w asked s) (hbuilt : w.program.Built)
    (hplain : s.Plain) : s.Steady where
  toPlain := hplain
  built := h.world_eq ▸ hbuilt
  solved := h.touched_of_solved

/-- A value of a plain session. -/
def Admits (s : Session) (c : Config) : Prop := s.world.program.arena.isResult c = false

lemma admits_of_immediate {c : Config} (h : c.Immediate s.world) : s.Admits c := by
  obtain ⟨cursor, env⟩ := c
  cases cursor with
  | node n =>
    obtain ⟨-, ⟨name, hform, -⟩ | ⟨body, hform⟩⟩ := h
    · simp [Admits, Arena.isResult, Config.node?, Cursor.node?, hform]
    · simp [Admits, Arena.isResult, Config.node?, Cursor.node?, hform]
  | _ => rfl

/-- The answers of the session are in its table, and its values satisfy `p`. -/
structure Tabled (s : Session) (p : Config → Prop) : Prop where
  built     : s.world.program.Built
  solved    : ∀ q set, s.Solved q set → s.solver.Touched q ∧ s.solver.assignment q = set
  values    : ∀ config set, s.Solved ⟨.evaluate, config⟩ set → ∀ c ∈ set, p c
  immediate : ∀ c, c.Immediate s.world → p c

lemma Reached.tabled {w : World} (h : Reached w asked s) (hbuilt : w.program.Built) :
    s.Tabled fun _ => True :=
  ⟨h.world_eq ▸ hbuilt, h.touched_of_solved, fun _ _ _ _ _ => trivial, fun _ _ => trivial⟩

lemma Steady.tabled (hs : s.Steady) : s.Tabled s.Admits :=
  ⟨hs.built, hs.solved, hs.values, fun _ => admits_of_immediate⟩

end Session

namespace Rule

variable {s : Session} {α β : Type} {visiting : List Visit}

/-! ## Loops below the table -/

/-- More items, each of which contributes more, give more. -/
lemma within_gather {γ δ : Type} [Membership δ γ] {add : γ → γ → γ} {items : List α}
    (hadd : ∀ x y d, d ∈ add x y ↔ d ∈ x ∨ d ∈ y) {f : α → Rule γ} {start most : γ}
    (hstart : ∀ d ∈ start, d ∈ most)
    (hf : ∀ a ∈ items, (f a ⟨s.world, visiting⟩).Within s.solver.Touched s.solver.assignment
      fun part => ∀ d ∈ part, d ∈ most) :
    ((items.foldlM (fun x item => do return add x (← f item)) start : Rule γ)
      ⟨s.world, visiting⟩).Within s.solver.Touched s.solver.assignment
      fun result => ∀ d ∈ result, d ∈ most := by
  induction items generalizing start with
  | nil => exact hstart
  | cons a items ih =>
    rw [List.foldlM_cons]
    have hstep : ((do return add start (← f a) : Rule γ) ⟨s.world, visiting⟩).Within
        s.solver.Touched s.solver.assignment fun x => ∀ d ∈ x, d ∈ most :=
      Rhs.keeps_bind (hf a (.head _)) fun part hpart d hd =>
        ((hadd _ _ d).mp hd).elim (hstart d) (hpart d)
    exact Rhs.keeps_bind hstep fun x hx => ih hx fun b hb => hf b (.tail _ hb)

lemma within_inOrder (set : ConfigSet) (visiting : List Visit) :
    (inOrder set ⟨s.world, visiting⟩).Within s.solver.Touched s.solver.assignment
      fun items => ∀ c ∈ items, c ∈ set := by
  have hnumbered : ∀ elems : List Config, ((elems.mapM fun c => do
      return ((c.cursor.key, ← numberOf c.env), c) : Rule _) ⟨s.world, visiting⟩).Within
        s.solver.Touched s.solver.assignment fun numbered => numbered.map (·.2) = elems := by
    intro elems
    induction elems with
    | nil => exact rfl
    | cons c elems ih =>
      rw [List.mapM_cons]
      have hfirst : ((do return ((c.cursor.key, ← numberOf c.env), c) : Rule _)
          ⟨s.world, visiting⟩).Within s.solver.Touched s.solver.assignment (·.2 = c) :=
        ⟨trivial, fun _ => show c = c from rfl⟩
      refine Rhs.keeps_bind hfirst fun first hfirst => Rhs.keeps_bind ih fun rest hrest => ?_
      change (first :: rest).map (·.2) = c :: elems
      rw [List.map_cons, hfirst, hrest]
  refine Rhs.keeps_bind (hnumbered set.elems) fun numbered hsame c hc => ?_
  rw [((sortBy_perm _ numbered).map (·.2)).mem_iff, hsame] at hc
  exact PowerSet.mem_def.mpr hc

end Rule

/-! ## The comparison -/

namespace Session

open Rule (Comes Request)

variable {s : Session} {α β γ δ : Type} {p : Config → Prop} {R : α → α → Prop}
  {tree tree' : Rhs Query ConfigSet AnalysisError Diagnostic Env α} {visiting : List Visit}

/-- Whatever it reads below the table of the session, the first run stays below what
the second one comes to on the table. -/
def Follows (s : Session) (R : α → α → Prop)
    (tree tree' : Rhs Query ConfigSet AnalysisError Diagnostic Env α) : Prop :=
  ∀ a', Comes s.Grants ⟨s.world, []⟩ (fun _ => tree') a' →
    R a' a' ∧ tree.Within s.solver.Touched s.solver.assignment (R · a')

lemma Follows.bind {R' : β → β → Prop}
    {f f' : α → Rhs Query ConfigSet AnalysisError Diagnostic Env β}
    (h : Follows s R tree tree') (hf : ∀ a b, R a b → Follows s R' (f a) (f' b)) :
    Follows s R' (tree.bind f) (tree'.bind f') := by
  intro b' hcomes
  obtain ⟨a', ha', hb'⟩ := Comes.bind (r := fun _ => tree') (f := fun a _ => f' a) hcomes
  obtain ⟨hrefl, hwithin⟩ := h a' ha'
  refine ⟨(hf a' a' hrefl b' hb').1, Rhs.keeps_bind hwithin fun a ha => ?_⟩
  exact (hf a a' ha b' hb').2

lemma Tabled.follows_ask (hs : s.Tabled p) (q : Query) :
    Follows s (Below False fun c => q.kind = .evaluate → p c) (.read q .done) (.read q .done) := by
  intro set h
  have h : Comes s.Grants ⟨s.world, []⟩ (Rule.ask q.kind q.config) set := h
  have hsolved : s.Solved q set := h.ask
  obtain ⟨htouched, hset⟩ := hs.solved _ _ hsolved
  have hall : ∀ c ∈ set, q.kind = .evaluate → p c := by
    rintro c hc hkind
    obtain ⟨kind, config⟩ := q
    cases hkind
    exact hs.values config set hsolved c hc
  refine ⟨.refl hall, htouched, fun v hv => ⟨False.elim, ?_, hall⟩⟩
  exact hset ▸ PowerSet.le_iff.mp hv

lemma Tabled.follows_tell (hs : s.Tabled p) {kind : QueryKind} (hkind : kind ≠ .bind)
    (config : Config) (facts : ConfigSet) : Follows s Eq (Rule.tell kind config facts ⟨s.world, visiting⟩)
      (Rule.tell kind config facts ⟨s.world, visiting⟩) := by
  intro u h
  have h : Comes s.Grants ⟨s.world, visiting⟩ (Rule.tell kind config facts) u := h
  obtain ⟨set, hset, hfacts⟩ := h.tell hkind
  obtain ⟨htouched, hvalue⟩ := hs.solved _ _ hset
  exact ⟨rfl, htouched, PowerSet.le_iff.mpr (hvalue ▸ hfacts), rfl⟩

lemma Follows.noted (h : Follows s R tree tree') (report : Diagnostic) (b b' : Bool) :
    Follows s R (if b then .note report tree else tree)
      (if b' then .note report tree' else tree') := by
  intro a' hcomes
  have hcomes : Comes s.Grants ⟨s.world, []⟩ (fun _ => tree') a' := by
    cases b' with
    | false => exact hcomes
    | true =>
      obtain ⟨-, -, hcomes⟩ :=
        Comes.bind (r := fun _ => .note report (.done ())) (f := fun _ _ => tree') hcomes
      exact hcomes
  obtain ⟨hrefl, hwithin⟩ := h a' hcomes
  refine ⟨hrefl, ?_⟩
  cases b <;> exact hwithin

lemma Follows.void [Membership δ γ] {p : δ → Prop} {none : γ}
    {tree tree' : Rhs Query ConfigSet AnalysisError Diagnostic Env γ} (hnone : ∀ d, d ∉ none)
    (h : Follows s (Below False p) tree tree') :
    Follows s (Below False p) (.done none) tree' := by
  intro a' hcomes
  obtain ⟨hrefl, -⟩ := h a' hcomes
  exact ⟨hrefl, False.elim, fun d hd => absurd hd (hnone d), hrefl.all⟩

lemma follows_inOrder {q : Config → Prop} {set set' : ConfigSet} (h : Below False q set set') :
    Follows s (Below False q) (Rule.inOrder set ⟨s.world, visiting⟩)
      (Rule.inOrder set' ⟨s.world, visiting⟩) := by
  intro items' hcomes
  have hitems' : ∀ c, c ∈ items' ↔ c ∈ set' :=
    Comes.inOrder (P := s.Grants) (s := ⟨s.world, visiting⟩) hcomes
  have hall : ∀ c ∈ items', q c := fun c hc => h.all c ((hitems' c).mp hc)
  refine ⟨.refl hall, (Rule.within_inOrder set visiting).imp fun items hitems => ?_⟩
  exact ⟨False.elim, fun c hc => (hitems' c).mpr (h.subset c (hitems c hc)), hall⟩

lemma follows_gather [Membership δ γ] {add : γ → γ → γ} {none : γ} {q : α → Prop} {p : δ → Prop}
    {items items' : List α} {f f' : α → Rule γ} (hadd : ∀ x y d, d ∈ add x y ↔ d ∈ x ∨ d ∈ y)
    (hnone : ∀ d, d ∉ none) (hitems : Below False q items items')
    (hf : ∀ a, q a →
      Follows s (Below False p) (f a ⟨s.world, visiting⟩) (f' a ⟨s.world, visiting⟩)) :
    Follows s (Below False p)
      ((items.foldlM (fun x a => do return add x (← f a)) none : Rule γ) ⟨s.world, visiting⟩)
      ((items'.foldlM (fun x a => do return add x (← f' a)) none : Rule γ)
        ⟨s.world, visiting⟩) := by
  intro most hcomes
  obtain ⟨-, hparts, hback⟩ := Comes.gather (P := s.Grants) (s := ⟨s.world, visiting⟩)
    hadd hcomes
  have hall : ∀ d ∈ most, p d := by
    intro d hd
    obtain hd | ⟨a, ha, part, hpart, hd⟩ := hback d hd
    · exact absurd hd (hnone d)
    · exact (hf a (hitems.all a ha) part hpart).1.all d hd
  refine ⟨.refl hall, Rhs.Keeps.imp ?_ fun _ hsub => ⟨False.elim, hsub, hall⟩⟩
  refine Rule.within_gather hadd (fun d hd => absurd hd (hnone d)) fun a ha => ?_
  obtain ⟨part, hpart, hmost⟩ := hparts a (hitems.subset a ha)
  exact (hf a (hitems.all a (hitems.subset a ha)) part hpart).2.imp
    fun _ h d hd => hmost d (h.subset d hd)

/-- Reading less than the table has, as a comparison of rules. -/
def Tabled.comparison (hs : s.Tabled p) : Comparison s.world where
  toTerrain := .all hs.built
  same := False
  Holds := Follows s
  value := p
  fact q c := q.kind = .evaluate → p c
  immediate := hs.immediate
  reads {q c} h := ⟨Terrain.found_all q c, h⟩
  mono h hR a' hcomes := ⟨hR _ _ (h a' hcomes).1, (h a' hcomes).2.imp fun a => hR a a'⟩
  done h hright a' hcomes := by
    cases Comes.pure (P := s.Grants) (s := ⟨s.world, []⟩) hcomes
    exact ⟨hright, h⟩
  bind := Follows.bind
  read _ _ := hs.follows_ask _
  note _ _ _ := ⟨rfl, rfl⟩
  number _ _ _ := ⟨False.elim, trivial, fun _ => False.elim⟩
  enters _ _ _ _ _ _ _ _ _ _ := Follows.bind (hs.follows_tell (by decide) _ _) fun _ _ _ =>
    hs.follows_tell (by decide) _ _
  ambiguous := .inr fun _ e a' hcomes => absurd hcomes (Rule.not_comes_fail e a')
  report _ := Follows.noted
  void _ := Follows.void
  order _ := fun h _ => follows_inOrder h
  gather _ := follows_gather

end Session

namespace Rule

variable {s : Session} {α : Type} {R : α → α → Prop} {p : Config → Prop} {visiting : List Visit}

/-- A rule that comes to nothing on the table is followed by any rule. -/
lemma compares_of_not_comes {hs : s.Tabled p} {r r' : Rule α}
    (h : ∀ visiting a, ¬ Comes s.Grants ⟨s.world, visiting⟩ r' a) : Compares hs.comparison R r r' :=
  fun visiting a' hcomes => absurd hcomes (h visiting a')

/-! ## Awaiting -/

section Awaiting

variable {hs : s.Tabled s.Admits}

/-- Values that are admitted come to values that are. -/
lemma opens_admitted {depth : Nat}
    (hp : ∀ d < depth, Performs hs.comparison (meaning 0) (meaning d)) (visiting : List Visit) :
    Opens s.Grants ⟨s.world, visiting⟩ s.Admits depth := by
  intro d hd value set hvalue hfound c hc
  have hopened := (compares_opened (hp d hd) (.inl (Terrain.spot_all value)) hvalue visiting _
    hfound).1
  cases hopened with
  | some hset => exact (hset.all c hc).2

/-- Awaiting what has been visited, with less settled, stays below what the
search has settled. -/
lemma within_awaited {bound : Nat} {visited : List Config} {result : ConfigSet}
    (hawaits : Awaits s.Grants ⟨s.world, visiting⟩ s.Admits bound visited result (· ∈ visited))
    {depth : Nat}
    (hp : ∀ k < depth, ∀ d < bound, Performs hs.comparison (meaning k) (meaning d))
    {pending seen : List Config} {settled : ConfigSet} (hpending : pending ⊆ visited)
    (hsettled : ∀ c ∈ settled, c ∈ result) :
    (meaning depth (.awaited pending seen settled) ⟨s.world, visiting⟩).Within s.solver.Touched
      s.solver.assignment fun found => ∀ c ∈ found, c ∈ result := by
  induction depth generalizing pending seen settled with
  | zero => trivial
  | succ depth ih =>
    have hp' := fun k (hk : k < depth) => hp k (Nat.lt_succ_of_lt hk)
    change (awaited (meaning depth) pending seen settled ⟨s.world, visiting⟩).Within _ _ _
    cases pending with
    | nil => exact hsettled
    | cons value pending =>
      obtain ⟨hvalue, hpending⟩ := List.cons_subset.mp hpending
      rw [awaited_cons]
      split
      · exact ih hp' hpending hsettled
      · obtain ⟨hadmits, d, hd, found', hfound', hleads⟩ := hawaits value hvalue
        obtain ⟨-, hopened⟩ := compares_opened (hp depth .refl d hd)
          (.inl (Terrain.spot_all value)) hadmits visiting found' hfound'
        have hinsert : value ∈ result → ∀ c ∈ settled.insert value, c ∈ result := fun hin c hc =>
          (PowerSet.mem_insert.mp hc).elim (hsettled c) (· ▸ hin)
        refine Rhs.keeps_bind hopened fun found hfound => ?_
        cases hfound with
        | none => exact ih hp' hpending (hinsert hleads)
        | some hset =>
          refine Rhs.keeps_bind (within_inOrder _ visiting) fun next hnext => ih hp' ?_ ?_
          · refine List.append_subset.mpr ⟨fun c hc => ?_, hpending⟩
            obtain ⟨hmem, hne⟩ := PowerSet.mem_erase.mp (hnext c hc)
            exact hleads.2 c (hset.subset c hmem) hne
          · split
            · next hself => exact hinsert (hleads.1 (hset.subset value hself))
            · exact hsettled

end Awaiting

/-! ## All operations -/

/-- The depth of the smaller side does not matter. -/
lemma compares_meaning {hs : s.Tabled p} {op op' : Operation α} {depth' : Nat}
    (h : ∀ k, Compares hs.comparison R (meaning (k + 1) op) (meaning depth' op')) (depth : Nat) :
    Compares hs.comparison R (meaning depth op) (meaning depth' op') := by
  cases depth with
  | zero => exact fun visiting a' hcomes => ⟨(h 0 visiting a' hcomes).1, trivial⟩
  | succ depth => exact h depth

/-- By induction on the depth of the larger side. -/
lemma performs_meaning (hs : s.Tabled s.Admits) (depth' depth : Nat) :
    Performs hs.comparison (meaning depth) (meaning depth') := by
  induction depth' using Nat.strongRecOn generalizing depth with
  | ind depth' ih =>
    cases depth' with
    | zero =>
      -- at this depth the larger side comes to nothing
      exact .of_trivial (fun _ => .inr) fun _ _ _ =>
        compares_of_not_comes fun _ _ => not_comes_diverge _
    | succ depth' =>
      have hp := ih depth' .refl
      refine ⟨fun _ => .inr, fun hcallee => ?_, fun hvalue => ?_, fun hvalues name site hsite => ?_,
        fun hvalues position => ?_, fun hpending _ hstart visiting result h => ?_⟩
      · exact compares_meaning (fun k => compares_calleeTargets (hp k).resolves hcallee) depth
      · exact compares_meaning
          (fun k => (compares_kindsOf (hp k).resolves hvalue).guarded .nil) depth
      · exact compares_meaning (fun k => compares_propertyValues (hp k).resolves hsite hvalues name
          fun _ hvalue hsettled => compares_producedProperty (hp k) hvalue hsettled name) depth
      · exact compares_meaning (fun k => compares_elementValues (hp k) hvalues position) depth
      -- what was awaited on the larger side is visited already
      · obtain ⟨rfl, rfl, rfl⟩ := hstart.resolve_left False.elim
        obtain ⟨visited, hall, -, hadmits, hawaits⟩ :=
          exists_awaits (opens_admitted (fun d hd => ih d hd 0) visiting)
            (fun c hc => (hpending.all c hc).2)
            (fun c hc => absurd hc (PowerSet.not_mem_empty c)) h
        have hvisited : ∀ c, c ∈ visited ∨ c ∈ [] → c ∈ visited := fun c hc =>
          hc.resolve_right List.not_mem_nil
        have hvalues : ∀ c ∈ result, hs.comparison.place c ∧ hs.comparison.value c :=
          fun c hc => ⟨.inl (Terrain.spot_all c), hadmits c hc⟩
        refine ⟨.refl hvalues, Rhs.Keeps.imp ?_ fun _ hsub => ⟨False.elim, hsub, hvalues⟩⟩
        refine within_awaited (fun c hc => ?_) (fun k _ d hd => ih d hd k)
          (fun c hc => hvisited c (hall c (hpending.subset c hc)))
          fun c hc => absurd hc (PowerSet.not_mem_empty c)
        obtain ⟨hcv, d, hd, found, hfound, hleads⟩ := hawaits c hc
        exact ⟨hcv, d, hd, found, hfound, hleads.imp hvisited⟩

/-! ## The whole right-hand side -/

/-- Where no function of the program is constructed, the switch on the callee
goes one way only. -/
lemma compares_newValues_of_steady (hs : s.Steady) {perform perform' : Meaning}
    (hp : Performs hs.tabled.comparison perform perform') {n callee : NodeId}
    {arguments : List NodeId} {env : Env} (hform : s.world.arena.form n = .new callee arguments)
    (hsite : hs.tabled.comparison.site ⟨n, env⟩)
    (htouched : s.solver.Touched ⟨.evaluate, .ofNode n env⟩) :
    Compares hs.tabled.comparison (hs.tabled.comparison.results (.ofNode n env))
      (newValues perform n callee env) (newValues perform' n callee env) := by
  refine compares_newValues hp hsite fun visiting set h => ?_
  have hno : ∀ found : ConfigSet, (∀ c ∈ found, c ∈ set) →
      found.elems.any (fun value => value.node?.any s.world.arena.isFunction) = false := by
    intro found hsub
    refine List.any_eq_false.mpr fun c hc => ?_
    rw [hs.constructed n callee arguments env hform htouched set (Comes.ask h) c (hsub c hc)]
    exact Bool.false_ne_true
  have hcallee : hs.tabled.comparison.At callee env := hsite.1.part hform (.head _) rfl
  refine ⟨rfl, (compares_values hcallee visiting set h).2.imp fun found hfound => ?_⟩
  exact (hno found hfound.subset).trans (hno set fun _ hc => hc).symm

lemma compares_answer_of_steady (hs : s.Steady) {q : Query} (htouched : s.solver.Touched q)
    (depth : Nat) : Compares hs.tabled.comparison (Below False fun _ => True)
      (answer (meaning depth) q.kind q.config) (answer (meaning depth) q.kind q.config) := by
  have hp := performs_meaning hs.tabled depth depth
  by_cases hanswerable : q.Answerable s.world
  · refine (compares_answer hp (Terrain.posed_all q) hanswerable
      fun n callee arguments hkind hn hform hsite => ?_).imp fun _ _ => trivial
    refine compares_newValues_of_steady hs hp hform hsite ?_
    obtain ⟨kind, config⟩ := q
    cases hkind
    rwa [← Config.eq_of_node? hn]
  · obtain ⟨hkind, n, hn, hsymbol⟩ := Query.not_answerable.mp hanswerable
    refine compares_of_not_comes fun visiting a h => ?_
    rw [hkind] at h
    change Comes _ _ (Rule.bind _ q.config) _ at h
    unfold Rule.bind at h
    simp only [hn, comes_bind_scopes, hsymbol] at h
    exact not_comes_missingDeclaration n a h

end Rule

namespace Session

variable {w : World} {asked : List Query} {s : Session}

/-- Whatever is evaluated on less than the table of a plain session stays below
the table. -/
lemma Reached.within_equation (h : Reached w asked s) (hbuilt : w.program.Built)
    (hplain : s.Plain) {q : Query} (hq : s.solver.Touched q) :
    (w.equation q).Within s.solver.Touched s.solver.assignment
      fun v => Le v (s.solver.assignment q) := by
  have hsolved : s.Solved q (s.solver.assignment q) :=
    h.solved_iff.mpr ⟨Solver.cached_of_touched h.sane.1 hq, hplain.intact q⟩
  obtain ⟨part, hpart, hsub⟩ := h.comes_solve (fun q _ => hplain.intact q) hsolved
  have hworld := h.world_eq
  subst hworld
  have hs := h.steady hbuilt hplain
  have hasked : hs.tabled.comparison.Asked q := Terrain.asked_of_posed (Terrain.posed_all q)
  obtain ⟨-, hwithin⟩ := Rule.compares_solve hasked (Rule.compares_answer_of_steady hs hq _ [])
    (fun c _ _ => hs.tabled.comparison.mono (hs.tabled.follows_ask ⟨q.kind, c⟩)
      fun _ _ hv => hv.imp fun _ _ => trivial) part hpart
  refine hwithin.imp fun v hv => ?_
  exact PowerSet.le_iff.mpr fun c hc => hsub c (hv.subset c hc)

end Session

end ValueFlow
