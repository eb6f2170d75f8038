import ValueFlow.Proofs.Equations.Convergence

/-!
# Laws of a table

A law says which queries may be asked, what may be held at each of them, which
errors there are and which things are numbered. If every right-hand side keeps
to it as long as it is given values that do, the table keeps to it at every
moment.

What a right-hand side may count on for the values it reads need not be the law
alone: a value read is still below what the table holds in the end, although
nothing that a right-hand side computes from it need be.
-/

namespace ValueFlow

open Moment (resting running)

variable {Q V E N T α β : Type}

/-- A law of a table. -/
structure Law (Q V E T : Type) [Lattice V] where
  /-- What may be asked. -/
  query : Q → Prop
  held : Q → V → Prop
  /-- What a right-hand side can count on when it reads a query. -/
  given : Q → V → Prop
  error : E → Prop
  /-- What a right-hand side may have numbered. -/
  thing : T → Prop
  bottom : ∀ q, held q Lattice.bottom
  absorb : ∀ q a b, held q a → held q b → held q (Lattice.absorb a b).1

/-- A law about the elements of sets. -/
def Law.ofMembers [DecidableEq α] [Fingerprint α] (query : Q → Prop) (member : Q → α → Prop)
    (error : E → Prop) (thing : T → Prop := fun _ => True) : Law Q (PowerSet α) E T where
  query := query
  held q set := ∀ a ∈ set, member q a
  given q set := ∀ a ∈ set, member q a
  error := error
  thing := thing
  bottom _ a ha := absurd ha (PowerSet.not_mem_empty a)
  absorb q a b ha hb c hc := by
    unfold Lattice.absorb at hc
    split at hc
    · exact (PowerSet.mem_union.mp hc).elim (ha c) (hb c)
    · exact ha c hc

namespace Rhs

variable [Lattice V] {L : Law Q V E T} {post post' : α → Prop} {p : Rhs Q V E N T α}

/-- Every run that is given what it can count on asks, pushes and has things
numbered by the law, fails only by the law, and ends with a result that satisfies
`post`. -/
def Keeps (L : Law Q V E T) : Rhs Q V E N T α → (α → Prop) → Prop
  | .done a, post => post a
  | .fail e, _ => L.error e
  | .diverge, _ => True
  | .read q next, post => L.query q ∧ ∀ v, L.given q v → (next v).Keeps L post
  | .push q v next, post => L.query q ∧ L.held q v ∧ next.Keeps L post
  | .note _ next, post => next.Keeps L post
  | .number t next, post => L.thing t ∧ ∀ i, (next i).Keeps L post

lemma keeps_bind {f : α → Rhs Q V E N T β} {post' : β → Prop}
    (hp : p.Keeps L post) (hf : ∀ a, post a → (f a).Keeps L post') : (p.bind f).Keeps L post' := by
  induction p with
  | done a => exact hf a hp
  | fail e => exact hp
  | diverge => trivial
  | read q next ih => exact ⟨hp.1, fun v hv => ih v (hp.2 v hv)⟩
  | push q v next ih => exact ⟨hp.1, hp.2.1, ih hp.2.2⟩
  | note n next ih => exact ih hp
  | number t next ih => exact ⟨hp.1, fun i => ih i (hp.2 i)⟩

lemma Keeps.imp (hp : p.Keeps L post) (h : ∀ a, post a → post' a) :
    p.Keeps L post' := by
  rw [← bind_done p]
  exact keeps_bind hp h

/-- Whatever is come to, is come to by a run that was given what it can count on. -/
lemma Keeps.run (hp : p.Keeps L post) :
    p.Keeps L fun a => ∃ es, p.Run es (.done a) ∧ ∀ q v, .read q v ∈ es → L.given q v := by
  induction p with
  | done a => exact ⟨[], .stop _, fun _ _ he => absurd he List.not_mem_nil⟩
  | fail e => exact hp
  | diverge => trivial
  | read q next ih =>
    refine ⟨hp.1, fun v hv => (ih v (hp.2 v hv)).imp fun a => ?_⟩
    rintro ⟨es, hrun, hes⟩
    refine ⟨.read q v :: es, .read hrun, fun q' v' he => ?_⟩
    obtain heq | he := List.mem_cons.mp he
    · cases heq
      exact hv
    · exact hes q' v' he
  | push q v next ih =>
    refine ⟨hp.1, hp.2.1, (ih hp.2.2).imp fun a => ?_⟩
    rintro ⟨es, hrun, hes⟩
    exact ⟨_, .push hrun, fun q' v' he => hes q' v' (by simpa using he)⟩
  | note n next ih =>
    refine (ih hp).imp fun a => ?_
    rintro ⟨es, hrun, hes⟩
    exact ⟨_, .note hrun, fun q' v' he => hes q' v' (by simpa using he)⟩
  | number t next ih =>
    refine ⟨hp.1, fun i => (ih i (hp.2 i)).imp fun a => ?_⟩
    rintro ⟨es, hrun, hes⟩
    exact ⟨.number t i :: es, .number hrun, fun q' v' he => hes q' v' (by simpa using he)⟩

/-- What a run that was given what it can count on comes to. -/
lemma Keeps.of_run (hp : p.Keeps L post) {es : List (Event Q V N T)} {a : α}
    (hrun : p.Run es (.done a)) (hes : ∀ q v, .read q v ∈ es → L.given q v) : post a := by
  induction p generalizing es with
  | done b =>
    obtain ⟨-, rfl⟩ := run_done hrun
    exact hp
  | fail | diverge => cases hrun
  | read q next ih =>
    cases hrun with
    | read hrun =>
      exact ih _ (hp.2 _ (hes q _ (.head _))) hrun fun q' v' he => hes q' v' (.tail _ he)
  | push q v next ih =>
    cases hrun with
    | push hrun => exact ih hp.2.2 hrun fun q' v' he => hes q' v' (.tail _ he)
  | note n next ih =>
    cases hrun with
    | note hrun => exact ih hp hrun fun q' v' he => hes q' v' (.tail _ he)
  | number t next ih =>
    cases hrun with
    | number hrun => exact ih _ (hp.2 _) hrun fun q' v' he => hes q' v' (.tail _ he)

end Rhs

namespace Solver

/-! ## Tables that keep to a law -/

/-- All queries in the table, what it holds at them and how they failed are by
the law. -/
def Kept [Lattice V] (L : Law Q V E T) (s : Solver Q V E N T) : Prop :=
  ∀ (i : Nat) (q : Q) (c : Cell V E N), s.queries.get? i = some q → s.cells[i]? = some c →
    L.query q ∧ L.held q c.value ∧ ∀ e, c.failure = some e → L.error e

section Kept

variable [Lattice V] {L : Law Q V E T} {s t : Solver Q V E N T}

variable (h : s.Kept L)

include h

lemma Kept.of_maps {f : Nat → Cell V E N → Cell V E N} (hmap : Maps s f t)
    (hqueries : t.queries = s.queries)
    (hf : ∀ i q c, s.queries.get? i = some q → L.held q c.value →
      L.held q (f i c).value ∧ ∀ e, (f i c).failure = some e → c.failure = some e ∨ L.error e) :
    t.Kept L := by
  intro i q d hq hd
  obtain ⟨c, hc, rfl⟩ := hmap.exists_of_get hd
  rw [hqueries] at hq
  obtain ⟨hquery, hheld, herror⟩ := h i q c hq hc
  obtain ⟨hheld', hfailure⟩ := hf i q c hq hheld
  exact ⟨hquery, hheld', fun e he => (hfailure e he).elim (herror e) id⟩

lemma Kept.absorb {i : Nat} {v : V}
    (hv : ∀ q, s.queries.get? i = some q → L.held q v) : (s.absorb i v).2.Kept L := by
  obtain ⟨requeued, hmap, -⟩ := maps_absorb s i v
  refine h.of_maps hmap (queries_absorb s i v) fun j q c hq hheld => ⟨?_, fun e he => .inl he⟩
  dsimp only
  split
  · next hji =>
    subst hji
    exact L.absorb q _ _ hheld (hv q hq)
  · exact hheld

lemma Kept.addReader (k i : Nat) : (s.addReader k i).Kept L := by
  refine h.of_maps (maps_addReader s k i) rfl fun j q c _ hheld => ?_
  split <;> exact ⟨hheld, fun e he => .inl he⟩

lemma Kept.dequeue (i : Nat) (w : Fifo Nat) : (s.dequeue i w).Kept L := by
  refine h.of_maps (maps_dequeue s i w) rfl fun j q c _ hheld => ?_
  split <;> exact ⟨hheld, fun e he => .inl he⟩

lemma Kept.fail (i : Nat) {e : E} (he : L.error e) : (s.fail i e).Kept L := by
  obtain ⟨marked, hmarks, -⟩ := spread_marks e (s.readCount + 1) [i] s
  refine h.of_maps hmarks.cells hmarks.queries fun j q c _ hheld => ⟨hheld, fun e' he' => ?_⟩
  obtain hold | ⟨-, hnew⟩ := Option.or_eq_some_iff.mp he'
  · exact .inl hold
  · split at hnew
    · cases hnew
      exact .inr he
    · exact nomatch hnew

lemma Kept.quiet [Fingerprint T] (hst : Quiet s t) : t.Kept L := by
  obtain ⟨f, hmap, hf⟩ := hst.cells
  refine h.of_maps hmap hst.queries fun i q c _ hheld => ?_
  rw [(hf i c).1, (hf i c).2.1]
  exact ⟨hheld, fun e he => .inl he⟩

variable [Fingerprint Q] [Fingerprint T]

lemma Kept.enroll (hs : s.Coherent) {q : Q} {v : V} (hq : L.query q)
    (hv : L.held q v) : (s.enroll q v).Kept L := by
  intro i p c hp hc
  have hget : (s.enroll q v).queries.get? i =
      if i = s.queries.size then some q else s.queries.get? i := Numbering.get?_append _ _ _
  rw [hget] at hp
  rw [cells_enroll hs] at hc
  split at hp
  · next hi =>
    rw [if_pos hi] at hc
    cases hp
    cases hc
    exact ⟨hq, hv, fun e he => nomatch he⟩
  · next hi =>
    rw [if_neg hi] at hc
    exact h i p c hp hc

variable [DecidableEq Q]

lemma Kept.touch (hs : s.Coherent) {q : Q} (hq : L.query q) :
    (s.touch q).2.Kept L := by
  unfold Solver.touch
  split
  · exact h
  · exact h.enroll hs hq (L.bottom q)

lemma Kept.pushFact (hs : s.Coherent) {q : Q} {v : V} (hq : L.query q)
    (hv : L.held q v) : (s.pushFact q v).2.Kept L := by
  unfold Solver.pushFact
  split
  · exact h.enroll hs hq hv
  · next i hi =>
    split
    · exact h
    · refine h.absorb fun p hp => ?_
      rw [Numbering.get?_of_find? hi] at hp
      cases hp
      exact hv

omit [Fingerprint T] in
/-- Nothing has failed if the law knows no errors. -/
lemma Kept.failure_eq_none (hL : ∀ e, ¬ L.error e) (q : Q) :
    s.failure q = none := by
  cases hi : s.queries.find? q with
  | none => simp [failure, hi]
  | some i =>
    cases hc : s.cells[i]? with
    | none => simp [failure, hi, hc]
    | some c =>
      have herror := (h i q c (Numbering.get?_of_find? hi) hc).2.2
      simpa [failure, hi, hc] using Option.eq_none_iff_forall_not_mem.mpr fun e he =>
        hL e (herror e he)

end Kept

/-! ## From moment to moment -/

/-- The table keeps to the law, and so does what is left of the evaluation
under way. -/
def KeptAt [Lattice V] (L : Law Q V E T) : Moment Q V E N T → Prop
  | .resting s => s.Kept L
  | .running i p s => s.Kept L ∧ ∃ q, s.queries.get? i = some q ∧ p.Keeps L (L.held q)

variable {m : Moment Q V E N T}

lemma KeptAt.kept [Lattice V] {L : Law Q V E T} (h : KeptAt L m) :
    m.solver.Kept L := by
  cases m with
  | resting s => exact h
  | running i p s => exact h.1

lemma KeptAt.thing [Lattice V] {L : Law Q V E T} (h : KeptAt L m)
    {t : T} (ht : m.pending? = some t) : L.thing t := by
  cases m with
  | resting s => cases ht
  | running i p s =>
    cases p with
    | number u next =>
      cases ht
      obtain ⟨-, q, -, hthing, -⟩ := h
      exact hthing
    | _ => cases ht

section KeptAt

variable [DecidableEq Q] [Fingerprint Q] [Lattice V] [LawfulLattice V] [DecidableEq N]
  [DecidableEq T] [Fingerprint T] {rhs : Q → Rhs Q V E N T V} {L : Law Q V E T}
  {calls : List (Call Q V)}

/-- One move keeps to the law. -/
lemma keptAt_move {m m' : Moment Q V E N T}
    (h : Move rhs m calls m') (hs : Sane rhs m) (hm : KeptAt L m)
    (hkeeps : ∀ q, L.query q → m'.solver.Touched q → (rhs q).Keeps L (L.held q))
    (hgiven : ∀ q v, L.held q v → m'.solver.Holds q v → L.given q v)
    (hasked : ∀ q, .ask q ∈ calls → L.query q)
    (htold : ∀ q v, .tell q v ∈ calls → L.query q ∧ L.held q v) : KeptAt L m' := by
  cases h with
  | ask s q => exact Kept.touch hm hs.1 (hasked q List.mem_cons_self)
  | tell s q v =>
    obtain ⟨hq, hv⟩ := htold q v List.mem_cons_self
    exact Kept.pushFact hm hs.1 hq hv
  | reorder hperm => exact Kept.quiet hm (quiet_reorder _ hperm)
  | forget s => exact Kept.quiet hm (quiet_dropReports s)
  | name s t => exact Kept.quiet hm (quiet_numberThing s t)
  | skip hpop h => exact Kept.dequeue hm _ _
  | @start s i w q v hpop hok hq =>
    have hquiet := quiet_opened (s.dequeue i w) i
    have hq' : ((s.dequeue i w).opened i).queries.get? i = some q := hquiet.queries ▸ hq
    obtain ⟨c, hc⟩ := hs.1.exists_cell hq
    exact ⟨(Kept.dequeue hm i w).quiet hquiet, q, hq', hkeeps q (hm i q c hq hc).1 ⟨i, hq'⟩⟩
  | @read s i q next v h =>
    obtain ⟨hkept, p, hp, hq, hnext⟩ := hm
    obtain ⟨htouch, -, hget⟩ := touch_spec hs.1 q
    have htouched := hkept.touch hs.1 hq
    obtain ⟨c, hc⟩ := htouch.exists_cell hget
    obtain ⟨-, rfl⟩ := (current_eq_ok_iff hc).mp h
    -- the value read is the one in the table
    obtain ⟨d, hd, hvalue⟩ : ∃ d, ((s.touch q).2.addReader (s.touch q).1 i).cells[(s.touch q).1]? =
        some d ∧ d.value = c.value := by
      refine ⟨_, (maps_addReader _ _ i).get hc, ?_⟩
      rw [if_pos rfl]
    refine ⟨htouched.addReader _ i, p, extends_touch s q i p hp,
      hnext _ (hgiven q _ (htouched _ q c hget hc).2.1 ⟨_, d, hget, hd, fun _ => ?_⟩)⟩
    rw [hvalue]
    exact LawfulLattice.le_refl _
  | @readFailed s i q next e h =>
    obtain ⟨hkept, p, hp, hq, hnext⟩ := hm
    obtain ⟨htouch, -, hget⟩ := touch_spec hs.1 q
    have htouched := hkept.touch hs.1 hq
    obtain ⟨c, hc⟩ := htouch.exists_cell hget
    exact (htouched.addReader _ i).fail i
      ((htouched _ q c hget hc).2.2 e ((current_eq_error_iff hc).mp h))
  | push s i q v next =>
    obtain ⟨hkept, p, hp, hq, hv, hnext⟩ := hm
    exact ⟨hkept.pushFact hs.1 hq hv, p, extends_pushFact s q v i p hp, hnext⟩
  | note s i n next =>
    obtain ⟨hkept, p, hp, hnext⟩ := hm
    have hquiet := quiet_report s i n
    exact ⟨hkept.quiet hquiet, p, hquiet.queries ▸ hp, hnext⟩
  | number s i t next =>
    obtain ⟨hkept, p, hp, -, hnext⟩ := hm
    exact ⟨hkept.quiet (quiet_numberThing s t), p, hp, hnext _⟩
  | finish s i v =>
    obtain ⟨hkept, p, hp, hv⟩ := hm
    refine hkept.absorb fun q hq => ?_
    have hpq : p = q := Option.some.inj (hp.symm.trans hq)
    rw [← hpq]
    exact hv
  | abort s i e =>
    obtain ⟨hkept, p, -, herror⟩ := hm
    exact hkept.fail i herror

/-- **A table keeps to every law that its right-hand sides keep to, at every
moment.** The right-hand sides can count on what they read being below the
values that the table comes to hold. -/
theorem kept_of_trail {m : Moment Q V E N T}
    (h : Trail rhs (resting empty) calls m)
    (hkeeps : ∀ q, L.query q → m.solver.Touched q → (rhs q).Keeps L (L.held q))
    (hgiven : ∀ q v, L.held q v → m.solver.Holds q v → L.given q v)
    (hasked : ∀ q, .ask q ∈ calls → L.query q)
    (htold : ∀ q v, .tell q v ∈ calls → L.query q ∧ L.held q v) : m.solver.Kept L := by
  suffices hat : KeptAt L m from hat.kept
  induction h with
  | rest =>
    intro i q c _ hc
    simp [empty] at hc
  | snoc htrail hmove ih =>
    have hsane := sane_of_trail htrail
    refine keptAt_move hmove hsane (ih ?_ ?_ ?_ ?_) hkeeps hgiven ?_ ?_
    · rintro q hq ⟨i, hi⟩
      exact hkeeps q hq ⟨i, (grows_move hmove hsane).queries i q hi⟩
    · exact fun q v hv hholds => hgiven q v hv (hholds.grows (grows_move hmove hsane))
    · exact fun q hq => hasked q (List.mem_append_left _ hq)
    · exact fun q v hv => htold q v (List.mem_append_left _ hv)
    · exact fun q hq => hasked q (List.mem_append_right _ hq)
    · exact fun q v hv => htold q v (List.mem_append_right _ hv)

variable (hkeeps : ∀ q, L.query q → (rhs q).Keeps L (L.held q))
  (hgiven : ∀ q v, L.held q v → L.given q v)

include hkeeps hgiven

/-- What the solver does by itself keeps to a law that all right-hand sides keep
to. -/
lemma keptAt_course {m m' : Moment Q V E N T} (h : Course rhs m m') (hs : Sane rhs m)
    (hm : KeptAt L m) : Sane rhs m' ∧ KeptAt L m' := by
  induction h with
  | refl => exact ⟨hs, hm⟩
  | tail _ hmove ih =>
    obtain ⟨hsane, hkept⟩ := ih
    refine ⟨sane_move hmove.move hsane, ?_⟩
    exact keptAt_move hmove.move hsane hkept (fun q hq _ => hkeeps q hq)
      (fun q v hv _ => hgiven q v hv) (fun _ hq => nomatch hq) fun _ _ hv => nomatch hv

/-- **What the solver has numbered by itself is by the law**, if all right-hand
sides keep to it. -/
theorem things_of_course {m m' : Moment Q V E N T} (h : Course rhs m m') (hs : Sane rhs m)
    (hm : KeptAt L m) (hthings : ∀ t ∈ m.solver.things.toList, L.thing t) :
    ∀ t ∈ m'.solver.things.toList, L.thing t := by
  induction h with
  | refl => exact hthings
  | tail hcourse hmove ih =>
    obtain ⟨-, hkept⟩ := keptAt_course hkeeps hgiven hcourse hs hm
    exact fun t ht => (hmove.things t ht).elim (ih t) hkept.thing

lemma things_of_valueOf {s t : Solver Q V E N T} {q : Q} {a : Except E V}
    (hvalue : s.valueOf rhs q = some (a, t)) (hs : Sane rhs (resting s)) (hm : s.Kept L)
    (hq : L.query q) (hthings : ∀ x ∈ s.things.toList, L.thing x) :
    ∀ x ∈ t.things.toList, L.thing x := by
  cases hdrain : (s.touch q).2.drain rhs ample with
  | none => simp [valueOf, hdrain] at hvalue
  | some u =>
    obtain ⟨-, rfl⟩ : u.current (s.touch q).1 = a ∧ u = t := by simpa [valueOf, hdrain] using hvalue
    refine things_of_course hkeeps hgiven (course_drain hdrain) (sane_move (Move.ask s q) hs)
      (Kept.touch hm hs.1 hq) fun x hx => hthings x ?_
    rwa [Moment.solver, things_of_frame (frame_touch s q)] at hx

end KeptAt

end Solver

end ValueFlow
