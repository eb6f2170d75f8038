import ValueFlow.Proofs.Equations.Bookkeeping

/-!
# The operations of a solver

What each operation on the table does, said once for each of them, so that
later proofs never open one. An operation is *quiet* if it changes no value,
failure, reader or queue flag: reports, counters, the numbering of things and
the order of the work list are all that it touches.
-/

namespace ValueFlow.Solver

open ValueFlow.Lattice (Le)

variable {Q V E N T : Type}

/-! ## Quiet operations -/

/-- Only reports, counters, the numbering of things and the order of the work
list differ. -/
structure Quiet [Fingerprint T] (s t : Solver Q V E N T) : Prop where
  queries   : t.queries = s.queries
  things    : s.things.Canonical → t.things.Canonical ∧ s.things.Extends t.things
  worklist  : t.worklist.toList.Perm s.worklist.toList
  cells     : ∃ f, Maps s f t ∧ ∀ i c, (f i c).value = c.value ∧
                (f i c).failure = c.failure ∧ (f i c).readers = c.readers ∧
                (f i c).queued = c.queued

section Quiet

variable [Fingerprint T] {s t : Solver Q V E N T}

lemma quiet_reorder (s : Solver Q V E N T) {w : Fifo Nat}
    (hw : w.toList.Perm s.worklist.toList) : Quiet s { s with worklist := w } where
  queries := rfl
  things hs := ⟨hs, .refl _⟩
  worklist := hw
  cells := ⟨fun _ c => c, fun _ => Option.map_id'.symm, fun _ _ => ⟨rfl, rfl, rfl, rfl⟩⟩

lemma quiet_dropReports (s : Solver Q V E N T) : Quiet s s.dropReports where
  queries := rfl
  things hs := ⟨hs, .refl _⟩
  worklist := .refl _
  cells := ⟨fun _ c => { c with reports := [], reportedAt := none },
    fun _ => Array.getElem?_map, fun _ _ => ⟨rfl, rfl, rfl, rfl⟩⟩

lemma quiet_modifyCell (s : Solver Q V E N T) (i : Nat) (f : Cell V E N → Cell V E N)
    (hf : ∀ c, (f c).value = c.value ∧ (f c).failure = c.failure ∧
      (f c).readers = c.readers ∧ (f c).queued = c.queued) : Quiet s (s.modifyCell i f) where
  queries := rfl
  things hs := ⟨hs, .refl _⟩
  worklist := .refl _
  cells := by
    refine ⟨_, maps_modifyCell s i f, fun j c => ?_⟩
    by_cases hji : j = i
    · simpa only [if_pos hji] using hf c
    · simp only [if_neg hji, and_self]

/-- What an evaluation does before it runs: it enters the query in the history
and drops its reports. -/
def opened (s : Solver Q V E N T) (i : Nat) : Solver Q V E N T :=
  { s with history := i :: s.history }.clearReports i

lemma quiet_opened (s : Solver Q V E N T) (i : Nat) : Quiet s (s.opened i) := by
  have hclear := quiet_modifyCell s i ({ · with reports := [] }) fun _ => ⟨rfl, rfl, rfl, rfl⟩
  exact ⟨hclear.queries, hclear.things, hclear.worklist, hclear.cells⟩

omit [Fingerprint T] in
lemma frame_report [DecidableEq N] (s : Solver Q V E N T) (i : Nat) (n : N) :
    (s.report i n).frame = s.frame := by
  unfold report
  split
  · dsimp only
    split <;> rfl
  · rfl

lemma quiet_report [DecidableEq N] (s : Solver Q V E N T) (i : Nat) (n : N) :
    Quiet s (s.report i n) := by
  have hmodify := quiet_modifyCell s i
    (fun c => { c with
      reports := if n ∈ c.reports then c.reports else c.reports ++ [n]
      reportedAt := c.reportedAt <|> some s.clock })
    fun _ => ⟨rfl, rfl, rfl, rfl⟩
  unfold report
  split
  · next cell hcell =>
    split
    · exact ⟨hmodify.queries, hmodify.things, hmodify.worklist, hmodify.cells⟩
    · exact hmodify
  · exact quiet_reorder s (.refl _)

lemma quiet_numberThing [DecidableEq T] (s : Solver Q V E N T) (t : T) :
    Quiet s (s.numberThing t).2 where
  queries := rfl
  things hs := ⟨(Numbering.number_spec hs t).1, (Numbering.number_spec hs t).2.1⟩
  worklist := .refl _
  cells := ⟨fun _ c => c, fun _ => Option.map_id'.symm, fun _ _ => ⟨rfl, rfl, rfl, rfl⟩⟩

variable [Fingerprint Q]

lemma Quiet.coherent (h : Quiet s t) (hs : s.Coherent) : t.Coherent := by
  obtain ⟨f, hmap, hf⟩ := h.cells
  refine hs.of_maps hmap h.queries (h.things hs.things).1 h.worklist ?_ ?_
  · exact fun i c => (hf i c).2.2.2
  · intro i c hc j hj
    rw [(hf i c).2.2.1] at hj
    exact hs.readers i c hc j hj

lemma Quiet.evolves [Lattice V] [LawfulLattice V] (h : Quiet s t) (hs : s.Coherent) :
    Evolves s t := by
  obtain ⟨f, hmap, hf⟩ := h.cells
  refine evolves_of_maps hmap (h.queries ▸ .refl _) (h.things hs.things).2 ?_
  intro i c _
  obtain ⟨hvalue, hfailure, hreaders, hqueued⟩ := hf i c
  refine ⟨⟨?_, hfailure, ?_, Or.inr hreaders, ?_⟩, Or.inl hvalue⟩
  · rw [hvalue]
    exact LawfulLattice.le_refl _
  · rw [hreaders]
    exact fun _ hj => hj
  · rw [hqueued]
    exact fun hq => hq

end Quiet

/-! ## Touching a query -/

section Touch

variable [Fingerprint Q]

lemma frame_touch [DecidableEq Q] [Lattice V] (s : Solver Q V E N T) (q : Q) :
    (s.touch q).2.frame.2 = s.frame.2 := by
  unfold touch
  split <;> rfl

lemma extends_touch [DecidableEq Q] [Lattice V] (s : Solver Q V E N T) (q : Q) :
    s.queries.Extends (s.touch q).2.queries := by
  unfold touch
  split
  · exact .refl _
  · exact Numbering.extends_append _ _

variable [Fingerprint T] {s : Solver Q V E N T}

lemma cells_enroll (hs : s.Coherent) (q : Q) (v : V) (i : Nat) :
    (s.enroll q v).cells[i]? =
      if i = s.queries.size then some ⟨v, none, .empty, true, [], none⟩ else s.cells[i]? := by
  rw [← hs.sized]
  exact Array.getElem?_push

lemma coherent_enroll [DecidableEq Q] (hs : s.Coherent) {q : Q} (hq : s.queries.find? q = none)
    (v : V) : (s.enroll q v).Coherent where
  queries := Numbering.canonical_append hs.queries hq
  things := hs.things
  sized := by
    show (s.cells.push _).size = (s.queries.append q).size
    rw [Array.size_push, Numbering.size_append, hs.sized]
  readers i c hc j hj := by
    show j < (s.cells.push _).size
    rw [Array.size_push]
    rw [cells_enroll hs] at hc
    split at hc
    · cases hc
      exact absurd hj (PowerSet.not_mem_empty j)
    · have hlt := hs.readers i c hc j hj
      omega
  listed i := by
    show i ∈ (s.worklist.push s.queries.size).toList ↔ _
    rw [Fifo.toList_push, List.mem_append, List.mem_singleton, hs.listed]
    unfold Queued
    rw [cells_enroll hs]
    by_cases hi : i = s.queries.size
    · simp [hi]
    · simp [hi]
  nodup := by
    show (s.worklist.push s.queries.size).toList.Nodup
    rw [Fifo.toList_push, List.nodup_append]
    refine ⟨hs.nodup, by simp, ?_⟩
    intro a ha b hb hab
    rw [List.mem_singleton] at hb
    obtain ⟨c, hc, -⟩ := (hs.listed a).mp ha
    have hlt := (Array.getElem?_eq_some_iff.mp hc).1
    rw [hs.sized] at hlt
    omega

lemma evolves_enroll [Lattice V] [LawfulLattice V] (hs : s.Coherent) (q : Q) (v : V) :
    Evolves s (s.enroll q v) where
  queries := Numbering.extends_append _ _
  things := .refl _
  cells i c hc := by
    have hlt := (Array.getElem?_eq_some_iff.mp hc).1
    rw [hs.sized] at hlt
    refine ⟨c, ?_, .refl c, Or.inl rfl⟩
    rw [cells_enroll hs, if_neg (by omega)]
    exact hc
  fresh i d hd := by
    rw [cells_enroll hs] at hd
    split at hd
    · cases hd
      exact Or.inr ⟨rfl, rfl⟩
    · exact Or.inl ⟨d, hd⟩

lemma touch_spec [DecidableEq Q] [Lattice V] [LawfulLattice V] (hs : s.Coherent) (q : Q) :
    (s.touch q).2.Coherent ∧ Evolves s (s.touch q).2 ∧
      (s.touch q).2.queries.get? (s.touch q).1 = some q := by
  unfold touch
  split
  · next i hi => exact ⟨hs, .refl s, Numbering.get?_of_find? hi⟩
  · next hq =>
    refine ⟨coherent_enroll hs hq _, evolves_enroll hs q _, ?_⟩
    show (s.queries.append q).get? s.queries.size = some q
    rw [Numbering.get?_append, if_pos rfl]

end Touch

/-! ## Recording a read -/

section AddReader

variable {s : Solver Q V E N T}

lemma maps_addReader (s : Solver Q V E N T) (i reader : Nat) :
    Maps s (fun j c => if j = i then { c with readers := c.readers.insert reader } else c)
      (s.addReader i reader) :=
  maps_modifyCell s i _

/-- Only a query that has not failed may get a reader this way. -/
lemma evolves_addReader [Lattice V] [LawfulLattice V] {i : Nat} {c : Cell V E N}
    (hc : s.cells[i]? = some c) (hok : c.failure = none) (reader : Nat) :
    Evolves s (s.addReader i reader) := by
  refine evolves_of_maps (maps_addReader s i reader) (.refl _) (.refl _) ?_
  intro j d hd
  by_cases hji : j = i
  · subst hji
    rw [hc] at hd
    cases hd
    rw [if_pos rfl]
    exact ⟨⟨LawfulLattice.le_refl _, rfl, fun k hk => PowerSet.mem_insert.mpr (Or.inl hk),
      Or.inl hok, fun hq => hq⟩, Or.inl rfl⟩
  · rw [if_neg hji]
    exact ⟨.refl d, Or.inl rfl⟩

variable [Fingerprint Q] [Fingerprint T]

lemma coherent_addReader (hs : s.Coherent) (i : Nat) {reader : Nat}
    (hreader : reader < s.cells.size) : (s.addReader i reader).Coherent := by
  refine hs.of_maps (maps_addReader s i reader) rfl hs.things (.refl _) ?_ ?_
  · intro j c
    split <;> rfl
  · intro j c hc k hk
    split at hk
    · rcases PowerSet.mem_insert.mp hk with hk | rfl
      · exact hs.readers j c hc k hk
      · exact hreader
    · exact hs.readers j c hc k hk

end AddReader

/-! ## Absorbing a value -/

section Absorb

variable [Lattice V]

/-- The cells after a value was absorbed: one value is joined with it, and if
that changed it, the readers are queued. -/
lemma maps_absorb (s : Solver Q V E N T) (i : Nat) (v : V) :
    ∃ requeued : List Nat,
      Maps s
        (fun j c => { c with
          value := if j = i then (Lattice.absorb c.value v).1 else c.value
          queued := c.queued || decide (j ∈ requeued) })
        (s.absorb i v).2 ∧
      ∀ c, s.cells[i]? = some c → (Lattice.absorb c.value v).2 = true →
        requeued = c.readers.elems := by
  unfold absorb
  split
  · next cell hcell =>
    split
    · next joined hgrew =>
      refine ⟨cell.readers.elems, ?_, ?_⟩
      · have hreaders : (s.modifyCell i ({ · with value := joined })).cells[i]? =
            some { cell with value := joined } := by
          rw [(maps_modifyCell s i _).get hcell, if_pos rfl]
        intro j
        simp only [enqueueReaders, hreaders]
        rw [maps_foldl_enqueue _ _ j]
        show Option.map _ (s.modifyCell i _).cells[j]? = _
        rw [maps_modifyCell s i _ j, Option.map_map]
        by_cases hji : j = i
        · subst hji
          simp [hcell, hgrew]
        · simp only [hji, if_false]
          rfl
      · intro c hc _
        rw [hcell] at hc
        cases hc
        rfl
    · next kept hkept =>
      refine ⟨[], ?_, ?_⟩
      · intro j
        by_cases hji : j = i
        · subst hji
          have hsame := Lattice.absorb_eq_of_not_grew (a := cell.value) (b := v) (by rw [hkept])
          simp [hcell, hsame]
        · simp [hji]
      · intro c hc hgrew
        rw [hcell] at hc
        cases hc
        rw [hkept] at hgrew
        cases hgrew
  · next hnone =>
    refine ⟨[], ?_, ?_⟩
    · intro j
      by_cases hji : j = i
      · subst hji
        simp [hnone]
      · simp [hji]
    · intro c hc
      rw [hnone] at hc
      cases hc

lemma frame_absorb (s : Solver Q V E N T) (i : Nat) (v : V) : (s.absorb i v).2.frame = s.frame := by
  unfold absorb
  split
  · split
    · exact frame_enqueueReaders _ i
    · rfl
  · rfl

@[simp] lemma queries_absorb (s : Solver Q V E N T) (i : Nat) (v : V) :
    (s.absorb i v).2.queries = s.queries := congrArg (·.1) (frame_absorb s i v)

variable [Fingerprint Q] [Fingerprint T] {s : Solver Q V E N T}

lemma coherent_absorb (hs : s.Coherent) (i : Nat) (v : V) : (s.absorb i v).2.Coherent := by
  unfold absorb
  split
  · next cell hcell =>
    split
    · next joined _ =>
      have hjoined : ({ s.modifyCell i ({ · with value := joined }) with
          updates := s.updates + 1 } : Solver Q V E N T).Coherent := by
        refine hs.of_maps (maps_modifyCell s i _) rfl hs.things (.refl _) ?_ ?_
        · intro j c
          split <;> rfl
        · intro j c hc k hk
          split at hk <;> exact hs.readers j c hc k hk
      exact coherent_enqueueReaders hjoined i
    · exact hs
  · exact hs

/-- **A value that grew has its readers queued**, and what was absorbed is
below the value held afterwards. -/
theorem absorb_spec [LawfulLattice V] (hs : s.Coherent) (i : Nat) (v : V) :
    (s.absorb i v).2.Coherent ∧ Evolves s (s.absorb i v).2 ∧
      ∀ c, s.cells[i]? = some c → ∃ d, (s.absorb i v).2.cells[i]? = some d ∧ Le v d.value := by
  obtain ⟨requeued, hmap, hrequeued⟩ := maps_absorb s i v
  refine ⟨coherent_absorb hs i v, ?_, ?_⟩
  · refine evolves_of_maps hmap (by rw [queries_absorb]; exact .refl _)
      (by rw [things_of_frame (congrArg (·.2) (frame_absorb s i v))]; exact .refl _) ?_
    intro j c hc
    refine ⟨⟨?_, rfl, fun _ hk => hk, Or.inr rfl, fun hq => by simp [hq]⟩, ?_⟩
    · dsimp only
      split
      · exact Lattice.le_absorb_left _ _
      · exact LawfulLattice.le_refl _
    · dsimp only
      split
      · next hji =>
        subst hji
        cases hgrew : (Lattice.absorb c.value v).2 with
        | false => exact Or.inl (Lattice.absorb_eq_of_not_grew hgrew)
        | true =>
          -- every recorded reader has a cell, and that cell is flagged
          refine Or.inr fun k hk => ?_
          have hlt := hs.readers j c hc k hk
          refine ⟨_, hmap.get (Array.getElem?_eq_getElem hlt), ?_⟩
          rw [hrequeued c hc hgrew]
          simp [PowerSet.mem_def.mp hk]
      · exact Or.inl rfl
  · intro c hc
    refine ⟨_, hmap.get hc, ?_⟩
    simp only [if_pos]
    exact Lattice.le_absorb_right _ _

end Absorb

/-! ## Pushing a fact -/

section PushFact

variable [Fingerprint Q] [DecidableEq Q] [Lattice V] {s : Solver Q V E N T} {i : Nat}

omit [Fingerprint Q] [DecidableEq Q] in
lemma current_eq_ok_iff {c : Cell V E N} (hc : s.cells[i]? = some c) {v : V} :
    s.current i = .ok v ↔ c.failure = none ∧ c.value = v := by
  unfold current
  rw [hc]
  rcases c with ⟨value, failure, readers, queued, reports, reportedAt⟩
  cases failure with
  | some | none => simp

omit [Fingerprint Q] [DecidableEq Q] in
lemma current_eq_error_iff {c : Cell V E N} (hc : s.cells[i]? = some c) {e : E} :
    s.current i = .error e ↔ c.failure = some e := by
  unfold current
  rw [hc]
  rcases c with ⟨value, failure, readers, queued, reports, reportedAt⟩
  cases failure with
  | some | none => simp

omit [Fingerprint Q] [DecidableEq Q] in
lemma current_of_maps {t : Solver Q V E N T} {f : Nat → Cell V E N → Cell V E N}
    (hmap : Maps s f t) (hf : ∀ c, (f i c).value = c.value ∧ (f i c).failure = c.failure) :
    t.current i = s.current i := by
  unfold current
  rw [hmap i]
  cases s.cells[i]? with
  | none => rfl
  | some c =>
    obtain ⟨hvalue, hfailure⟩ := hf c
    rw [Option.map_some]
    rcases hfc : f i c with ⟨value, failure, readers, queued, reports, reportedAt⟩
    rcases c with ⟨value', failure', readers', queued', reports', reportedAt'⟩
    rw [hfc] at hvalue hfailure
    cases hvalue
    cases hfailure
    cases failure <;> rfl

lemma frame_pushFact (s : Solver Q V E N T) (q : Q) (v : V) :
    (s.pushFact q v).2.frame.2 = s.frame.2 := by
  unfold pushFact
  split
  · rfl
  · split
    · rfl
    · exact congrArg (·.2) (frame_absorb s _ v)

lemma extends_pushFact (s : Solver Q V E N T) (q : Q) (v : V) :
    s.queries.Extends (s.pushFact q v).2.queries := by
  unfold pushFact
  split
  · exact Numbering.extends_append _ _
  · split
    · exact .refl _
    · rw [queries_absorb]
      exact .refl _

lemma pushFact_spec [LawfulLattice V] [Fingerprint T] (hs : s.Coherent) (q : Q) (v : V) :
    (s.pushFact q v).2.Coherent ∧ Evolves s (s.pushFact q v).2 ∧
      ∃ i d, (s.pushFact q v).2.queries.get? i = some q ∧
        (s.pushFact q v).2.cells[i]? = some d ∧ (d.failure = none → Le v d.value) := by
  unfold pushFact
  split
  · next hq =>
    refine ⟨coherent_enroll hs hq v, evolves_enroll hs q v, s.queries.size, _, ?_,
      (cells_enroll hs q v _).trans (if_pos rfl), fun _ => LawfulLattice.le_refl v⟩
    show (s.queries.append q).get? s.queries.size = some q
    rw [Numbering.get?_append, if_pos rfl]
  · next i hi =>
    have hget := Numbering.get?_of_find? hi
    obtain ⟨c, hc⟩ := hs.exists_cell hget
    split
    · next e he =>
      refine ⟨hs, .refl s, i, c, hget, hc, fun hok => ?_⟩
      rw [(current_eq_error_iff hc).mp he] at hok
      cases hok
    · obtain ⟨hcoherent, hevolves, hbelow⟩ := absorb_spec hs i v
      obtain ⟨d, hd, hle⟩ := hbelow c hc
      exact ⟨hcoherent, hevolves, i, d, by rw [queries_absorb]; exact hget, hd, fun _ => hle⟩

end PushFact

/-! ## Taking a query off the work list -/

/-- Takes the query `i` off the work list, which leaves `w`. -/
def dequeue (s : Solver Q V E N T) (i : Nat) (w : Fifo Nat) : Solver Q V E N T :=
  { s with worklist := w }.modifyCell i ({ · with queued := false })

lemma maps_dequeue (s : Solver Q V E N T) (i : Nat) (w : Fifo Nat) :
    Maps s (fun j c => if j = i then { c with queued := false } else c) (s.dequeue i w) :=
  maps_modifyCell { s with worklist := w } i _

/-- The query taken off loses its flag. -/
lemma coherent_dequeue [Fingerprint Q] [Fingerprint T] {s : Solver Q V E N T} (hs : s.Coherent)
    {i : Nat} {w : Fifo Nat} (hpop : s.worklist.pop? = some (i, w)) :
    (s.dequeue i w).Coherent := by
  have hmap := maps_dequeue s i w
  have hlist := Fifo.toList_of_pop?_eq_some hpop
  have hnodup := hs.nodup
  rw [hlist, List.nodup_cons] at hnodup
  exact
    { queries := hs.queries
      things := hs.things
      sized := hmap.size_eq.trans hs.sized
      readers := by
        intro j d hd k hk
        obtain ⟨c, hc, rfl⟩ := hmap.exists_of_get hd
        rw [hmap.size_eq]
        split at hk <;> exact hs.readers j c hc k hk
      listed := by
        intro j
        show j ∈ w.toList ↔ _
        have hmem : j ∈ s.worklist.toList ↔ j = i ∨ j ∈ w.toList := by rw [hlist, List.mem_cons]
        by_cases hji : j = i
        · subst hji
          refine ⟨fun hj => absurd hj hnodup.1, ?_⟩
          rintro ⟨d, hd, hq⟩
          obtain ⟨c, -, rfl⟩ := hmap.exists_of_get hd
          rw [if_pos rfl] at hq
          cases hq
        · have hiff : j ∈ w.toList ↔ s.Queued j := by
            rw [← hs.listed, hmem]
            exact ⟨Or.inr, fun h => h.resolve_left hji⟩
          rw [hiff]
          constructor
          · rintro ⟨c, hc, hq⟩
            exact ⟨c, by rw [hmap.get hc, if_neg hji], hq⟩
          · rintro ⟨d, hd, hq⟩
            obtain ⟨c, hc, rfl⟩ := hmap.exists_of_get hd
            rw [if_neg hji] at hq
            exact ⟨c, hc, hq⟩
      nodup := hnodup.2 }

end ValueFlow.Solver
