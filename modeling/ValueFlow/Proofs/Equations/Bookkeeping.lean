import ValueFlow.Equations.Solver
import ValueFlow.Proofs.Lattice
import ValueFlow.Proofs.Numbering

/-!
# The bookkeeping of a solver

A solver is `Coherent` when its parts fit together: one cell per query, the
queries numbered canonically, recorded readers that exist, and a work list
that holds exactly the queries flagged as queued.

All operations but two, taking a query off the work list and recording a
failure, *evolve* the solver: values only grow, readers stay recorded, a
queued query stays queued, and **a value that changed has all its recorded
readers queued**. `Evolves` collects this; it is reflexive and transitive.
-/

namespace ValueFlow

open ValueFlow.Lattice (Le)

/-- How a cell may change while no query fails. Only a query that has not
failed gets new readers. -/
structure Cell.Evolves {V E N : Type} [Lattice V] (c d : Cell V E N) : Prop where
  value   : Le c.value d.value
  failure : d.failure = c.failure
  readers : ∀ j ∈ c.readers, j ∈ d.readers
  settled : c.failure = none ∨ d.readers = c.readers
  queued  : c.queued = true → d.queued = true

namespace Cell.Evolves

variable {V E N : Type} [Lattice V] [LawfulLattice V]

lemma refl (c : Cell V E N) : c.Evolves c where
  value := LawfulLattice.le_refl _
  failure := rfl
  readers _ hj := hj
  settled := Or.inr rfl
  queued hq := hq

lemma trans {c d e : Cell V E N} (hcd : c.Evolves d) (hde : d.Evolves e) : c.Evolves e where
  value := LawfulLattice.le_trans hcd.value hde.value
  failure := hde.failure.trans hcd.failure
  readers j hj := hde.readers j (hcd.readers j hj)
  settled := by
    rcases hcd.settled with hc | hc
    · exact Or.inl hc
    · rcases hde.settled with hd | hd
      · exact Or.inl (hcd.failure ▸ hd)
      · exact Or.inr (hd.trans hc)
  queued hq := hde.queued (hcd.queued hq)

end Cell.Evolves

namespace Solver

variable {Q V E N T : Type}

def Queued (s : Solver Q V E N T) (i : Nat) : Prop := ∃ c, s.cells[i]? = some c ∧ c.queued = true

def Failed (s : Solver Q V E N T) (i : Nat) : Prop := ∃ c, s.cells[i]? = some c ∧ c.failure ≠ none

/-! ## Cells after an operation -/

/-- Every cell of `t` is the cell of `s` with the same number, changed by `f`. -/
def Maps (s : Solver Q V E N T) (f : Nat → Cell V E N → Cell V E N) (t : Solver Q V E N T) : Prop :=
  ∀ i, t.cells[i]? = (s.cells[i]?).map (f i)

section Maps

variable {s t : Solver Q V E N T} {f : Nat → Cell V E N → Cell V E N} {i : Nat}

lemma Maps.get (h : Maps s f t) {c : Cell V E N} (hc : s.cells[i]? = some c) :
    t.cells[i]? = some (f i c) := by
  rw [h i, hc]
  rfl

lemma Maps.exists_of_get (h : Maps s f t) {d : Cell V E N} (hd : t.cells[i]? = some d) :
    ∃ c, s.cells[i]? = some c ∧ f i c = d := by
  rw [h i] at hd
  exact Option.map_eq_some_iff.mp hd

lemma Maps.comp {u : Solver Q V E N T} {g : Nat → Cell V E N → Cell V E N} (h : Maps s f t)
    (h' : Maps t g u) : Maps s (fun i c => g i (f i c)) u := by
  intro i
  rw [h' i, h i, Option.map_map]
  rfl

lemma Maps.size_eq (h : Maps s f t) : t.cells.size = s.cells.size := by
  have hnone : ∀ i : Nat, t.cells[i]? = none ↔ s.cells[i]? = none := by
    intro i
    rw [h i, Option.map_eq_none_iff]
  have hle := (hnone s.cells.size).mpr (Array.getElem?_eq_none .refl)
  have hge := (hnone t.cells.size).mp (Array.getElem?_eq_none .refl)
  rw [Array.getElem?_eq_none_iff] at hle hge
  omega

lemma maps_modifyCell (s : Solver Q V E N T) (i : Nat) (f : Cell V E N → Cell V E N) :
    Maps s (fun j c => if j = i then f c else c) (s.modifyCell i f) := by
  intro j
  show (s.cells.modify i f)[j]? = _
  rw [Array.getElem?_modify]
  by_cases hij : i = j
  · subst hij
    simp
  · have hji : ¬ j = i := fun h => hij h.symm
    simp [hij, hji]

lemma maps_enqueue (s : Solver Q V E N T) (i : Nat) :
    Maps s (fun j c => { c with queued := c.queued || decide (j = i) }) (s.enqueue i) := by
  intro j
  unfold enqueue
  split
  · next cell hcell =>
    by_cases hq : cell.queued = true
    · rw [if_pos hq]
      by_cases hji : j = i
      · subst hji
        simp [hcell, ← hq]
      · simp [hji]
    · rw [if_neg hq]
      show (s.modifyCell i _).cells[j]? = _
      rw [maps_modifyCell s i _ j]
      by_cases hji : j = i
      · simp [hji]
      · simp [hji]
  · next hnone =>
    by_cases hji : j = i
    · subst hji
      simp [hnone]
    · simp [hji]

lemma maps_foldl_enqueue (js : List Nat) (s : Solver Q V E N T) :
    Maps s (fun j c => { c with queued := c.queued || decide (j ∈ js) }) (js.foldl enqueue s) := by
  induction js generalizing s with
  | nil =>
    intro j
    simp
  | cons i js ih =>
    intro j
    rw [List.foldl_cons, ih (s.enqueue i) j, maps_enqueue s i j, Option.map_map]
    congr 1
    funext c
    simp [Bool.or_assoc]

lemma queued_enqueue_iff {j : Nat} (hi : i < s.cells.size) :
    (s.enqueue i).Queued j ↔ j = i ∨ s.Queued j := by
  have hmap := maps_enqueue s i
  constructor
  · rintro ⟨d, hd, hq⟩
    obtain ⟨c, hc, rfl⟩ := hmap.exists_of_get hd
    rcases Bool.or_eq_true_iff.mp hq with hq | hji
    · exact Or.inr ⟨c, hc, hq⟩
    · exact Or.inl (of_decide_eq_true hji)
  · rintro (rfl | ⟨c, hc, hq⟩)
    · exact ⟨_, hmap.get (Array.getElem?_eq_getElem hi), by simp⟩
    · exact ⟨_, hmap.get hc, by simp [hq]⟩

end Maps

/-! ## Fields that an operation leaves alone -/

@[simp] lemma queries_modifyCell (s : Solver Q V E N T) (i : Nat)
    (f : Cell V E N → Cell V E N) : (s.modifyCell i f).queries = s.queries := rfl

@[simp] lemma worklist_modifyCell (s : Solver Q V E N T) (i : Nat)
    (f : Cell V E N → Cell V E N) : (s.modifyCell i f).worklist = s.worklist := rfl

/-- The parts that no change of values and of the work list touches. -/
def frame (s : Solver Q V E N T) : Numbering Q × Numbering T × List Nat :=
  (s.queries, s.things, s.history)

lemma things_of_frame {s t : Solver Q V E N T} (h : t.frame.2 = s.frame.2) : t.things = s.things :=
  congrArg (·.1) h

lemma frame_enqueue (s : Solver Q V E N T) (i : Nat) : (s.enqueue i).frame = s.frame := by
  unfold enqueue
  split
  · split <;> rfl
  · rfl

lemma frame_enqueueReaders (s : Solver Q V E N T) (i : Nat) :
    (s.enqueueReaders i).frame = s.frame := by
  unfold enqueueReaders
  split
  · refine List.foldlRecOn (motive := fun t => frame t = s.frame) _ enqueue rfl fun t ht j _ => ?_
    exact (frame_enqueue t j).trans ht
  · rfl

/-! ## Coherence -/

/-- The parts of a solver fit together. -/
structure Coherent [Fingerprint Q] [Fingerprint T] (s : Solver Q V E N T) : Prop where
  queries : s.queries.Canonical
  things  : s.things.Canonical
  sized   : s.cells.size = s.queries.size
  readers : ∀ (i : Nat) (c : Cell V E N), s.cells[i]? = some c → ∀ j ∈ c.readers, j < s.cells.size
  listed  : ∀ i, i ∈ s.worklist.toList ↔ s.Queued i
  nodup   : s.worklist.toList.Nodup

section Coherent

variable [Fingerprint Q] [Fingerprint T] {s t : Solver Q V E N T}
  {f : Nat → Cell V E N → Cell V E N}

lemma coherent_empty : (empty : Solver Q V E N T).Coherent where
  queries := Numbering.canonical_empty
  things := Numbering.canonical_empty
  sized := rfl
  readers i c h := by simp [empty] at h
  listed i := by simp [empty, Queued]
  nodup := by simp [empty]

lemma Coherent.exists_cell (hs : s.Coherent) {i : Nat} {q : Q}
    (h : s.queries.get? i = some q) : ∃ c, s.cells[i]? = some c := by
  have hlt := Numbering.lt_size_of_get? h
  rw [← hs.sized] at hlt
  exact ⟨_, Array.getElem?_eq_getElem hlt⟩

/-- Every cell belongs to a touched query. -/
lemma Coherent.exists_query (hs : s.Coherent) {i : Nat} {c : Cell V E N}
    (h : s.cells[i]? = some c) : ∃ q, s.queries.get? i = some q := by
  have hlt := (Array.getElem?_eq_some_iff.mp h).1
  rw [hs.sized] at hlt
  exact Numbering.get?_of_lt hlt

/-- Coherence survives a change of cells that leaves the queue flags alone and
records no reader that does not exist. -/
lemma Coherent.of_maps (hs : s.Coherent) (hmap : Maps s f t)
    (hqueries : t.queries = s.queries) (hthings : t.things.Canonical)
    (hworklist : t.worklist.toList.Perm s.worklist.toList)
    (hqueued : ∀ i c, (f i c).queued = c.queued)
    (hreaders : ∀ (i : Nat) (c : Cell V E N), s.cells[i]? = some c →
      ∀ j ∈ (f i c).readers, j < s.cells.size) :
    t.Coherent where
  queries := hqueries ▸ hs.queries
  things := hthings
  sized := by rw [hmap.size_eq, hqueries, hs.sized]
  readers i d hd j hj := by
    obtain ⟨c, hc, rfl⟩ := hmap.exists_of_get hd
    rw [hmap.size_eq]
    exact hreaders i c hc j hj
  listed i := by
    rw [hworklist.mem_iff, hs.listed]
    constructor
    · rintro ⟨c, hc, hq⟩
      exact ⟨f i c, hmap.get hc, by rw [hqueued, hq]⟩
    · rintro ⟨d, hd, hq⟩
      obtain ⟨c, hc, rfl⟩ := hmap.exists_of_get hd
      exact ⟨c, hc, by rw [← hqueued i c, hq]⟩
  nodup := hworklist.nodup_iff.mpr hs.nodup

/-- A query that is queued already is not queued again. -/
lemma coherent_enqueue (hs : s.Coherent) (i : Nat) : (s.enqueue i).Coherent := by
  have hmap := maps_enqueue s i
  have hqueries : (s.enqueue i).queries = s.queries := congrArg (·.1) (frame_enqueue s i)
  have hthings : (s.enqueue i).things = s.things := congrArg (·.2.1) (frame_enqueue s i)
  -- either the query is new on the work list, or nothing happens
  by_cases hnew : ∃ c, s.cells[i]? = some c ∧ c.queued = false
  · obtain ⟨c, hc, hq⟩ := hnew
    have hi : i < s.cells.size := (Array.getElem?_eq_some_iff.mp hc).1
    have hout : i ∉ s.worklist.toList := by
      rw [hs.listed]
      rintro ⟨d, hd, hdq⟩
      rw [hc] at hd
      cases hd
      rw [hq] at hdq
      cases hdq
    have hlist : (s.enqueue i).worklist.toList = s.worklist.toList ++ [i] := by
      simp [enqueue, hc, hq]
    exact
      { queries := hqueries ▸ hs.queries
        things := hthings ▸ hs.things
        sized := by rw [hmap.size_eq, hqueries, hs.sized]
        readers := by
          intro j d hd k hk
          obtain ⟨b, hb, rfl⟩ := hmap.exists_of_get hd
          rw [hmap.size_eq]
          exact hs.readers j b hb k hk
        listed := by
          intro j
          rw [hlist, List.mem_append, hs.listed, List.mem_singleton, queued_enqueue_iff hi]
          exact or_comm
        nodup := by
          rw [hlist, List.nodup_append]
          refine ⟨hs.nodup, by simp, ?_⟩
          intro a ha b hb
          rw [List.mem_singleton.mp hb]
          rintro rfl
          exact hout ha }
  · have hsame : s.enqueue i = s := by
      unfold enqueue
      split
      · next c hc =>
        have hq : c.queued = true := by
          cases hq : c.queued with
          | true => rfl
          | false => exact absurd ⟨c, hc, hq⟩ hnew
        rw [if_pos hq]
      · rfl
    rw [hsame]
    exact hs

lemma coherent_foldl_enqueue (js : List Nat) (hs : s.Coherent) :
    (js.foldl enqueue s).Coherent := by
  induction js generalizing s with
  | nil => exact hs
  | cons i js ih => exact ih (coherent_enqueue hs i)

lemma coherent_enqueueReaders (hs : s.Coherent) (i : Nat) : (s.enqueueReaders i).Coherent := by
  unfold enqueueReaders
  split
  · exact coherent_foldl_enqueue _ hs
  · exact hs

end Coherent

/-! ## Evolution -/

/-- What a solver may become while no query fails and none is taken off the
work list. -/
structure Evolves [Lattice V] (s t : Solver Q V E N T) : Prop where
  queries : s.queries.Extends t.queries
  things  : s.things.Extends t.things
  cells   : ∀ (i : Nat) (c : Cell V E N), s.cells[i]? = some c →
              ∃ d, t.cells[i]? = some d ∧ c.Evolves d ∧
                (d.value = c.value ∨ ∀ j ∈ c.readers, t.Queued j)
  fresh   : ∀ (i : Nat) (d : Cell V E N), t.cells[i]? = some d →
              (∃ c, s.cells[i]? = some c) ∨ d.queued = true ∧ d.failure = none

section Evolves

variable [Lattice V] {s t u : Solver Q V E N T} {f : Nat → Cell V E N → Cell V E N}

lemma Evolves.queued (h : Evolves s t) {i : Nat} (hi : s.Queued i) : t.Queued i := by
  obtain ⟨c, hc, hq⟩ := hi
  obtain ⟨d, hd, hcd, -⟩ := h.cells i c hc
  exact ⟨d, hd, hcd.queued hq⟩

lemma Evolves.failed (h : Evolves s t) {i : Nat} (hi : s.Failed i) : t.Failed i := by
  obtain ⟨c, hc, hf⟩ := hi
  obtain ⟨d, hd, hcd, -⟩ := h.cells i c hc
  exact ⟨d, hd, hcd.failure ▸ hf⟩

lemma evolves_of_maps (hmap : Maps s f t) (hqueries : s.queries.Extends t.queries)
    (hthings : s.things.Extends t.things)
    (hcells : ∀ (i : Nat) (c : Cell V E N), s.cells[i]? = some c →
      c.Evolves (f i c) ∧ ((f i c).value = c.value ∨ ∀ j ∈ c.readers, t.Queued j)) :
    Evolves s t where
  queries := hqueries
  things := hthings
  cells i c hc := ⟨f i c, hmap.get hc, hcells i c hc⟩
  fresh i d hd := by
    obtain ⟨c, hc, -⟩ := hmap.exists_of_get hd
    exact Or.inl ⟨c, hc⟩

variable [LawfulLattice V]

lemma Evolves.refl (s : Solver Q V E N T) : Evolves s s where
  queries := .refl _
  things := .refl _
  cells _ c hc := ⟨c, hc, .refl c, Or.inl rfl⟩
  fresh _ d hd := Or.inl ⟨d, hd⟩

lemma Evolves.trans (hst : Evolves s t) (htu : Evolves t u) : Evolves s u where
  queries := hst.queries.trans htu.queries
  things := hst.things.trans htu.things
  cells i c hc := by
    obtain ⟨d, hd, hcd, hvd⟩ := hst.cells i c hc
    obtain ⟨e, he, hde, hve⟩ := htu.cells i d hd
    refine ⟨e, he, hcd.trans hde, ?_⟩
    -- whichever of the two steps changed the value has queued the readers
    rcases hve with hve | hve
    · rcases hvd with hvd | hvd
      · exact Or.inl (hve.trans hvd)
      · exact Or.inr fun j hj => htu.queued (hvd j hj)
    · exact Or.inr fun j hj => hve j (hcd.readers j hj)
  fresh i e he := by
    rcases htu.fresh i e he with ⟨d, hd⟩ | hnew
    · rcases hst.fresh i d hd with hold | ⟨hq, hf⟩
      · exact Or.inl hold
      · obtain ⟨e', he', hde, -⟩ := htu.cells i d hd
        rw [he] at he'
        cases he'
        exact Or.inr ⟨hde.queued hq, hde.failure.trans hf⟩
    · exact Or.inr hnew

end Evolves

end Solver

end ValueFlow
