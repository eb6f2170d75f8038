import Mathlib.Algebra.GroupWithZero.Nat
import ValueFlow.Proofs.Equations.Operations

/-!
# Failures spread to readers

A query that failed has no value, so whatever read it has none either. In a
solver at rest this holds all along the recorded reads: **every reader of a
failed query has failed** (`FailureClosed`). Recording a failure restores the
property by walking the readers, and the walk must come to its end within the
allowance it is given.

The allowance is the number of recorded reads and one more. Each step of the
walk takes one query off the pending list; expanding a query puts its readers
there and closes their reads for good. So the pending queries and the reads
still open (`openReads`) together drop by one at each step.
-/

namespace ValueFlow.Solver

variable {Q V E N T : Type} {i : Nat} {s : Solver Q V E N T} {c : Cell V E N} {pending : List Nat}

def ClosedUpTo (pending : List Nat) (s : Solver Q V E N T) : Prop :=
  ∀ (k : Nat) (c : Cell V E N), s.cells[k]? = some c → c.failure ≠ none →
    ∀ j ∈ c.readers, s.Failed j ∨ j ∈ pending

def FailureClosed (s : Solver Q V E N T) : Prop :=
  ∀ (k : Nat) (c : Cell V E N), s.cells[k]? = some c → c.failure ≠ none →
    ∀ j ∈ c.readers, s.Failed j

lemma FailureClosed.upTo (h : s.FailureClosed) (pending : List Nat) :
    s.ClosedUpTo pending := fun k c hc hf j hj => Or.inl (h k c hc hf j hj)

lemma failureClosed_empty : (empty : Solver Q V E N T).FailureClosed := by
  intro k c hc
  simp [empty] at hc

/-- Evolution adds no reader to a failed query. -/
lemma FailureClosed.evolves [Lattice V] {t : Solver Q V E N T} (h : s.FailureClosed)
    (hst : Evolves s t) : t.FailureClosed := by
  intro k d hd hf j hj
  rcases hst.fresh k d hd with ⟨c, hc⟩ | ⟨-, hok⟩
  · obtain ⟨d', hd', hcd, -⟩ := hst.cells k c hc
    rw [hd] at hd'
    cases hd'
    rw [hcd.failure] at hf
    rw [hcd.settled.resolve_left hf] at hj
    exact hst.failed (h k c hc hf j hj)
  · exact absurd hok hf

lemma FailureClosed.dequeue (h : s.FailureClosed) (i : Nat) (w : Fifo Nat) :
    (s.dequeue i w).FailureClosed := by
  have hmap := maps_dequeue s i w
  intro k d hd hf j hj
  obtain ⟨c, hc, rfl⟩ := hmap.exists_of_get hd
  have hsame : c.failure ≠ none ∧ j ∈ c.readers := by split at hf <;> split at hj <;> exact ⟨hf, hj⟩
  obtain ⟨b, hb, hbf⟩ := h k c hc hsame.1 j hsame.2
  refine ⟨_, hmap.get hb, ?_⟩
  split <;> exact hbf

/-! ## Marking queries as failed -/

structure Marks (e : E) (marked : List Nat) (s t : Solver Q V E N T) : Prop where
  cells    : Maps s (fun j c => { c with
               failure := c.failure.or (if j ∈ marked then some e else none) }) t
  frame    : t.frame = s.frame
  worklist : t.worklist = s.worklist

section Marks

variable {e : E} {s t u : Solver Q V E N T} {marked : List Nat}

lemma Marks.refl (e : E) (s : Solver Q V E N T) : Marks e [] s s where
  cells i := by simp
  frame := rfl
  worklist := rfl

lemma Marks.cons (h : Marks e marked (s.modifyCell i ({ · with failure := some e })) t)
    (hi : ∃ c, s.cells[i]? = some c ∧ c.failure = none) : Marks e (i :: marked) s t where
  cells j := by
    obtain ⟨c, hc, hok⟩ := hi
    rw [h.cells j, maps_modifyCell s i _ j, Option.map_map]
    by_cases hji : j = i
    · subst hji
      simp [hc, hok]
    · simp only [hji, if_false, List.mem_cons, false_or]
      rfl
  frame := h.frame
  worklist := h.worklist

lemma Marks.queries (h : Marks e marked s t) : t.queries = s.queries := congrArg (·.1) h.frame

lemma Marks.things (h : Marks e marked s t) : t.things = s.things := congrArg (·.2.1) h.frame

lemma Marks.coherent [Fingerprint Q] [Fingerprint T] (h : Marks e marked s t) (hs : s.Coherent) :
    t.Coherent := by
  refine hs.of_maps h.cells h.queries (h.things ▸ hs.things) (h.worklist ▸ .refl _) ?_ ?_
  · exact fun _ _ => rfl
  · exact fun i c hc j hj => hs.readers i c hc j hj

end Marks

/-! ## The walk along the readers -/

/-- The walk has not been at the query, which has a cell. -/
def Open (s : Solver Q V E N T) (i : Nat) : Prop := ∃ c, s.cells[i]? = some c ∧ c.failure = none

lemma open_or_failed (hi : i < s.cells.size) : s.Open i ∨ s.Failed i := by
  have hget := Array.getElem?_eq_getElem hi
  by_cases hok : s.cells[i].failure = none
  · exact Or.inl ⟨_, hget, hok⟩
  · exact Or.inr ⟨_, hget, hok⟩

lemma Failed.not_open (h : s.Failed i) : ¬ s.Open i := by
  rintro ⟨c, hc, hok⟩
  obtain ⟨d, hd, hf⟩ := h
  rw [hc] at hd
  cases hd
  exact hf hok

lemma spread_cons_open (hc : s.cells[i]? = some c) (hok : c.failure = none) (e : E) (fuel : Nat)
    (pending : List Nat) :
    spread e (fuel + 1) (i :: pending) s =
      spread e fuel (c.readers.elems ++ pending)
        (s.modifyCell i ({ · with failure := some e })) := by
  rcases c with ⟨value, failure, readers, queued, reports, reportedAt⟩
  cases hok
  rw [spread, hc]

lemma spread_cons_skip (hi : ¬ s.Open i) (e : E) (fuel : Nat) (pending : List Nat) :
    spread e (fuel + 1) (i :: pending) s = spread e fuel pending s := by
  rw [spread]
  split
  · next hc => exact absurd ⟨_, hc, rfl⟩ hi
  · rfl

/-- The walk only marks, and it stays among the queries that any property
reaches which holds of the pending ones and is handed on from read to reader. -/
lemma spread_marks (e : E) (fuel : Nat) (pending : List Nat) (s : Solver Q V E N T) :
    ∃ marked, Marks e marked s (spread e fuel pending s) ∧
      ∀ P : Nat → Prop, (∀ j ∈ pending, P j) →
        (∀ (k : Nat) (c : Cell V E N), s.cells[k]? = some c → P k → ∀ j ∈ c.readers, P j) →
        ∀ j ∈ marked, P j := by
  induction fuel generalizing pending s with
  | zero =>
    have hstop : spread e 0 pending s = s := by cases pending <;> rfl
    rw [hstop]
    exact ⟨[], .refl e s, fun _ _ _ j hj => absurd hj List.not_mem_nil⟩
  | succ fuel ih =>
    cases pending with
    | nil => exact ⟨[], .refl e s, fun _ _ _ j hj => absurd hj List.not_mem_nil⟩
    | cons i pending =>
      by_cases hopen : s.Open i
      · obtain ⟨c, hc, hok⟩ := hopen
        rw [spread_cons_open hc hok]
        obtain ⟨marked, hmarks, hreach⟩ := ih (c.readers.elems ++ pending)
          (s.modifyCell i ({ · with failure := some e }))
        refine ⟨i :: marked, hmarks.cons ⟨c, hc, hok⟩, ?_⟩
        intro P hpending hstep j hj
        have hi : P i := hpending i List.mem_cons_self
        rcases List.mem_cons.mp hj with rfl | hj
        · exact hi
        · refine hreach P ?_ ?_ j hj
          · intro k hk
            rcases List.mem_append.mp hk with hk | hk
            · exact hstep i c hc hi k hk
            · exact hpending k (List.mem_cons_of_mem _ hk)
          · intro k d hd hPk m hm
            obtain ⟨b, hb, rfl⟩ := (maps_modifyCell s i _).exists_of_get hd
            have hm' : m ∈ b.readers := by split at hm <;> exact hm
            exact hstep k b hb hPk m hm'
      · rw [spread_cons_skip hopen]
        obtain ⟨marked, hmarks, hreach⟩ := ih pending s
        exact ⟨marked, hmarks, fun P hpending =>
          hreach P fun j hj => hpending j (List.mem_cons_of_mem _ hj)⟩

def openReadsOf (c : Cell V E N) : Nat := if c.failure.isNone then c.readers.size else 0

/-- How many recorded reads the walk may still follow. -/
def openReads (s : Solver Q V E N T) : Nat := (s.cells.toList.map openReadsOf).sum

lemma sum_map_modify {α : Type} (f : α → Nat) (g : α → α) {l : List α} {a : α}
    (h : l[i]? = some a) : ((l.modify i g).map f).sum + f a = (l.map f).sum + f (g a) := by
  induction l generalizing i with
  | nil => cases h
  | cons b l ih =>
    cases i with
    | zero =>
      cases h
      simp only [List.modify_zero_cons, List.map_cons, List.sum_cons]
      omega
    | succ i =>
      have hrest := ih (i := i) h
      simp only [List.modify_succ_cons, List.map_cons, List.sum_cons]
      omega

/-- Marking a query closes the reads that were open at it. -/
lemma openReads_modifyCell (hc : s.cells[i]? = some c) (hok : c.failure = none) (e : E) :
    (s.modifyCell i ({ · with failure := some e })).openReads + c.readers.size = s.openReads := by
  have hlist : s.cells.toList[i]? = some c := by
    rw [Array.getElem?_toList]
    exact hc
  have hsum := sum_map_modify openReadsOf ({ · with failure := some e }) hlist
  have hopen : openReadsOf c = c.readers.size := by simp [openReadsOf, hok]
  have hclosed : openReadsOf { c with failure := some e } = 0 := by simp [openReadsOf]
  unfold openReads modifyCell
  rw [Array.toList_modify]
  omega

lemma openReads_le_readCount (s : Solver Q V E N T) : s.openReads ≤ s.readCount := by
  have hfold : ∀ (l : List (Cell V E N)) (n : Nat),
      n + (l.map openReadsOf).sum ≤ l.foldl (fun n c => n + c.readers.size) n := by
    intro l
    induction l with
    | nil => simp
    | cons c l ih =>
      intro n
      have hle : openReadsOf c ≤ c.readers.size := by
        unfold openReadsOf
        split <;> omega
      have hrest := ih (n + c.readers.size)
      simp only [List.map_cons, List.sum_cons, List.foldl_cons]
      omega
  have hall := hfold s.cells.toList 0
  rw [Array.foldl_toList] at hall
  unfold openReads readCount
  omega

/-- Closing up to a list and marking its first query leaves the readers of
that query to be followed. -/
lemma ClosedUpTo.mark (h : s.ClosedUpTo (i :: pending)) (hc : s.cells[i]? = some c) (e : E) :
    (s.modifyCell i ({ · with failure := some e })).ClosedUpTo (c.readers.elems ++ pending) := by
  have hmap := maps_modifyCell s i ({ · with failure := some e })
  have hfailed : ∀ j, s.Failed j → (s.modifyCell i ({ · with failure := some e })).Failed j := by
    rintro j ⟨d, hd, hdf⟩
    refine ⟨_, hmap.get hd, ?_⟩
    split
    · simp
    · exact hdf
  have hi : (s.modifyCell i ({ · with failure := some e })).Failed i := ⟨_, hmap.get hc, by simp⟩
  intro k d hd hf j hj
  obtain ⟨b, hb, rfl⟩ := hmap.exists_of_get hd
  by_cases hki : k = i
  · subst hki
    rw [hc] at hb
    cases hb
    rw [if_pos rfl] at hj
    exact Or.inr (List.mem_append_left _ hj)
  · rw [if_neg hki] at hf hj
    rcases h k b hb hf j hj with hj | hj
    · exact Or.inl (hfailed j hj)
    · rcases List.mem_cons.mp hj with rfl | hj
      · exact Or.inl hi
      · exact Or.inr (List.mem_append_right _ hj)

lemma ClosedUpTo.drop (h : s.ClosedUpTo (i :: pending)) (hi : s.Failed i) :
    s.ClosedUpTo pending := by
  intro k c hc hf j hj
  rcases h k c hc hf j hj with hj | hj
  · exact Or.inl hj
  · rcases List.mem_cons.mp hj with rfl | hj
    · exact Or.inl hi
    · exact Or.inr hj

lemma failed_fail (hi : i < s.cells.size) (e : E) : (s.fail i e).Failed i := by
  have hkeep : ∀ (fuel : Nat) (pending : List Nat) (t : Solver Q V E N T), t.Failed i →
      (spread e fuel pending t).Failed i := by
    rintro fuel pending t ⟨c, hc, hf⟩
    obtain ⟨marked, hmarks, -⟩ := spread_marks e fuel pending t
    refine ⟨_, hmarks.cells.get hc, ?_⟩
    simp [hf]
  unfold fail
  rcases open_or_failed hi with ⟨c, hc, hok⟩ | hfailed
  · rw [spread_cons_open hc hok]
    refine hkeep _ _ _ ⟨_, (maps_modifyCell s i _).get hc, ?_⟩
    simp
  · exact hkeep _ _ _ hfailed

section Spread

variable [Fingerprint Q] [Fingerprint T] {s : Solver Q V E N T}

lemma coherent_markFailed (hs : s.Coherent) (i : Nat) (e : E) :
    (s.modifyCell i ({ · with failure := some e })).Coherent := by
  refine hs.of_maps (maps_modifyCell s i _) rfl hs.things (.refl _) ?_ ?_
  · intro j c
    split <;> rfl
  · intro j c hc k hk
    split at hk <;> exact hs.readers j c hc k hk

/-- With an allowance for every open read and every pending query, the walk
comes to its end. -/
lemma spread_closed (e : E) {fuel : Nat} {pending : List Nat} (hs : s.Coherent)
    (hpending : ∀ j ∈ pending, j < s.cells.size) (hclosed : s.ClosedUpTo pending)
    (hfuel : pending.length + s.openReads ≤ fuel) : (spread e fuel pending s).FailureClosed := by
  induction fuel generalizing pending s with
  | zero =>
    cases pending with
    | nil => exact fun k c hc hf j hj => (hclosed k c hc hf j hj).resolve_right List.not_mem_nil
    | cons i pending => simp at hfuel
  | succ fuel ih =>
    cases pending with
    | nil => exact fun k c hc hf j hj => (hclosed k c hc hf j hj).resolve_right List.not_mem_nil
    | cons i pending =>
      obtain ⟨hi, hrest⟩ := List.forall_mem_cons.mp hpending
      rw [List.length_cons] at hfuel
      rcases open_or_failed hi with ⟨c, hc, hok⟩ | hfailed
      · have hopen := openReads_modifyCell hc hok e
        rw [spread_cons_open hc hok]
        refine ih (coherent_markFailed hs i e) ?_ (hclosed.mark hc e) ?_
        · intro j hj
          rw [(maps_modifyCell s i _).size_eq]
          rcases List.mem_append.mp hj with hj | hj
          · exact hs.readers i c hc j hj
          · exact hrest j hj
        · rw [List.length_append]
          unfold PowerSet.size at hopen
          omega
      · rw [spread_cons_skip hfailed.not_open]
        exact ih hs hrest (hclosed.drop hfailed) (by omega)

end Spread

/-! ## Recording a failure -/

/-- What a solver becomes when a query fails: failures appear, readers may
have been recorded, and every reader of a failed query has failed. -/
structure Breaks (s t : Solver Q V E N T) : Prop where
  queries : t.queries = s.queries
  things  : t.things = s.things
  cells   : ∃ f, Maps s f t ∧ ∀ i c, (f i c).value = c.value ∧
              (f i c).queued = c.queued ∧ (∀ j ∈ c.readers, j ∈ (f i c).readers) ∧
              (c.failure ≠ none → (f i c).failure ≠ none)
  closed  : t.FailureClosed

lemma frame_fail (s : Solver Q V E N T) (i : Nat) (e : E) : (s.fail i e).frame = s.frame := by
  obtain ⟨marked, hmarks, -⟩ := spread_marks e (s.readCount + 1) [i] s
  exact hmarks.frame

@[simp] lemma queries_fail (s : Solver Q V E N T) (i : Nat) (e : E) :
    (s.fail i e).queries = s.queries := congrArg (·.1) (frame_fail s i e)

lemma things_fail (s : Solver Q V E N T) (i : Nat) (e : E) : (s.fail i e).things = s.things :=
  congrArg (·.2.1) (frame_fail s i e)

section Breaks

variable [Fingerprint Q] [Fingerprint T] {s : Solver Q V E N T} {i : Nat}

lemma fail_closed (hs : s.Coherent) (hi : i < s.cells.size) (hclosed : s.ClosedUpTo [i]) (e : E) :
    (s.fail i e).FailureClosed := by
  refine spread_closed e hs ?_ hclosed ?_
  · intro j hj
    rw [List.mem_singleton.mp hj]
    exact hi
  · have hle := s.openReads_le_readCount
    simp only [List.length_cons, List.length_nil]
    omega

lemma coherent_fail (hs : s.Coherent) (i : Nat) (e : E) : (s.fail i e).Coherent := by
  obtain ⟨marked, hmarks, -⟩ := spread_marks e (s.readCount + 1) [i] s
  exact hmarks.coherent hs

lemma breaks_fail (hs : s.Coherent) (hi : i < s.cells.size) (hclosed : s.FailureClosed) (e : E) :
    Breaks s (s.fail i e) := by
  obtain ⟨marked, hmarks, -⟩ := spread_marks e (s.readCount + 1) [i] s
  refine ⟨hmarks.queries, hmarks.things, ⟨_, hmarks.cells, ?_⟩,
    fail_closed hs hi (hclosed.upTo _) e⟩
  intro j c
  exact ⟨rfl, rfl, fun _ hk => hk, fun hf => by simp [hf]⟩

/-- The new reader fails with the query it read. -/
lemma breaks_readFailed (hs : s.Coherent) (hi : i < s.cells.size) (hclosed : s.FailureClosed)
    (k : Nat) (e : E) : Breaks s ((s.addReader k i).fail i e) := by
  have hmap := maps_addReader s k i
  have hcoherent := coherent_addReader hs k hi
  have hbound : i < (s.addReader k i).cells.size := by
    rw [hmap.size_eq]
    exact hi
  -- the one reader that may not have failed yet is the one just recorded
  have hup : (s.addReader k i).ClosedUpTo [i] := by
    intro m d hd hf j hj
    obtain ⟨c, hc, rfl⟩ := hmap.exists_of_get hd
    have hcases : c.failure ≠ none ∧ (j ∈ c.readers ∨ j = i) := by
      split at hf
      · next hmk =>
        rw [if_pos hmk] at hj
        exact ⟨hf, PowerSet.mem_insert.mp hj⟩
      · next hmk =>
        rw [if_neg hmk] at hj
        exact ⟨hf, Or.inl hj⟩
    rcases hcases.2 with hj | rfl
    · obtain ⟨b, hb, hbf⟩ := hclosed m c hc hcases.1 j hj
      refine Or.inl ⟨_, hmap.get hb, ?_⟩
      split <;> exact hbf
    · exact Or.inr (List.mem_singleton.mpr rfl)
  obtain ⟨marked, hmarks, -⟩ := spread_marks e ((s.addReader k i).readCount + 1) [i]
    (s.addReader k i)
  refine ⟨hmarks.queries, hmarks.things, ⟨_, hmap.comp hmarks.cells, ?_⟩,
    fail_closed hcoherent hbound hup e⟩
  intro j c
  by_cases hjk : j = k
  · rw [if_pos hjk]
    exact ⟨rfl, rfl, fun m hm => PowerSet.mem_insert.mpr (Or.inl hm), fun hf => by simp [hf]⟩
  · rw [if_neg hjk]
    exact ⟨rfl, rfl, fun _ hm => hm, fun hf => by simp [hf]⟩

end Breaks

end ValueFlow.Solver
