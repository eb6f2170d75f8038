import Mathlib.Tactic.Lemma
import ValueFlow.Numbering

/-!
# Numberings are canonical

A numbering built by appending values that have no number yet finds every
value it holds, under exactly one number. `Numbering.Canonical` is that
property, and with it looking up a value and looking up its number are inverse
to each other (`find?_eq_some_iff`).

Numbers never change: `Numbering.Extends` relates a numbering to a later one.
-/

namespace ValueFlow.Numbering

variable {α : Type} {i : Nat} {t : Numbering α} {a : α}

/-- Every number of `t` stands for the same value in `u`. -/
def Extends (t u : Numbering α) : Prop := ∀ i a, t.get? i = some a → u.get? i = some a

lemma Extends.refl (t : Numbering α) : Extends t t := fun _ _ h => h

lemma Extends.trans {u v : Numbering α} (htu : Extends t u) (huv : Extends u v) :
    Extends t v := fun i a h => huv i a (htu i a h)

lemma lt_size_of_get? (h : t.get? i = some a) :
    i < t.size := (Array.getElem?_eq_some_iff.mp h).1

lemma get?_of_lt (h : i < t.size) : ∃ a, t.get? i = some a :=
  ⟨_, Array.getElem?_eq_getElem h⟩

lemma Extends.lt_size {u : Numbering α} (h : Extends t u) (hi : i < t.size) : i < u.size := by
  obtain ⟨a, ha⟩ := get?_of_lt hi
  exact lt_size_of_get? (h i a ha)

lemma mem_toList_iff : a ∈ t.toList ↔ ∃ i, t.get? i = some a := by
  rw [toList, Array.mem_toList_iff]
  exact Array.mem_iff_getElem?

variable [Fingerprint α]

/-- Every value held is in the bucket of its fingerprint, under one number. -/
structure Canonical (t : Numbering α) : Prop where
  indexed  : ∀ i a, t.get? i = some a → i ∈ t.buckets.getD (fingerprint a) []
  distinct : ∀ i j a, t.get? i = some a → t.get? j = some a → i = j

lemma Canonical.eq_iff (ht : t.Canonical) {j : Nat} {b : α}
    (ha : t.get? i = some a) (hb : t.get? j = some b) : i = j ↔ a = b := by
  refine ⟨?_, ?_⟩
  · rintro rfl
    exact Option.some.inj (ha.symm.trans hb)
  · rintro rfl
    exact ht.distinct i j a ha hb

/-- No value has two numbers. -/
lemma Canonical.nodup (ht : t.Canonical) : t.toList.Nodup := by
  refine List.pairwise_iff_getElem.mpr fun i j hi hj hij heq => ?_
  have hget : ∀ k (hk : k < t.toList.length), t.get? k = some t.toList[k] := by
    intro k hk
    unfold get?
    rw [← Array.getElem?_toList]
    exact List.getElem?_eq_getElem hk
  have hsame : i = j := ht.distinct i j _ (hget i hi) (heq ▸ hget j hj)
  omega

lemma canonical_empty : (empty : Numbering α).Canonical where
  indexed i a h := by simp [empty, get?] at h
  distinct i j a h := by simp [empty, get?] at h

/-! ## Appending -/

lemma get?_append (t : Numbering α) (a : α) (i : Nat) :
    (t.append a).get? i = if i = t.size then some a else t.get? i := by
  unfold append get? size
  exact Array.getElem?_push

@[simp] lemma size_append (t : Numbering α) (a : α) : (t.append a).size = t.size + 1 := by
  simp [append, size]

lemma extends_append (t : Numbering α) (a : α) : Extends t (t.append a) := by
  intro i b h
  have hlt := lt_size_of_get? h
  rw [get?_append, if_neg (by omega)]
  exact h

lemma mem_bucket_append {b : α} :
    i ∈ (t.append a).buckets.getD (fingerprint b) [] ↔
      (fingerprint a = fingerprint b ∧ i = t.size) ∨ i ∈ t.buckets.getD (fingerprint b) [] := by
  simp only [append, Std.TreeMap.getD_insert, Std.LawfulEqCmp.compare_eq_iff_eq, size]
  by_cases h : fingerprint a = fingerprint b
  · simp [h]
  · simp [h]

variable [DecidableEq α]

/-! ## Looking up -/

lemma get?_of_find? (h : t.find? a = some i) : t.get? i = some a := by
  have hfound := List.find?_some h
  exact of_decide_eq_true hfound

lemma find?_eq_some_iff (ht : t.Canonical) :
    t.find? a = some i ↔ t.get? i = some a := by
  refine ⟨get?_of_find?, fun h => ?_⟩
  -- the bucket of `a` holds `i`, so the search finds some number, and only `i` fits
  cases hf : t.find? a with
  | some j => rw [ht.distinct i j a h (get?_of_find? hf)]
  | none =>
    have hmiss := List.find?_eq_none.mp hf i (ht.indexed i a h)
    exact absurd (decide_eq_true h) hmiss

lemma find?_eq_none_iff (ht : t.Canonical) :
    t.find? a = none ↔ ∀ i, t.get? i ≠ some a := by
  refine ⟨fun h i hi => ?_, fun h => ?_⟩
  · rw [(find?_eq_some_iff ht).mpr hi] at h
    cases h
  · cases hf : t.find? a with
    | none => rfl
    | some i => exact absurd (get?_of_find? hf) (h i)

lemma canonical_append (ht : t.Canonical) (ha : t.find? a = none) :
    (t.append a).Canonical where
  indexed i b h := by
    rw [get?_append] at h
    rw [mem_bucket_append]
    split at h
    · next hi =>
      cases h
      exact Or.inl ⟨rfl, hi⟩
    · exact Or.inr (ht.indexed i b h)
  distinct i j b hi hj := by
    have hfresh := (find?_eq_none_iff ht).mp ha
    rw [get?_append] at hi hj
    split at hi <;> split at hj
    · omega
    · cases hi
      exact absurd hj (hfresh j)
    · cases hj
      exact absurd hi (hfresh i)
    · exact ht.distinct i j b hi hj

/-! ## Numbering a value -/

lemma extends_number (t : Numbering α) (a : α) : Extends t (t.number a).2 := by
  unfold number
  split
  · exact Extends.refl t
  · exact extends_append t a

lemma get?_number (t : Numbering α) (a : α) :
    (t.number a).2.get? (t.number a).1 = some a := by
  unfold number
  split
  · next i hf => exact get?_of_find? hf
  · simp [get?_append]

/-- Numbering a value keeps all numbers, and afterwards the value has the one
that was given. -/
lemma number_spec (ht : t.Canonical) (a : α) :
    (t.number a).2.Canonical ∧ Extends t (t.number a).2 ∧
      (t.number a).2.get? (t.number a).1 = some a := by
  refine ⟨?_, extends_number t a, get?_number t a⟩
  unfold number
  split
  · exact ht
  · next hf => exact canonical_append ht hf

/-- A number stands for what it did before, or it is the next one. -/
lemma get?_of_number {b : α} (h : (t.number a).2.get? i = some b) :
    t.get? i = some b ∨ (i = t.size ∧ b = a) := by
  unfold number at h
  split at h
  · exact .inl h
  · rw [get?_append] at h
    split at h
    · next hi => exact .inr ⟨hi, (Option.some.inj h).symm⟩
    · exact .inl h

lemma mem_of_mem_number {b : α} (h : b ∈ (t.number a).2.toList) : b ∈ t.toList ∨ b = a := by
  obtain ⟨i, hi⟩ := mem_toList_iff.mp h
  exact (get?_of_number hi).imp (fun hi => mem_toList_iff.mpr ⟨i, hi⟩) (·.2)

end ValueFlow.Numbering
