/-!
# Sorting

A stable merge sort. Merging is structural in its first list, so that a sort
of a concrete list can be computed with.

* `sortBy_perm`: sorting only rearranges.
-/

namespace ValueFlow

variable {α : Type} {as : List α} {le : α → α → Bool}

/-! ## Merging -/

/-- Merges `a :: as` into a list; `rest` does the same for `as`. Of two
elements that come both before each other, `a` goes first. -/
def mergeCons (le : α → α → Bool) (a : α) (as : List α) (rest : List α → List α) :
    List α → List α
  | [] => a :: as
  | b :: bs => if le a b then a :: rest (b :: bs) else b :: mergeCons le a as rest bs

/-- Merges two lists that are in order. -/
def merge (le : α → α → Bool) : List α → List α → List α
  | [], bs => bs
  | a :: as, bs => mergeCons le a as (merge le as) bs

theorem mergeCons_perm {a : α} {rest : List α → List α} (h : ∀ bs, (rest bs).Perm (as ++ bs))
    (bs : List α) : (mergeCons le a as rest bs).Perm (a :: as ++ bs) := by
  induction bs with
  | nil => simp [mergeCons]
  | cons b bs ih =>
    unfold mergeCons
    split
    · exact (h (b :: bs)).cons a
    · exact (ih.cons b).trans List.perm_middle.symm

theorem merge_perm (le : α → α → Bool) (as bs : List α) : (merge le as bs).Perm (as ++ bs) := by
  induction as generalizing bs with
  | nil => simp [merge]
  | cons a as ih => exact mergeCons_perm ih bs

/-! ## Sorting -/

def mergePairs (le : α → α → Bool) : List (List α) → List (List α)
  | as :: bs :: rest => merge le as bs :: mergePairs le rest
  | rest => rest

/-- Merges lists into one. Every round halves their number, so as many rounds
as there are lists are enough. -/
def mergeAll (le : α → α → Bool) : Nat → List (List α) → List α
  | 0, lists => lists.flatten
  | fuel + 1, lists => mergeAll le fuel (mergePairs le lists)

/-- The elements of a list in order. Elements that come both before each other
keep their places. -/
def sortBy (le : α → α → Bool) (as : List α) : List α :=
  mergeAll le as.length (as.map ([·]))

theorem mergePairs_perm (le : α → α → Bool) (lists : List (List α)) :
    (mergePairs le lists).flatten.Perm lists.flatten := by
  induction lists using mergePairs.induct with
  | case1 as bs rest ih =>
    simp only [mergePairs, List.flatten_cons, ← List.append_assoc]
    exact (merge_perm le as bs).append ih
  | case2 rest h => rw [mergePairs.eq_def]; split <;> simp_all

theorem mergeAll_perm (le : α → α → Bool) (fuel : Nat) (lists : List (List α)) :
    (mergeAll le fuel lists).Perm lists.flatten := by
  induction fuel generalizing lists with
  | zero => exact .refl _
  | succ fuel ih => exact (ih _).trans (mergePairs_perm le lists)

/-- Sorting only rearranges. -/
theorem sortBy_perm (le : α → α → Bool) (as : List α) : (sortBy le as).Perm as := by
  refine (mergeAll_perm le _ _).trans ?_
  rw [show (as.map ([·])).flatten = as by induction as <;> simp_all]

@[simp] theorem mem_sortBy {b : α} : b ∈ sortBy le as ↔ b ∈ as := (sortBy_perm le as).mem_iff

/-- Texts in the order of their characters. -/
def sortTexts (texts : List String) : List String := sortBy (fun a b => !(b < a)) texts

/-- Drops every element that equals the one before it. -/
def dropRepeats [DecidableEq α] : List α → List α
  | a :: b :: rest => if a = b then dropRepeats (b :: rest) else a :: dropRepeats (b :: rest)
  | as => as

/-- Each element once, in the order of first appearance. -/
def firstOccurrences [DecidableEq α] (as : List α) : List α :=
  (as.foldl (fun seen a => if a ∈ seen then seen else a :: seen) []).reverse

@[simp] theorem mem_firstOccurrences [DecidableEq α] {a : α} :
    a ∈ firstOccurrences as ↔ a ∈ as := by
  have hfold : ∀ seen : List α,
      a ∈ as.foldl (fun seen a => if a ∈ seen then seen else a :: seen) seen ↔
        a ∈ seen ∨ a ∈ as := by
    induction as with
    | nil => simp
    | cons b as ih =>
      intro seen
      rw [List.foldl_cons, ih]
      by_cases hb : b ∈ seen
      · rw [if_pos hb, List.mem_cons]
        refine ⟨fun h => h.imp_right .inr, ?_⟩
        rintro (h | rfl | h)
        · exact .inl h
        · exact .inl hb
        · exact .inr h
      · rw [if_neg hb, List.mem_cons, List.mem_cons, or_comm (a := a = b), or_assoc]
  rw [firstOccurrences, List.mem_reverse, hfold]
  simp

end ValueFlow
