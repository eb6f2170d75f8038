import Mathlib.Data.List.Infix
import Mathlib.Tactic.Lemma
import ValueFlow.Context

/-!
# The order of contexts

One context is at least as specific as another one if it is the same, or if the
other one is open at its end and its call sites are the most recent ones of the
first. So the comparison site by site is a comparison of lists, and it is an order
from the specific to the general.

The bound on call strings cuts off the oldest sites and leaves an open end.
-/

namespace ValueFlow

lemma Terminal.isOpen_iff {t : Terminal} :
    t.isOpen = true ↔ t = .limit ∨ ∃ f, t = .question f := by
  cases t <;> simp [isOpen]

namespace Context

variable {head : Context}

/-! ## The order -/

lemma refinesFrom_iff {a b : Terminal} {as bs : List Nat} :
    refinesFrom a b as bs = true ↔ (as = bs ∧ a = b) ∨ (b.isOpen = true ∧ bs <+: as) := by
  fun_induction refinesFrom a b as bs with
  | case1 as => simp [or_comm]
  | case2 t bs => simp
  | case3 s as t bs ih =>
    rw [Bool.and_eq_true, decide_eq_true_eq, ih, List.cons_prefix_cons, List.cons.injEq]
    constructor
    · rintro ⟨rfl, ⟨rfl, h⟩ | ⟨hopen, h⟩⟩
      · exact .inl ⟨⟨rfl, rfl⟩, h⟩
      · exact .inr ⟨hopen, rfl, h⟩
    · rintro (⟨⟨rfl, rfl⟩, h⟩ | ⟨hopen, rfl, h⟩)
      · exact ⟨rfl, .inl ⟨rfl, h⟩⟩
      · exact ⟨rfl, .inr ⟨hopen, h⟩⟩

/-- A context is refined by itself, and one with an open end by all the contexts that
have its call sites first. -/
lemma refines_iff {a b : Context} :
    a.refines b = true ↔ a = b ∨ (b.terminal.isOpen = true ∧ b.sites <+: a.sites) := by
  rw [refines, refinesFrom_iff, Context.mk.injEq]

lemma refines_refl (c : Context) : c.refines c = true := refines_iff.mpr (.inl rfl)

lemma refines_trans {a b c : Context} (hab : a.refines b = true) (hbc : b.refines c = true) :
    a.refines c = true := by
  rw [refines_iff] at hab hbc ⊢
  obtain rfl | ⟨hopen, hsites⟩ := hab
  · exact hbc
  · obtain rfl | ⟨hopen', hsites'⟩ := hbc
    · exact .inr ⟨hopen, hsites⟩
    · exact .inr ⟨hopen', hsites'.trans hsites⟩

lemma refines_question (c : Context) (function : Nat) : c.refines (.question function) = true :=
  refines_iff.mpr (.inr ⟨rfl, List.nil_prefix⟩)

/-! ## Entering a call -/

lemma frame_inj {site site' : Nat} {c d : Context} :
    frame site c = frame site' d ↔ site = site' ∧ c = d := by
  cases c
  cases d
  simp [frame, and_assoc]

/-- The bound keeps the most recent call sites, and the end of what it does not cut. -/
lemma truncate_eq (c : Context) (m : Nat) :
    c.truncate m = ⟨c.sites.take m, if c.depth ≤ m then c.terminal else .limit⟩ := by
  unfold truncate
  split
  · next h => rw [List.take_of_length_le h]
  · rfl

lemma push_eq (site : Nat) (head : Context) (m : Nat) :
    push site head m =
      ⟨(site :: head.sites).take m, if 1 + head.depth ≤ m then head.terminal else .limit⟩ := by
  rw [push, truncate_eq, Nat.add_comm]
  rfl

/-- One site more within a bound that is one larger. -/
lemma truncate_frame (site : Nat) (c : Context) (m : Nat) :
    (frame site c).truncate (m + 1) = frame site (c.truncate m) := by
  rw [truncate_eq, truncate_eq]
  exact congrArg (Context.mk _) (if_congr Nat.add_le_add_iff_right rfl rfl)

lemma depth_push_le (site : Nat) (head : Context) (bound : Nat) :
    (push site head bound).depth ≤ bound := by
  rw [push_eq]
  exact List.length_take_le bound _

lemma push_of_lt {bound : Nat} (h : head.depth < bound) (site : Nat) :
    push site head bound = frame site head :=
  if_pos h

/-- At the bound the oldest sites are cut off. -/
lemma push_of_le {bound : Nat} (h : bound ≤ head.depth) (site : Nat) :
    push site head bound = ⟨(site :: head.sites).take bound, .limit⟩ :=
  if_neg (Nat.not_le_of_lt (Nat.lt_succ_of_le h))

/-- Entering the same call keeps the order. -/
lemma push_refines_push {a b : Context} (h : a.refines b = true) (site m : Nat) :
    (push site a m).refines (push site b m) = true := by
  obtain rfl | ⟨hopen, hsites⟩ := refines_iff.mp h
  · exact refines_refl _
  refine refines_iff.mpr (.inr ?_)
  rw [push_eq, push_eq]
  refine ⟨?_, List.IsPrefix.take (List.cons_prefix_cons.mpr ⟨rfl, hsites⟩) m⟩
  dsimp only
  split
  · exact hopen
  · rfl

/-- A larger bound only refines. -/
lemma push_refines_of_le (site : Nat) (c : Context) {m m' : Nat} (h : m ≤ m') :
    (push site c m').refines (push site c m) = true := by
  by_cases hm : c.depth < m
  · rw [push_of_lt hm, push_of_lt (Nat.lt_of_lt_of_le hm h)]
    exact refines_refl _
  · rw [push_of_le (Nat.le_of_not_lt hm), push_eq]
    exact refines_iff.mpr (.inr ⟨rfl, List.take_prefix_take_left h⟩)

end Context

end ValueFlow
