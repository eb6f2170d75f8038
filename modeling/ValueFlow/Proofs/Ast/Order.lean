import ValueFlow.Proofs.Ast.Spans

/-!
# Source order

The parts of a node have texts one after the other, so that all the nodes under
it are listed in the order of their texts. Only the text of a method starts before
its key, which is a part of its own, and the first one, if it is computed.
-/

namespace ValueFlow

namespace Arena

variable {a : Arena} {tokens : Tokens} {cs : List Char} {length : Nat} {n : NodeId}

abbrev Before (a : Arena) (c d : NodeId) : Prop := (a.node c).span.stop ≤ (a.node d).span.start

/-- The texts of the nodes start one after the other. -/
abbrev SourceOrdered (a : Arena) (ns : List NodeId) : Prop :=
  ns.Pairwise fun m m' => (a.node m).span.start ≤ (a.node m').span.start

def isComputedMethod (a : Arena) (n : NodeId) : Bool :=
  match a.form n with
  | .property (.computed _) value _ => (a.node value).span.start == (a.node n).span.start
  | _ => false

/-! ## Parts -/

lemma before_of_inRoles (htiles : Tiles cs 0 tokens) {i j : Nat} {roles : List Role}
    {ns : List NodeId} (h : InRoles (a.ReadsFrom tokens) i j none roles ns)
    (hj : j ≤ tokens.count) : ns.Pairwise a.Before := by
  generalize hearly : (none : Option Nat) = early at h
  induction h with
  | nil => exact .nil
  | cons _ hx hxs ih =>
    refine .cons (fun d hd => ?_) (ih hj hearly)
    obtain ⟨_, _, _, hl, hm, hd⟩ := hxs.exists_of_mem MadeOf.le hd
    obtain ⟨_, _, -, hlt, hle, hspan⟩ := hx.exists_span
    obtain ⟨_, _, hstart | hstart, hlt', hle', hspan'⟩ := hd.exists_span
    · rw [Before, show (a.node _).span = _ from hspan, show (a.node d).span = _ from hspan']
      exact htiles.span_before hlt (by omega) (by omega)
    · cases hearly.trans hstart

/-- A computed method starts where its key does; all other parts follow each other. -/
lemma ReadIn.before_iff (h : a.ReadIn tokens length n) (htiles : Tiles cs 0 tokens) :
    (a.children n).Pairwise a.Before ↔ a.isComputedMethod n = false := by
  obtain ⟨body, -, hform, hparts⟩ | ⟨_, _, _, _, hj, hread⟩ := h
  · rw [children, isComputedMethod, hform]
    exact iff_of_true (before_of_inRoles htiles hparts .refl) rfl
  obtain ⟨-, hkm, -, hml, hlj, hspan, -, -, hparts⟩ := hread
  rename_i first _ _ _
  rw [children, isComputedMethod]
  split
  · next key value shorthand hform =>
    rw [hform] at hparts ⊢
    change InRoles _ _ _ (some first) _ _ at hparts
    obtain _ | ⟨hm, hkey, _ | ⟨hle, hvalue, hend⟩⟩ := hparts
    have hlt := hvalue.lt
    have hend := hend.le MadeOf.le
    obtain ⟨k, l, hk, hkl, hl, hkey⟩ := hkey.exists_span
    obtain ⟨k', l', hk', hkl', hl', hvalue⟩ := hvalue.exists_span
    rw [Form.children, List.pairwise_pair, Before, beq_eq_false_iff_ne,
      show (a.node key).span = _ from hkey, show (a.node value).span = _ from hvalue,
      show (a.node n).span = _ from hspan]
    have hk : first ≤ k := hk.elim (fun _ => by omega) fun h => (Option.some.inj h).le
    obtain hk' | hk' := hk'
    · -- the value starts behind the key
      have hproper := (htiles.proper _ (Tokens.token_mem (i := first) (by omega))).2
      exact iff_of_true (htiles.span_before hkl (by omega) (by omega))
        (Nat.ne_of_gt (Nat.lt_of_lt_of_le hproper (htiles.token_behind (by omega) (by omega))))
    · -- the value starts where the property does
      cases hk'
      refine iff_of_false (fun hstop => ?_) (not_not_intro rfl)
      exact absurd (Nat.lt_of_lt_of_le (htiles.start_lt_stop_span hkl (by omega)) hstop)
        (Nat.not_lt.mpr (htiles.token_mono hk (by omega)).1)
  · next hother =>
    cases hkind : (a.form n).isProperty with
    | false =>
      rw [hkind] at hparts
      exact iff_of_true (before_of_inRoles htiles hparts (by omega)) rfl
    | true =>
      unfold Form.isProperty at hkind
      split at hkind
      · next key value shorthand hform =>
        cases key with
        | named key => rw [hform]; exact iff_of_true (List.pairwise_singleton _ value) rfl
        | computed key => exact absurd hform (hother key value shorthand)
      · cases hkind

/-! ## Listings -/

/-- Nodes under `n`, in the order of their texts if no computed method is among them. -/
structure Lists (a : Arena) (n : NodeId) (ns : List NodeId) : Prop where
  within : ∀ m ∈ ns, (a.node n).span.start ≤ (a.node m).span.start ∧
             ((a.node n).span.start < (a.node n).span.stop →
               (a.node m).span.start < (a.node n).span.stop)
  sorted : (∀ m ∈ ns, a.isComputedMethod m = false) → a.SourceOrdered ns

lemma lists_nil : a.Lists n [] := ⟨nofun, fun _ => .nil⟩

section Nested

variable (hinside : ∀ {n c}, c ∈ a.children n → ∃ tokens, a.Spelled tokens n c)
  (hbefore : ∀ n, (a.children n).Pairwise a.Before ↔ a.isComputedMethod n = false)
include hinside hbefore

lemma lists_cons {list : NodeId → List NodeId} (hlist : ∀ c ∈ a.children n, a.Lists c (list c)) :
    a.Lists n (n :: (a.children n).flatMap list) := by
  have hwithin : ∀ m ∈ (a.children n).flatMap list,
      (a.node n).span.start ≤ (a.node m).span.start ∧
        (a.node m).span.start < (a.node n).span.stop := by
    intro m hm
    obtain ⟨c, hc, hm⟩ := List.mem_flatMap.mp hm
    obtain ⟨_, hproper, -, -, hin, -⟩ := hinside hc
    obtain ⟨hle, hlt⟩ := (hlist c hc).within m hm
    exact ⟨Nat.le_trans hin.1 hle, Nat.lt_of_lt_of_le (hlt hproper) hin.2⟩
  refine ⟨List.forall_mem_cons.mpr ⟨⟨Nat.le_refl _, id⟩, fun m hm => ?_⟩, fun hnone => ?_⟩
  · exact ⟨(hwithin m hm).1, fun _ => (hwithin m hm).2⟩
  obtain ⟨hn, hnone⟩ := List.forall_mem_cons.mp hnone
  refine .cons (fun m hm => (hwithin m hm).1) (List.pairwise_flatMap.mpr ⟨fun c hc => ?_, ?_⟩)
  · exact (hlist c hc).sorted fun m hm => hnone m (List.mem_flatMap.mpr ⟨c, hc, hm⟩)
  · refine ((hbefore n).mpr hn).imp_of_mem fun hc hd hcd m hm m' hm' => ?_
    obtain ⟨_, hproper, -⟩ := hinside hc
    have hlt := ((hlist _ hc).within m hm).2 hproper
    exact Nat.le_trans (Nat.le_of_lt hlt) (Nat.le_trans hcd ((hlist _ hd).within m' hm').1)

lemma lists_descendantsFrom (fuel : Nat) (n : NodeId) : a.Lists n (a.descendantsFrom fuel n) := by
  induction fuel generalizing n with
  | zero => exact lists_nil
  | succ fuel ih => exact lists_cons hinside hbefore fun c _ => ih c

lemma lists_localFrom (fuel : Nat) (n : NodeId) : a.Lists n (a.localFrom fuel n) := by
  induction fuel generalizing n with
  | zero => exact lists_nil
  | succ fuel ih =>
    rw [localFrom]
    split
    · refine ⟨fun m hm => ?_, fun _ => List.pairwise_singleton _ n⟩
      cases List.mem_singleton.mp hm
      exact ⟨Nat.le_refl _, id⟩
    · exact lists_cons hinside hbefore fun c _ => ih c

end Nested

end Arena

/-- **Source order.** The parts of a node have texts one after the other, unless it is a method
with a computed key; and where there is none, all the nodes under a node are listed by the start
of their texts, also if functions are not entered. -/
theorem Program.listed_in_source_order {sources : Sources} {p : Program}
    (h : build sources = .ok p) (n : NodeId) :
    ((p.arena.children n).Pairwise p.arena.Before ↔ p.arena.isComputedMethod n = false) ∧
    ((∀ m ∈ p.arena.descendants n, p.arena.isComputedMethod m = false) →
      p.arena.SourceOrdered (p.arena.descendants n)) ∧
    ((∀ m ∈ p.arena.localDescendants n, p.arena.isComputedMethod m = false) →
      p.arena.SourceOrdered (p.arena.localDescendants n)) := by
  have hholds := holds_of_build h
  have hinside : ∀ {n c}, c ∈ p.arena.children n → ∃ tokens, p.arena.Spelled tokens n c := by
    intro n c hc
    obtain ⟨_, _, tokens, _, -, -, hspelled⟩ := hholds.spelled hc
    exact ⟨tokens, hspelled⟩
  have hbefore : ∀ n, (p.arena.children n).Pairwise p.arena.Before ↔
      p.arena.isComputedMethod n = false := by
    intro n
    by_cases hempty : p.arena.form n = .empty
    · rw [Arena.children, Arena.isComputedMethod, hempty]
      exact iff_of_true .nil rfl
    · obtain ⟨_, _, _, _, -, -, hscan, hread⟩ := hholds.readIn (Arena.lt_size_of_form hempty)
      exact hread.before_iff (tiles_of_scan hscan)
  exact ⟨hbefore n, (Arena.lists_descendantsFrom hinside hbefore _ n).sorted,
    (Arena.lists_cons hinside hbefore fun c _ => Arena.lists_localFrom hinside hbefore n c).sorted⟩

/-- A computed key and a method. -/
theorem Program.listed_in_source_order_of_object : ∃ p,
    build [("main", "(\x7b [k]: 1, m() \x7b return 2; \x7d \x7d);")] = .ok p ∧
      (p.arena.descendants 10 = [10, 9, 8, 2, 0, 1, 7, 6, 5, 4, 3] ∧
        ∀ m ∈ p.arena.descendants 10, p.arena.isComputedMethod m = false) ∧
      p.arena.SourceOrdered (p.arena.descendants 10) :=
  exists_of_test_and (by decide +kernel) fun h hlist => (listed_in_source_order h 10).2.1 hlist.2

/-- A method with a computed key comes before its key and is listed after it. -/
theorem Program.computed_method_out_of_order : ∃ p,
    build [("main", "(\x7b [k]() \x7b\x7d \x7d);")] = .ok p ∧ p.arena.children 3 = [0, 2] ∧
      ¬ (p.arena.children 3).Pairwise p.arena.Before ∧
      ¬ p.arena.SourceOrdered (p.arena.descendants 6) :=
  exists_of_test _ _ (by decide +kernel)

end ValueFlow
