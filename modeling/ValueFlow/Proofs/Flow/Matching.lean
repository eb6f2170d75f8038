import ValueFlow.Proofs.Context
import ValueFlow.Proofs.Flow.Fixed

/-!
# Matching returns with calls

A function is left for one of its callers under a context that begins with the call
site, but the rest of the context may have been cut off, and the caller may be known
only up to an open end. `Rule.matchingCaller` compares in two directions: the caller
can have entered the call with less known than the context of the body says, or with
more.
-/

namespace ValueFlow

namespace Context

lemma sites_push (site : Nat) (head : Context) (bound : Nat) :
    (push site head bound).sites = (site :: head.sites).take bound := by
  rw [push_eq]

lemma sites_prefix_of_refines {a b : Context} (h : a.refines b = true) : b.sites <+: a.sites := by
  obtain rfl | ⟨-, hsites⟩ := refines_iff.mp h
  · exact List.prefix_rfl
  · exact hsites

end Context

namespace Rule

open Context

variable {call : NodeId} {bound : Nat} {env found : Env} {head : Context}

/-- The environment from which a call has the context `head` inside: `env` itself, if
entering the call from it leads to such a context, or else `env` with the part of `head`
that was there before the call. -/
def callerEnv? (bound : Nat) (call : NodeId) (env : Env) (head : Context) : Option Env :=
  if (push call env.head bound).refines head then some env
  else match head.sites with
    | site :: sites =>
      let tail : Context := ⟨sites, head.terminal⟩
      if site = call && tail.refines env.head then some (env.withHead tail) else none
    | [] => none

lemma result_matchingCaller (t : Table) (st : Setting) (call : NodeId) (env : Env)
    (head : Context) :
    t.result st (matchingCaller call env head) =
      some (callerEnv? st.world.bound call env head) := by
  rw [Table.result_eq_some_iff]
  unfold matchingCaller callerEnv?
  rw [comes_bind_world]
  by_cases hpushed : (push call env.head st.world.bound).refines head = true
  · simp only [if_pos hpushed]
    exact comes_pure _
  simp only [if_neg hpushed]
  cases head.sites with
  | nil => exact comes_pure _
  | cons site sites =>
    by_cases htail : (site = call && Context.refines ⟨sites, head.terminal⟩ env.head) = true
    · simp only [if_pos htail]
      exact (t.comes_known st _).andThen (comes_pure _)
    · simp only [if_neg htail]
      exact comes_pure _

/-! ## No caller is missed -/

lemma callerEnv_of_push_refines (h : (push call env.head bound).refines head = true) :
    callerEnv? bound call env head = some env :=
  if_pos h

/-- The part of the context before the call refines the caller: there is a match, whichever
way the comparison goes. -/
lemma exists_callerEnv_of_tail {sites : List Nat} {terminal : Terminal}
    (h : Context.refines ⟨sites, terminal⟩ env.head = true) :
    ∃ found, callerEnv? bound call env ⟨call :: sites, terminal⟩ = some found := by
  unfold callerEnv?
  split
  · exact ⟨env, rfl⟩
  · exact ⟨env.withHead ⟨sites, terminal⟩, if_pos (by simp [h])⟩

/-- A caller that entered the call is found. -/
lemma exists_callerEnv {caller : Context} (hrefines : caller.refines env.head = true)
    (bound call : Nat) :
    ∃ found, callerEnv? bound call env (push call caller bound) = some found := by
  by_cases hwithin : caller.depth < bound
  · -- nothing is cut off: the whole caller is left in the context
    rw [push_of_lt hwithin]
    exact exists_callerEnv_of_tail hrefines
  have hcut := push_of_le (Nat.le_of_not_lt hwithin) call
  by_cases hknown : bound ≤ env.head.depth + 1
  · -- as many sites of the caller are known as the context can hold
    refine ⟨env, callerEnv_of_push_refines (refines_iff.mpr (.inr ?_))⟩
    have hprefix : (call :: env.head.sites) <+: (call :: caller.sites) :=
      List.cons_prefix_cons.mpr ⟨rfl, sites_prefix_of_refines hrefines⟩
    have hsame : (call :: caller.sites).take bound = (call :: env.head.sites).take bound := by
      obtain ⟨older, holder⟩ := hprefix
      rw [← holder, List.take_append_of_le_length hknown]
    rw [hcut, sites_push]
    exact ⟨rfl, hsame ▸ List.prefix_rfl⟩
  · -- fewer sites are known than were kept, so the end of what is known is open
    obtain ⟨kept, rfl⟩ : ∃ kept, bound = kept + 1 := ⟨bound - 1, by omega⟩
    obtain rfl | ⟨hopen, hsites⟩ := refines_iff.mp hrefines
    · omega
    rw [hcut, List.take_succ_cons]
    refine exists_callerEnv_of_tail (refines_iff.mpr (.inr ⟨hopen, ?_⟩))
    have hshort : env.head.sites.length ≤ kept := by
      simp only [depth] at hknown
      omega
    exact List.prefix_take_iff.mpr ⟨hsites, hshort⟩

/-! ## A match is a caller -/

/-- What is found leads back to the context of the body. -/
lemma push_refines_of_callerEnv (hdepth : head.depth ≤ bound)
    (h : callerEnv? bound call env head = some found) :
    found.outer = env.outer ∧ found.head.refines env.head = true ∧
      (push call found.head bound).refines head = true := by
  unfold callerEnv? at h
  split at h
  · next hpushed =>
    cases h
    exact ⟨rfl, refines_refl _, hpushed⟩
  · split at h
    · next site sites hsites =>
      dsimp only at h
      split at h
      · next htail =>
        simp only [Bool.and_eq_true, decide_eq_true_eq] at htail
        obtain ⟨rfl, htail⟩ := htail
        cases h
        -- the context has room for the call, so entering it cuts nothing off
        have hroom : Context.depth ⟨sites, head.terminal⟩ < bound := by
          simp only [depth, hsites, List.length_cons] at hdepth ⊢
          omega
        have hback : push site ⟨sites, head.terminal⟩ bound = head := by
          rw [push_of_lt hroom, frame, ← hsites]
        exact ⟨rfl, htail, by
          show (push site ⟨sites, head.terminal⟩ bound).refines head = true
          rw [hback]
          exact refines_refl head⟩
      · cases h
    · cases h

/-- **Returns are matched with calls.** Let a call be entered from an environment whose
head refines the head of another one: under the context of the body, the second one is
found to be a caller. And an environment that is found differs from the one that was asked
for in its head only; the new head refines the old one, and entering the call from it leads
to a context that refines the one of the body. -/
theorem matchingCaller_eq_some (t : Table) (st : Setting) (call : NodeId) :
    (∀ caller env : Env, caller.outer = env.outer → caller.head.refines env.head = true →
      caller.head.depth ≤ st.world.bound → env.head.depth ≤ st.world.bound →
      ∃ found, t.result st
        (matchingCaller call env (push call caller.head st.world.bound)) = some (some found)) ∧
    ∀ (env : Env) (head : Context) (found : Env), head.depth ≤ st.world.bound →
      t.result st (matchingCaller call env head) = some (some found) →
      found.outer = env.outer ∧ found.head.refines env.head = true ∧
        (push call found.head st.world.bound).refines head = true := by
  refine ⟨fun caller env _ hrefines _ _ => ?_, fun env head found hdepth hfound => ?_⟩
  · obtain ⟨found, hfound⟩ := exists_callerEnv hrefines st.world.bound call
    exact ⟨found, by rw [result_matchingCaller, hfound]⟩
  · rw [result_matchingCaller, Option.some.injEq] at hfound
    exact push_refines_of_callerEnv hdepth hfound

/-- A call at `6` from a caller that was called at `5` and `4` leaves two sites when the
bound is two. Where nothing is known of the caller, the match knows that it was called
at `5`. -/
theorem matchingCaller_eq_some_unknown :
    let st : Setting := ⟨⟨⟨.empty, .ofCodebase .empty⟩, .empty, 2, []⟩, []⟩
    let t : Table := .ofList []
    let caller : Env := ⟨⟨[5, 4], .stackBottom⟩, []⟩
    let env : Env := ⟨.question 1, []⟩
    push 6 caller.head 2 = ⟨[6, 5], .limit⟩ ∧
      t.result st (matchingCaller 6 env (push 6 caller.head 2)) =
        some (some ⟨⟨[5], .limit⟩, []⟩) ∧
      (∃ found, t.result st (matchingCaller 6 env (push 6 caller.head 2)) = some (some found)) ∧
      (push 6 ⟨[5], .limit⟩ 2).refines (push 6 caller.head 2) = true := by
  intro st t caller env
  have hfound : t.result st (matchingCaller 6 env (push 6 caller.head 2)) =
      some (some ⟨⟨[5], .limit⟩, []⟩) := result_matchingCaller t st 6 env _
  obtain ⟨hcomplete, hsound⟩ := matchingCaller_eq_some t st 6
  refine ⟨rfl, hfound, hcomplete caller env rfl ?_ ?_ ?_, ?_⟩
  · exact refines_question _ 1
  · show 2 ≤ 2
    omega
  · show 0 ≤ 2
    omega
  · exact (hsound env _ _ (depth_push_le 6 caller.head 2) hfound).2.2

end Rule

end ValueFlow
