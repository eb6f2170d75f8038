import ValueFlow.Flow.System
import ValueFlow.Proofs.Flow.Outcome

/-!
# Awaiting is a search

Awaiting opens promises and goes on with what they come to, until nothing is left
to open. What it came to in the end is described by the values that it has
visited: each of them was opened, at some depth, and leads to values that were
visited too or that are settled.
-/

namespace ValueFlow.Rule

variable {P : Request → Prop} {st : Setting} {perform : Meaning} {p : Config → Prop}
  {settled result : ConfigSet} {depth : Nat} {pending : List Config} {seen : List Config}

/-- What a value comes to if it is a promise. -/
def opened (perform : Meaning) (value : Config) : Rule (Option ConfigSet) :=
  match value.node? with
  | some n => resolved? perform n value.env
  | none => pure none

/-- How awaiting goes on when a value has been opened. -/
def afterOpening (perform : Meaning) (value : Config) (pending seen : List Config)
    (settled : ConfigSet) : Option ConfigSet → Rule ConfigSet
  | none => perform (.awaited pending seen (settled.insert value))
  | some set => do
    let next ← inOrder (set.erase value)
    perform (.awaited (next ++ pending) seen
      (if value ∈ set then settled.insert value else settled))

lemma awaited_cons (value : Config) (pending seen : List Config) (settled : ConfigSet) :
    awaited perform (value :: pending) seen settled =
      if value ∈ seen then perform (.awaited pending seen settled)
      else opened perform value >>= afterOpening perform value pending (value :: seen) settled := by
  unfold opened
  simp only [awaited]
  split
  · rfl
  · cases value.node? <;> rfl

/-- Where a value leads that has been opened: to itself if it is no promise, and
otherwise to what it comes to. -/
def Leads (value : Config) (settled : ConfigSet) (reached : Config → Prop) :
    Option ConfigSet → Prop
  | none => value ∈ settled
  | some set => (value ∈ set → value ∈ settled) ∧ ∀ c ∈ set, c ≠ value → reached c

lemma Leads.imp {value : Config} {reached reached' : Config → Prop} {found : Option ConfigSet}
    (h : Leads value settled reached found) (hreached : ∀ c, reached c → reached' c) :
    Leads value settled reached' found := by
  cases found with
  | none => exact h
  | some set => exact ⟨h.1, fun c hc hne => hreached c (h.2 c hc hne)⟩

def Awaits (P : Request → Prop) (st : Setting) (p : Config → Prop) (depth : Nat)
    (visited : List Config) (settled : ConfigSet) (reached : Config → Prop) : Prop :=
  ∀ value ∈ visited, p value ∧ ∃ d < depth, ∃ found,
    Comes P st (opened (meaning d) value) found ∧ Leads value settled reached found

def Opens (P : Request → Prop) (st : Setting) (p : Config → Prop) (depth : Nat) : Prop :=
  ∀ d < depth, ∀ value set, p value → Comes P st (opened (meaning d) value) (some set) →
    ∀ c ∈ set, p c

/-- Awaiting ends with a search: by induction on the depth, which every value
awaited uses up. -/
lemma exists_awaits (hp : Opens P st p depth) (hpending : ∀ c ∈ pending, p c)
    (hsettled : ∀ c ∈ settled, p c)
    (h : Comes P st (meaning depth (.awaited pending seen settled)) result) :
    ∃ visited, (∀ c ∈ pending, c ∈ visited ∨ c ∈ seen) ∧ (∀ c ∈ settled, c ∈ result) ∧
      (∀ c ∈ result, p c) ∧ Awaits P st p depth visited result fun c => c ∈ visited ∨ c ∈ seen := by
  induction depth generalizing pending seen settled with
  | zero => exact absurd h (not_comes_diverge _)
  | succ depth ih =>
    have hp' : Opens P st p depth := fun d hd => hp d (Nat.lt_succ_of_lt hd)
    have h : Comes P st (awaited (meaning depth) pending seen settled) result := h
    cases pending with
    | nil =>
      cases h.pure
      exact ⟨[], nofun, fun _ hc => hc, hsettled, nofun⟩
    | cons value pending =>
      obtain ⟨hvalue, hpending⟩ := List.forall_mem_cons.mp hpending
      rw [awaited_cons] at h
      split at h
      · next hseen =>
        obtain ⟨visited, hall, hkept, hadmits, hawaits⟩ := ih hp' hpending hsettled h
        refine ⟨visited, List.forall_mem_cons.mpr ⟨.inr hseen, hall⟩, hkept, hadmits, ?_⟩
        intro c hc
        obtain ⟨hcv, d, hd, hfound⟩ := hawaits c hc
        exact ⟨hcv, d, Nat.lt_succ_of_lt hd, hfound⟩
      · obtain ⟨found, hfound, h⟩ := h.bind
        -- the rest of the search has this value among the seen ones
        suffices hrest : ∃ visited, (∀ c ∈ pending, c ∈ visited ∨ c ∈ value :: seen) ∧
            (∀ c ∈ settled, c ∈ result) ∧ (∀ c ∈ result, p c) ∧
            Awaits P st p depth visited result (fun c => c ∈ visited ∨ c ∈ value :: seen) ∧
            Leads value result (fun c => c ∈ visited ∨ c ∈ value :: seen) found by
          obtain ⟨visited, hall, hkept, hadmits, hawaits, hleads⟩ := hrest
          have hmove : ∀ c, c ∈ visited ∨ c ∈ value :: seen → c ∈ value :: visited ∨ c ∈ seen := by
            intro c hc
            rw [List.mem_cons] at hc ⊢
            exact or_assoc.mpr (or_left_comm.mp hc)
          refine ⟨value :: visited, ?_, hkept, hadmits, ?_⟩
          · exact List.forall_mem_cons.mpr ⟨.inl (.head _), fun c hc => hmove c (hall c hc)⟩
          · refine List.forall_mem_cons.mpr ⟨⟨hvalue, depth, Nat.lt_succ_self _, found, hfound,
              hleads.imp hmove⟩, fun c hc => ?_⟩
            obtain ⟨hcv, d, hd, found, hfound, hleads⟩ := hawaits c hc
            exact ⟨hcv, d, Nat.lt_succ_of_lt hd, found, hfound, hleads.imp hmove⟩
        cases found with
        | none =>
          obtain ⟨visited, hall, hkept, hadmits, hawaits⟩ := ih hp' hpending
            (fun c hc => (PowerSet.mem_insert.mp hc).elim (hsettled c) (· ▸ hvalue)) h
          exact ⟨visited, hall, fun c hc => hkept c (PowerSet.mem_insert.mpr (.inl hc)), hadmits,
            hawaits, hkept value (PowerSet.mem_insert.mpr (.inr rfl))⟩
        | some set =>
          have hset : ∀ c ∈ set, p c := hp depth .refl value set hvalue hfound
          obtain ⟨next, hnext, h⟩ := h.bind
          obtain ⟨visited, hall, hkept, hadmits, hawaits⟩ := ih hp'
            (fun c hc => (List.mem_append.mp hc).elim
              (fun hc => hset c (PowerSet.mem_erase.mp ((hnext.inOrder c).mp hc)).1) (hpending c))
            (by
              split
              · exact fun c hc => (PowerSet.mem_insert.mp hc).elim (hsettled c) (· ▸ hvalue)
              · exact hsettled) h
          refine ⟨visited, fun c hc => hall c (List.mem_append_right _ hc), fun c hc => ?_, hadmits,
            hawaits, fun hself => ?_, fun c hc hne => ?_⟩
          · refine hkept c ?_
            split
            · exact PowerSet.mem_insert.mpr (.inl hc)
            · exact hc
          · refine hkept value ?_
            rw [if_pos hself]
            exact PowerSet.mem_insert.mpr (.inr rfl)
          · refine hall c (List.mem_append_left _ ((hnext.inOrder c).mpr ?_))
            exact PowerSet.mem_erase.mpr ⟨hc, hne⟩

/-! ## What is found -/

/-- Awaiting the value leads to `c` in the end: to the value itself if it is no promise or
comes to itself, and otherwise to where the values that it comes to lead. -/
inductive Settles (P : Request → Prop) (st : Setting) : Config → Config → Prop
  | plain {value : Config} {d : Nat} (h : Comes P st (opened (meaning d) value) none) :
      Settles P st value value
  | itself {value : Config} {d : Nat} {set : ConfigSet}
      (h : Comes P st (opened (meaning d) value) (some set)) (hself : value ∈ set) :
      Settles P st value value
  | next {value c x : Config} {d : Nat} {set : ConfigSet}
      (h : Comes P st (opened (meaning d) value) (some set)) (hc : c ∈ set) (hne : c ≠ value)
      (hx : Settles P st c x) : Settles P st value x

/-- What is awaited was settled or is reached from what is pending. -/
lemma settles_of_mem_awaited
    (h : Comes P st (meaning depth (.awaited pending seen settled)) result) :
    ∀ x ∈ result, x ∈ settled ∨ ∃ c ∈ pending, Settles P st c x := by
  induction depth generalizing pending seen settled with
  | zero => exact absurd h (not_comes_diverge _)
  | succ depth ih =>
    have h : Comes P st (awaited (meaning depth) pending seen settled) result := h
    cases pending with
    | nil =>
      cases h.pure
      exact fun x hx => .inl hx
    | cons value pending =>
      have hlater : ∀ {x}, (∃ c ∈ pending, Settles P st c x) →
          ∃ c ∈ value :: pending, Settles P st c x := fun ⟨c, hc, hx⟩ => ⟨c, .tail _ hc, hx⟩
      rw [awaited_cons] at h
      intro x hx
      split at h
      · exact (ih h x hx).imp_right hlater
      · obtain ⟨found, hfound, h⟩ := h.bind
        cases found with
        | none =>
          obtain hx | hx := ih h x hx
          · obtain hx | rfl := PowerSet.mem_insert.mp hx
            · exact .inl hx
            · exact .inr ⟨x, .head _, .plain hfound⟩
          · exact .inr (hlater hx)
        | some set =>
          obtain ⟨next, hnext, h⟩ := h.bind
          obtain hx | ⟨c, hc, hx⟩ := ih h x hx
          · split at hx
            · next hself =>
              obtain hx | rfl := PowerSet.mem_insert.mp hx
              · exact .inl hx
              · exact .inr ⟨x, .head _, .itself hfound hself⟩
            · exact .inl hx
          · obtain hc | hc := List.mem_append.mp hc
            · obtain ⟨hset, hne⟩ := PowerSet.mem_erase.mp ((hnext.inOrder c).mp hc)
              exact .inr ⟨value, .head _, .next hfound hset hne hx⟩
            · exact .inr (hlater ⟨c, hc, hx⟩)

lemma mem_awaited_iff
    (hopened : ∀ {d d' value found found'}, Comes P st (opened (meaning d) value) found →
      Comes P st (opened (meaning d') value) found' → found = found')
    (h : Comes P st (meaning depth (.awaited pending [] .empty)) result) (x : Config) :
    x ∈ result ↔ ∃ c ∈ pending, Settles P st c x := by
  constructor
  · intro hx
    exact (settles_of_mem_awaited h x hx).resolve_left (PowerSet.not_mem_empty x)
  · rintro ⟨c, hc, hx⟩
    obtain ⟨visited, hall, -, -, hawaits⟩ := exists_awaits (p := fun _ => True)
      (fun _ _ _ _ _ _ _ _ => trivial) (fun _ _ => trivial) (fun _ _ => trivial) h
    have hvisited : c ∈ visited := (hall c hc).resolve_right List.not_mem_nil
    clear hall hc
    -- what has been visited leads to what has been visited or is settled
    induction hx with
    | plain hfound =>
      obtain ⟨-, d, -, found, hcomes, hleads⟩ := hawaits _ hvisited
      cases hopened hfound hcomes
      exact hleads
    | itself hfound hself =>
      obtain ⟨-, d, -, found, hcomes, hleads⟩ := hawaits _ hvisited
      cases hopened hfound hcomes
      exact hleads.1 hself
    | next hfound hc hne _ ih =>
      obtain ⟨-, d, -, found, hcomes, hleads⟩ := hawaits _ hvisited
      cases hopened hfound hcomes
      exact ih ((hleads.2 _ hc hne).resolve_right List.not_mem_nil)

end ValueFlow.Rule
