import ValueFlow.Proofs.Flow.Comparison.Operations

/-!
# The depth of operations

Operations on values need each other, and they are given a meaning up to a depth.
The depth only cuts off: whatever an operation comes to at a depth, it comes to at
every greater depth, with the same requests. That is a comparison of rules too
(`Comparison.deeper`), of two sides that find the same.
-/

namespace ValueFlow

variable {w : World} {α : Type}

/-- Whatever the first run comes to, the second one comes to. -/
def Comparison.deeper (hbuilt : w.program.Built) : Comparison w where
  toTerrain := .all hbuilt
  same := True
  Holds R tree tree' := ∀ P a, Rule.Comes P ⟨w, []⟩ (fun _ => tree) a →
    ∃ b, Rule.Comes P ⟨w, []⟩ (fun _ => tree') b ∧ R a b
  value _ := True
  fact _ _ := True
  immediate _ _ := trivial
  reads _ := ⟨Terrain.found_all _ _, fun _ => trivial⟩
  mono h hR P a ha := by
    obtain ⟨b, hb, hab⟩ := h P a ha
    exact ⟨b, hb, hR a b hab⟩
  done {_ _ a b} h _ P _ hcomes := by
    cases hcomes.pure
    exact ⟨b, Rule.comes_pure b, h⟩
  bind {_ _ _ _ tree tree' f f'} h hf P c hc := by
    obtain ⟨a, ha, hc⟩ := Rule.Comes.bind (r := fun _ => tree) (f := fun a _ => f a) hc
    obtain ⟨b, hb, hab⟩ := h P a ha
    obtain ⟨d, hd, hcd⟩ := hf a b hab P c hc
    exact ⟨d, Rule.Comes.andThen (r := fun _ => tree') (f := fun b _ => f' b) hb hd, hcd⟩
  read _ _ P set h := ⟨set, h, .refl fun _ _ => trivial⟩
  note _ P u h := ⟨u, h, rfl⟩
  number _ P i h := ⟨i, h, fun _ => rfl⟩
  enters _ _ _ _ _ _ _ _ _ _ P u h := ⟨u, h, rfl⟩
  ambiguous := .inr fun _ e P a h => absurd h (Rule.not_comes_fail e a)
  report h := absurd trivial h
  void h := absurd trivial h
  order h := absurd trivial h
  gather h := absurd trivial h

namespace Rule

variable {P : Request → Prop} {st : Setting} {r r' : Rule α} {depth depth' : Nat} {R : α → α → Prop}

/-- Whatever the first rule comes to, the second one comes to. -/
def Deeper (w : World) (r r' : Rule α) : Prop :=
  ∀ P visiting a, Comes P ⟨w, visiting⟩ r a → Comes P ⟨w, visiting⟩ r' a

lemma Compares.deeper {hbuilt : w.program.Built}
    (h : Compares (.deeper hbuilt) R r r') (hR : ∀ a b, R a b → a = b) : Deeper w r r' := by
  intro P visiting a ha
  obtain ⟨b, hb, hab⟩ := h visiting P a ha
  exact hR a b hab ▸ hb

lemma performs_succ (hbuilt : w.program.Built) (depth : Nat) :
    Performs (.deeper hbuilt) (meaning depth) (meaning (depth + 1)) := by
  induction depth with
  | zero =>
    exact .of_trivial (fun _ _ => .inl trivial) fun _ _ _ _ P a h => absurd h (not_comes_diverge a)
  | succ depth ih => exact ih.deeper trivial

/-- A rule that compares where its operations do comes to the same at every greater depth. -/
lemma deeper_of_le (hbuilt : w.program.Built) {r : Nat → Rule α}
    (hr : ∀ d, Performs (.deeper hbuilt) (meaning d) (meaning (d + 1)) →
      Compares (.deeper hbuilt) R (r d) (r (d + 1))) (hR : ∀ a b, R a b → a = b)
    (h : depth ≤ depth') : Deeper w (r depth) (r depth') := by
  induction h with
  | refl => exact fun _ _ _ ha => ha
  | step _ ih =>
    intro P visiting a ha
    exact (hr _ (performs_succ hbuilt _)).deeper hR P visiting a (ih P visiting a ha)

/-- Where no request has two answers, results at different depths are the same. -/
lemma Comes.unique_depth (hP : OneAnswer P) {r : Nat → Rule α}
    (hr : ∀ {d d' : Nat}, d ≤ d' → Deeper st.world (r d) (r d')) {d d' : Nat} {a a' : α}
    (h : Comes P st (r d) a) (h' : Comes P st (r d') a') : a = a' :=
  (hr (Nat.le_max_left d d') _ _ _ h).unique hP (hr (Nat.le_max_right d d') _ _ _ h')

/-- The same, of what is found. -/
lemma deeper_of_below {γ δ : Type} [Membership δ γ] (hbuilt : w.program.Built) {r : Nat → Rule γ}
    {p : δ → Prop} (hr : ∀ d, Performs (.deeper hbuilt) (meaning d) (meaning (d + 1)) →
      Compares (.deeper hbuilt) (Below True p) (r d) (r (d + 1))) (h : depth ≤ depth') :
    Deeper w (r depth) (r depth') :=
  deeper_of_le hbuilt hr (fun _ _ hab => hab.eq trivial) h

/-- What an operation comes to at a depth, it comes to at every greater depth. -/
lemma deeper_meaning (hbuilt : w.program.Built) (op : Operation α) (h : depth ≤ depth') :
    Deeper w (meaning depth op) (meaning depth' op) := by
  have hplace : ∀ c, (Comparison.deeper hbuilt).place c := fun c => .inl (Terrain.spot_all c)
  cases op with
  | targets callee env =>
    exact deeper_of_below hbuilt (fun d hp => hp.targets ⟨trivial, trivial⟩) h
  | kinds value =>
    refine deeper_of_le hbuilt (fun d hp => hp.kinds (hplace value))
      (fun _ _ hab => hab.eq (.inl trivial)) h
  | property values name site =>
    exact deeper_of_below hbuilt (fun d hp => hp.property
      (.refl fun c _ => ⟨hplace c, .inl trivial⟩) name site
      fun _ _ => ⟨⟨trivial, trivial⟩, .inl trivial⟩) h
  | elements values position =>
    exact deeper_of_below hbuilt (fun d hp => hp.elements
      (.refl fun c _ => ⟨hplace c, .inl trivial⟩) position) h
  | awaited pending seen settled =>
    exact deeper_of_below hbuilt (fun d hp => hp.awaited (.refl fun c _ => ⟨hplace c, trivial⟩)
      (.refl fun c _ => ⟨hplace c, trivial⟩) (.inl trivial)) h

lemma deeper_opened (hbuilt : w.program.Built) (value : Config) (h : depth ≤ depth') :
    Deeper w (opened (meaning depth) value) (opened (meaning depth') value) := by
  refine deeper_of_le hbuilt (r := fun d => opened (meaning d) value)
    (fun d hp => compares_opened hp (.inl (Terrain.spot_all value)) trivial) (fun a b hab => ?_) h
  cases hab with
  | none => rfl
  | some hset => rw [hset.eq trivial]

lemma opened_unique (hbuilt : st.world.program.Built) (hP : OneAnswer P) {d d' : Nat}
    {value : Config} {found found' : Option ConfigSet}
    (h : Comes P st (opened (meaning d) value) found)
    (h' : Comes P st (opened (meaning d') value) found') : found = found' :=
  h.unique_depth hP (r := fun d => opened (meaning d) value) (deeper_opened hbuilt value) h'

end Rule

end ValueFlow
