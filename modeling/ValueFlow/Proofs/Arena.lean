import ValueFlow.Context.Arena
import ValueFlow.Proofs.Context
import ValueFlow.Proofs.Numbering

/-!
# The call strings of an arena

In an arena whose frames come after their tails, every number stands for one call
string, and for a different one than any other number. Making a context makes the call
strings below it if they are not there, and changes nothing else, so what a number
stands for stays. Through this view the operations on numbers, which walk from frame to
frame, are those on call strings.
-/

namespace ValueFlow.ContextArena

variable {a b : ContextArena} {i j m site tail bound : Nat} {t : Terminal} {c : Context}

/-- Each link has one number, a frame comes after its tail, and the first two numbers
are taken. -/
structure Sound (a : ContextArena) : Prop where
  canonical : a.Canonical
  older : ∀ i site tail, a.get? i = some (.frame site tail) → tail < i
  bottom : a.get? stackBottom = some (.ending .stackBottom)
  limit : a.get? limit = some (.ending .limit)

/-! ## Walking down -/

lemma frame?_of_ending (h : a.get? i = some (.ending t)) : a.frame? i = none := by
  rw [frame?, h]

lemma context_of_ending (h : a.get? i = some (.ending t)) : a.context i = ⟨[], t⟩ := by
  rw [context, sites, terminal, frame?_of_ending h]
  dsimp only
  rw [h]

lemma length_sites (a : ContextArena) (i : Nat) : (a.sites i).length = a.depth i := by
  fun_induction sites a i with
  | case1 i site tail h ih => rw [depth, h, List.length_cons, ih]
  | case2 i h => rw [depth, h, List.length_nil]

namespace Sound

variable (h : a.Sound)
include h

lemma frame? (hi : a.get? i = some (.frame site tail)) :
    a.frame? i = some (site, ⟨tail, h.older i site tail hi⟩) := by
  rw [ContextArena.frame?, hi]
  exact dif_pos _

lemma context_of_frame (hi : a.get? i = some (.frame site tail)) :
    a.context i = .frame site (a.context tail) := by
  rw [context, sites, terminal, h.frame? hi]
  rfl

/-- Induction down a call string. -/
@[elab_as_elim]
theorem induction {motive : (i : Nat) → i < a.size → Prop}
    (ending : ∀ i t hi, a.get? i = some (.ending t) → motive i hi)
    (frame : ∀ i site tail hi (ht : tail < a.size), a.get? i = some (.frame site tail) →
      motive tail ht → motive i hi) (i : Nat) (hi : i < a.size) : motive i hi := by
  induction i using Nat.strongRecOn with
  | ind i ih =>
    obtain ⟨link, hlink⟩ := Numbering.get?_of_lt hi
    cases link with
    | ending t => exact ending i t hi hlink
    | frame site tail =>
      have hold := h.older i site tail hlink
      exact frame i site tail hi (Nat.lt_trans hold hi) hlink (ih tail hold _)

/-- A walk ends at the end of the call string. -/
lemma get?_terminal (hi : i < a.size) :
    a.get? (a.terminal i) = some (.ending (a.context i).terminal) := by
  induction i, hi using h.induction with
  | ending i t hi hlink =>
    rw [context_of_ending hlink, terminal, frame?_of_ending hlink]
    exact hlink
  | frame i site tail hi ht hlink ih =>
    rw [h.context_of_frame hlink, terminal, h.frame? hlink]
    exact ih

lemma eq_terminal_iff (hi : i < a.size) (hj : a.get? j = some (.ending t)) :
    a.terminal i = j ↔ (a.context i).terminal = t := by
  rw [h.canonical.eq_iff (h.get?_terminal hi) hj, Link.ending.injEq]

/-- Two numbers never stand for one call string. -/
lemma context_injective (hi : i < a.size) (hj : j < a.size) :
    a.context i = a.context j ↔ i = j := by
  refine ⟨fun heq => ?_, fun heq => heq ▸ rfl⟩
  obtain ⟨link, hlink⟩ := Numbering.get?_of_lt hj
  induction i, hi using h.induction generalizing j link with
  | ending i t hi hi' =>
    rw [context_of_ending hi'] at heq
    cases link with
    | ending u =>
      rw [context_of_ending hlink] at heq
      cases heq
      exact h.canonical.distinct i j _ hi' hlink
    | frame => rw [h.context_of_frame hlink] at heq; cases heq
  | frame i site tail hi ht hi' ih =>
    rw [h.context_of_frame hi'] at heq
    cases link with
    | ending u => rw [context_of_ending hlink] at heq; cases heq
    | frame site' tail' =>
      have hold := Nat.lt_trans (h.older j site' tail' hlink) hj
      obtain ⟨other, hother⟩ := Numbering.get?_of_lt hold
      rw [h.context_of_frame hlink, Context.frame_inj] at heq
      obtain ⟨rfl, hbelow⟩ := heq
      cases ih hold hbelow other hother
      exact h.canonical.distinct i j _ hi' hlink

lemma eq_of_map_context {ids ids' : List Nat} (hids : ∀ i ∈ ids, i < a.size)
    (hids' : ∀ i ∈ ids', i < a.size) (heq : ids.map a.context = ids'.map a.context) :
    ids = ids' := by
  induction ids generalizing ids' with
  | nil => exact (List.map_eq_nil_iff.mp heq.symm).symm
  | cons i ids ih =>
    cases ids' with
    | nil => cases heq
    | cons j ids' =>
      obtain ⟨hi, hids⟩ := List.forall_mem_cons.mp hids
      obtain ⟨hj, hids'⟩ := List.forall_mem_cons.mp hids'
      obtain ⟨hhead, htail⟩ := List.cons.inj heq
      rw [(h.context_injective hi hj).mp hhead, ih hids hids' htail]

/-- What a number stands for stays. -/
lemma context_of_extends (hb : b.Sound) (hab : a.Extends b) (hi : i < a.size) :
    b.context i = a.context i := by
  induction i, hi using h.induction with
  | ending i t hi hlink =>
    rw [context_of_ending hlink, context_of_ending (hab i _ hlink)]
  | frame i site tail hi ht hlink ih =>
    rw [h.context_of_frame hlink, hb.context_of_frame (hab i _ hlink), ih]

lemma terminal_of_extends (hb : b.Sound) (hab : a.Extends b) (hi : i < a.size) :
    b.terminal i = a.terminal i := by
  rw [hb.eq_terminal_iff (hab.lt_size hi) (hab _ _ (h.get?_terminal hi)),
    h.context_of_extends hb hab hi]

end Sound

/-! ## Making contexts -/

/-- A context is made that stands for `c`. All numbers stand for what they did before, and
the new ones for call strings that are no longer than `c`. -/
structure Makes (a : ContextArena) (made : Nat × ContextArena) (c : Context) : Prop where
  sound : made.2.Sound
  keeps : a.Extends made.2
  lt : made.1 < made.2.size
  context : made.2.context made.1 = c
  short : ∀ j < made.2.size, j < a.size ∨ (made.2.context j).depth ≤ c.depth

lemma Sound.makes_self (h : a.Sound) (hi : i < a.size) : a.Makes (i, a) (a.context i) :=
  ⟨h, .refl a, hi, rfl, fun _ hj => .inl hj⟩

lemma Sound.makes_limit (h : a.Sound) : a.Makes (ContextArena.limit, a) .limit := by
  have hself := h.makes_self (Numbering.lt_size_of_get? h.limit)
  rwa [context_of_ending h.limit] at hself

/-- Numbering one link whose tail is there. -/
lemma Sound.makes_number (h : a.Sound) {link : Link}
    (htail : ∀ site tail, link = .frame site tail → tail < a.size)
    (hc : ∀ b : ContextArena, b.Sound → a.Extends b → ∀ i, b.get? i = some link →
      b.context i = c) : a.Makes (a.number link) c := by
  obtain ⟨hcanonical, hkeeps, hlink⟩ := Numbering.number_spec h.canonical link
  have hsound : Sound (a.number link).2 := by
    refine ⟨hcanonical, fun i site tail hi => ?_, hkeeps _ _ h.bottom, hkeeps _ _ h.limit⟩
    obtain hi | ⟨rfl, heq⟩ := Numbering.get?_of_number hi
    · exact h.older i site tail hi
    · exact htail site tail heq.symm
  refine ⟨hsound, hkeeps, Numbering.lt_size_of_get? hlink, hc _ hsound hkeeps _ hlink,
    fun j hj => ?_⟩
  obtain ⟨other, hother⟩ := Numbering.get?_of_lt hj
  obtain hold | ⟨-, rfl⟩ := Numbering.get?_of_number hother
  · exact .inl (Numbering.lt_size_of_get? hold)
  · exact .inr (hc _ hsound hkeeps j hother ▸ Nat.le_refl _)

lemma Sound.makes_ending (h : a.Sound) (t : Terminal) : a.Makes (a.number (.ending t)) ⟨[], t⟩ :=
  h.makes_number nofun fun _ _ _ _ => context_of_ending

lemma Sound.makes_frame (h : a.Sound) (htail : tail < a.size) (site : Nat) :
    a.Makes (a.frame site tail) (.frame site (a.context tail)) := by
  refine h.makes_number (fun _ _ heq => ?_) fun b hb hab i hi => ?_
  · cases heq
    exact htail
  · rw [hb.context_of_frame hi, h.context_of_extends hb hab htail]

/-- A call site in front of what was made. -/
lemma Makes.frame {made : Nat × ContextArena} (h : a.Makes made c) (site : Nat) :
    a.Makes (made.2.frame site made.1) (.frame site c) := by
  have hframe := h.sound.makes_frame h.lt site
  rw [h.context] at hframe
  refine ⟨hframe.sound, h.keeps.trans hframe.keeps, hframe.lt, hframe.context, fun j hj => ?_⟩
  obtain hold | hnew := hframe.short j hj
  · rw [h.sound.context_of_extends hframe.sound hframe.keeps hold]
    exact (h.short j hold).imp_right fun hle => Nat.le_succ_of_le hle
  · exact .inr hnew

/-- The bound is applied from frame to frame. -/
lemma Sound.makes_truncate (h : a.Sound) (hi : i < a.size) (m : Nat) :
    a.Makes (a.truncate i m) ((a.context i).truncate m) := by
  induction i, hi using h.induction generalizing m with
  | ending i t hi hlink =>
    have hself := h.makes_self hi
    rw [context_of_ending hlink] at hself ⊢
    rw [truncate, hlink]
    exact hself
  | frame i site tail hi ht hlink ih =>
    rw [h.context_of_frame hlink, truncate, hlink]
    cases m with
    | zero => exact h.makes_limit
    | succ m =>
      rw [Context.truncate_frame]
      exact (ih m).frame site

lemma Sound.makes_push (h : a.Sound) (hi : i < a.size) (site m : Nat) :
    a.Makes (a.push site i m) (.push site (a.context i) m) := by
  cases m with
  | zero => exact h.makes_limit
  | succ m =>
    rw [Context.push, Context.truncate_frame]
    exact (h.makes_truncate hi m).frame site

lemma Sound.makes_ofSites (h : a.Sound) (t : Terminal) (sites : List Nat) :
    a.Makes (ofSites t sites a) ⟨sites, t⟩ := by
  induction sites with
  | nil => exact h.makes_ending t
  | cons site sites ih => exact ih.frame site

/-- Call strings are made one after the other, and no longer ones with them. -/
lemma Sound.ofContexts (h : a.Sound) {cs : List Context} (hcs : ∀ c ∈ cs, c.depth ≤ bound) :
    let (ids, b) := ofContexts cs a
    b.Sound ∧ a.Extends b ∧ (∀ i ∈ ids, i < b.size) ∧ ids.map b.context = cs ∧
      ∀ j < b.size, j < a.size ∨ (b.context j).depth ≤ bound := by
  induction cs with
  | nil => exact ⟨h, .refl a, nofun, rfl, fun _ hj => .inl hj⟩
  | cons c cs ih =>
    obtain ⟨hc, hcs⟩ := List.forall_mem_cons.mp hcs
    obtain ⟨hsound, hkeeps, hids, hviews, hshort⟩ := ih hcs
    have hmade := hsound.makes_ofSites c.terminal c.sites
    have hview := fun i => hsound.context_of_extends (i := i) hmade.sound hmade.keeps
    refine ⟨hmade.sound, hkeeps.trans hmade.keeps,
      List.forall_mem_cons.mpr ⟨hmade.lt, fun i hi => hmade.keeps.lt_size (hids i hi)⟩, ?_,
      fun j hj => ?_⟩
    · refine List.cons_eq_cons.mpr ⟨hmade.context, ?_⟩
      exact (List.map_congr_left fun i hi => hview i (hids i hi)).trans hviews
    · obtain hold | hnew := hmade.short j hj
      · rw [hview j hold]
        exact hshort j hold
      · exact .inr (Nat.le_trans hnew hc)

/-! ## The order -/

lemma refines_of_ending (hj : a.get? j = some (.ending t)) (i : Nat) :
    a.refines i j = (decide (i = j) || t.isOpen) := by
  rw [refines, isOpen, hj, frame?_of_ending hj]
  cases decide (i = j) || t.isOpen with
  | true => rfl
  | false => cases a.frame? i <;> rfl

/-- Comparing numbers, from frame to frame, is comparing call strings. -/
lemma Sound.refines_eq (h : a.Sound) (hi : i < a.size) (hj : j < a.size) :
    a.refines i j = (a.context i).refines (a.context j) := by
  induction j, hj using h.induction generalizing i with
  | ending j t hj hlink =>
    rw [refines_of_ending hlink, Bool.eq_iff_iff, Context.refines_iff, h.context_injective hi hj,
      context_of_ending hlink]
    simp
  | frame j site tail hj ht hlink ih =>
    by_cases hij : i = j
    · rw [hij, Context.refines_refl, refines, decide_eq_true (rfl : j = j)]
      rfl
    have hopen : a.isOpen j = false := by rw [isOpen, hlink]
    rw [refines, decide_eq_false hij, hopen, h.frame? hlink, h.context_of_frame hlink]
    obtain ⟨link, hlink'⟩ := Numbering.get?_of_lt hi
    cases link with
    | ending t =>
      rw [frame?_of_ending hlink', context_of_ending hlink']
      rfl
    | frame site' tail' =>
      rw [h.frame? hlink', h.context_of_frame hlink']
      exact congrArg (decide (site' = site) && ·) (ih (Nat.lt_trans (h.older i site' tail' hlink') hi))

/-- The made context has the given sites and the given end, and the numbers that were there
have the links, the sites and the ends that they had. -/
def Leaves (a : ContextArena) (made : Nat × ContextArena) (sites : List Nat) (terminal : Nat) :
    Prop :=
  made.1 < made.2.size ∧ made.2.sites made.1 = sites ∧ made.2.terminal made.1 = terminal ∧
    ∀ j < a.size, made.2.get? j = a.get? j ∧ made.2.sites j = a.sites j ∧
      made.2.terminal j = a.terminal j

lemma Sound.leaves (h : a.Sound) {made : Nat × ContextArena} (hmade : a.Makes made c)
    (hj : a.get? j = some (.ending c.terminal)) : a.Leaves made c.sites j := by
  refine ⟨hmade.lt, congrArg Context.sites hmade.context, ?_, fun k hk => ?_⟩
  · rw [hmade.sound.eq_terminal_iff hmade.lt (hmade.keeps j _ hj), hmade.context]
  · obtain ⟨link, hlink⟩ := Numbering.get?_of_lt hk
    exact ⟨(hmade.keeps k link hlink).trans hlink.symm,
      congrArg Context.sites (h.context_of_extends hmade.sound hmade.keeps hk),
      h.terminal_of_extends hmade.sound hmade.keeps hk⟩

lemma Sound.get?_cut (h : a.Sound) (hi : i < a.size) (p : Prop) [Decidable p] :
    a.get? (if p then a.terminal i else ContextArena.limit) =
      some (.ending (if p then (a.context i).terminal else .limit)) := by
  split
  · exact h.get?_terminal hi
  · exact h.limit

/-- Calls from two contexts, where the second one is entered after the first. -/
lemma Sound.refines_push (h : a.Sound) (hi : i < a.size) (hj : j < a.size) {m' : Nat}
    (hrefines : (Context.push site (a.context i) m).refines (.push site (a.context j) m') = true) :
    let (pushed, b) := a.push site i m
    let (pushed', b) := b.push site j m'
    b.refines pushed pushed' = true := by
  have hfirst := h.makes_push hi site m
  have hj' : j < (a.push site i m).2.size := hfirst.keeps.lt_size hj
  have hsecond := hfirst.sound.makes_push hj' site m'
  rw [h.context_of_extends hfirst.sound hfirst.keeps hj] at hsecond
  refine (hsecond.sound.refines_eq (hsecond.keeps.lt_size hfirst.lt) hsecond.lt).trans ?_
  rw [hfirst.sound.context_of_extends hsecond.sound hsecond.keeps hfirst.lt, hfirst.context,
    hsecond.context]
  exact hrefines

lemma sound_initial : initial.Sound where
  canonical := (Numbering.number_spec (Numbering.number_spec Numbering.canonical_empty _).1 _).1
  older i site tail h := by
    obtain h | ⟨-, ⟨⟩⟩ := Numbering.get?_of_number h
    obtain h | ⟨-, ⟨⟩⟩ := Numbering.get?_of_number h
    cases h
  bottom := rfl
  limit := rfl

end ValueFlow.ContextArena
