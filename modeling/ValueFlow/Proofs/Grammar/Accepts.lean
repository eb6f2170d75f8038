import ValueFlow.Grammar
import ValueFlow.Proofs.Grammar.Printing

/-!
# What parsers accept

`Parser.Accepts names p signs follow Q` says that `p` takes exactly the given
signs off the tokens ahead and gives a result with the property `Q`, if what
comes behind the signs is a token that `follow` allows. There is one lemma for
each way of combining parsers, so a rule of the grammar is shown to accept its
signs by going through its text from left to right.

The tokens ahead hold no arrow, so no rule takes parentheses for the parameters
of a function, and `in` is an operator.
-/

namespace ValueFlow

variable {names : Names} {s : ParserState} {ts rest : List Token}

structure ParserState.Faces (s : ParserState) (names : Names) (rest : List Token) : Prop where
  table : s.names = names
  inner : s.noIn = false
  ahead : s.rest = rest
  plain : ∀ t ∈ rest, t.value ≠ .punct .arrow

def ParserState.behind (s : ParserState) (ts rest : List Token) : ParserState :=
  { s with before := ts.reverse ++ s.before, rest }

lemma ParserState.Faces.behind (h : s.Faces names (ts ++ rest)) :
    (s.behind ts rest).Faces names rest :=
  ⟨h.table, h.inner, rfl, fun t ht => h.plain t (List.mem_append_right ts ht)⟩

lemma ParserState.behind_behind (s : ParserState) (ts us rest more : List Token) :
    (s.behind ts rest).behind us more = s.behind (ts ++ us) more := by
  simp [behind]

lemma ParserState.Faces.behind_nil (h : s.Faces names rest) : s.behind [] rest = s := by
  rw [← h.ahead]
  rfl

/-- The values of the next token: those of the first sign, or those allowed
behind. -/
def Sign.Next (names : Names) (signs : List Sign) (follow : TokenValue → Prop) :
    TokenValue → Prop :=
  match signs with
  | [] => follow
  | s :: _ => s.Denotes names

lemma Sign.Spell.split {signs more : List Sign} (h : Spell names (signs ++ more) ts) :
    ∃ us vs, Spell names signs us ∧ Spell names more vs ∧ ts = us ++ vs := by
  induction signs generalizing ts with
  | nil => exact ⟨[], ts, .nil, h, rfl⟩
  | cons s signs ih =>
    cases h with
    | cons hs h =>
      obtain ⟨us, vs, hus, hvs, rfl⟩ := ih h
      exact ⟨_ :: us, vs, .cons hs hus, hvs, rfl⟩

namespace Parser

open Sign

variable {α β : Type} {names : Names} {signs more : List Sign} {follow : TokenValue → Prop}
  {p : Parser α} {f : α → Parser β} {Q : β → Prop} {R : α → Prop} {ts : List Token}
  {s : ParserState} {rest : List Token}

def Accepts (names : Names) (p : Parser α) (signs : List Sign) (follow : TokenValue → Prop)
    (R : α → Prop) : Prop :=
  ∀ s ts rest, s.Faces names (ts ++ rest) → Spell names signs ts →
    follow (rest.headD s.finish).value → ∃ a, p s = .ok a (s.behind ts rest) ∧ R a

lemma bind_eq {t : ParserState} {a : α} (h : p s = .ok a t) : (p >>= f) s = f a t := by
  show EStateM.bind p f s = f a t
  rw [EStateM.bind, h]

lemma next_of_spell (hspell : Spell names signs ts) (hfollow : follow (rest.headD s.finish).value) :
    Next names signs follow ((ts ++ rest).headD s.finish).value := by
  cases hspell with
  | nil => exact hfollow
  | cons hsign _ => exact hsign

/-! ## Combining parsers -/

lemma accepts_pure {a : α} (h : R a) : Accepts names (pure a) [] follow R := by
  intro s ts rest hs hspell _
  cases hspell
  exact ⟨a, congrArg (EStateM.Result.ok a) hs.behind_nil.symm, h⟩

/-- One parser after the other: what the first one has behind it is what the
second one starts with. -/
lemma Accepts.bind (hp : Accepts names p signs (Next names more follow) R)
    (hf : ∀ a, R a → Accepts names (f a) more follow Q) :
    Accepts names (p >>= f) (signs ++ more) follow Q := by
  intro s ts rest hs hspell hfollow
  obtain ⟨us, vs, hus, hvs, rfl⟩ := hspell.split
  rw [List.append_assoc] at hs
  obtain ⟨a, ha, hR⟩ := hp s us (vs ++ rest) hs hus (next_of_spell hvs hfollow)
  obtain ⟨b, hb, hQ⟩ := hf a hR (s.behind us (vs ++ rest)) vs rest hs.behind hvs hfollow
  rw [ParserState.behind_behind] at hb
  exact ⟨b, (bind_eq ha).trans hb, hQ⟩

lemma Accepts.after (hp : Accepts names p [] (Next names signs follow) R)
    (hf : ∀ a, R a → Accepts names (f a) signs follow Q) :
    Accepts names (p >>= f) signs follow Q := hp.bind hf

/-- A parser that takes nothing goes last. -/
lemma Accepts.last (hp : Accepts names p signs follow R)
    (hf : ∀ a, R a → Accepts names (f a) [] follow Q) :
    Accepts names (p >>= f) signs follow Q := by
  rw [← List.append_nil signs]
  exact Accepts.bind hp hf

lemma Accepts.mono {follow' : TokenValue → Prop} (h : Accepts names p signs follow R)
    (hfollow : ∀ v, follow' v → follow v) : Accepts names p signs follow' R :=
  fun s ts rest hs hspell hv => h s ts rest hs hspell (hfollow _ hv)

lemma Accepts.imp {S : α → Prop} (h : Accepts names p signs follow R)
    (hRS : ∀ a, R a → S a) : Accepts names p signs follow S := by
  intro s ts rest hs hspell hfollow
  obtain ⟨a, ha, hR⟩ := h s ts rest hs hspell hfollow
  exact ⟨a, ha, hRS a hR⟩

lemma Accepts.map {g : α → β} (h : Accepts names p signs follow fun a => Q (g a)) :
    Accepts names (g <$> p) signs follow Q := by
  rw [map_eq_pure_bind]
  exact h.last fun a ha => accepts_pure ha

/-! ## Looking ahead -/

lemma accepts_peek : Accepts names peek [] follow fun t => follow t.value := by
  intro s ts rest hs hspell hfollow
  cases hspell
  refine ⟨rest.headD s.finish, ?_, hfollow⟩
  rw [List.nil_append] at hs
  rw [hs.behind_nil, peek, hs.ahead]

lemma accepts_nextIs (v : TokenValue) :
    Accepts names (nextIs v) [] follow fun b => ∃ w, follow w ∧ b = decide (w = v) :=
  accepts_peek.after fun t ht => accepts_pure ⟨t.value, ht, rfl⟩

lemma accepts_get : Accepts names get [] follow fun s => s.noIn = false := by
  intro s ts rest hs hspell _
  cases hspell
  exact ⟨s, congrArg (EStateM.Result.ok s) hs.behind_nil.symm, hs.inner⟩

/-- There are more steps to make than signs to take. -/
lemma Accepts.rounds {f : Nat → Parser β}
    (hf : ∀ n, signs.length < n → Accepts names (f n) signs follow Q) :
    Accepts names (rounds >>= f) signs follow Q := by
  intro s ts rest hs hspell hfollow
  refine hf (s.rest.length + 1) ?_ s ts rest hs hspell hfollow
  rw [hs.ahead, List.length_append, hspell.length_eq]
  omega

/-- What remains behind brackets are tokens that were there before. -/
lemma mem_of_afterBrackets {depth : Nat} (h : Grammar.afterBrackets depth ts = some rest) :
    ∀ t ∈ rest, t ∈ ts := by
  induction ts generalizing depth with
  | nil => cases h
  | cons u ts ih =>
    intro t ht
    unfold Grammar.afterBrackets at h
    have hlater : ∀ {depth}, Grammar.afterBrackets depth ts = some rest → t ∈ u :: ts :=
      fun h => List.mem_cons_of_mem u (ih h t ht)
    have hclose : (if depth ≤ 1 then some ts else Grammar.afterBrackets (depth - 1) ts) =
        some rest → t ∈ u :: ts := by
      intro h
      split at h
      · cases h
        exact List.mem_cons_of_mem u ht
      · exact hlater h
    split at h
    · exact hlater h
    · exact hlater h
    · exact hlater h
    · exact hclose h
    · exact hclose h
    · exact hclose h
    · exact hlater h

lemma startsArrow_of_plain (h : ∀ t ∈ ts, t.value ≠ .punct .arrow) :
    Grammar.startsArrow ts = false := by
  have hany : ∀ rest : List Token, (∀ t ∈ rest, t ∈ ts) →
      rest.head?.any (·.value = .punct .arrow) = false := by
    intro rest hrest
    cases rest with
    | nil => rfl
    | cons t rest => exact decide_eq_false (h t (hrest t List.mem_cons_self))
  unfold Grammar.startsArrow
  split
  · rfl
  · split
    · exact hany _ fun t ht => List.mem_cons_of_mem _ ht
    · split
      · next hrest => exact hany _ (mem_of_afterBrackets hrest)
      · rfl
    · rfl

lemma accepts_arrowAhead : Accepts names Grammar.arrowAhead [] follow (· = none) := by
  intro s ts rest hs hspell _
  cases hspell
  have hplain : ∀ t ∈ s.rest, t.value ≠ .punct .arrow := hs.ahead ▸ hs.plain
  have hrest : ∀ t ∈ s.rest.drop 1, t.value ≠ .punct .arrow := fun t ht =>
    hplain t (List.mem_of_mem_drop ht)
  refine ⟨none, ?_, rfl⟩
  rw [Grammar.arrowAhead, startsArrow_of_plain hplain, startsArrow_of_plain hrest, Bool.and_false]
  exact congrArg (EStateM.Result.ok none) hs.behind_nil.symm

/-! ## Taking tokens -/

lemma accepts_advance {sign : Sign} :
    Accepts names advance [sign] follow fun t => sign.Denotes names t.value := by
  intro s ts rest hs hspell _
  cases hspell with
  | cons hsign hnil =>
    cases hnil
    refine ⟨_, ?_, hsign⟩
    rw [advance, hs.ahead]
    rfl

lemma accepts_takeMark (mark : Punctuator) :
    Accepts names (takeMark? mark) [.mark mark] follow fun o => o.isSome = true := by
  refine (accepts_nextIs _).after fun b hb => ?_
  obtain ⟨w, rfl, rfl⟩ := hb
  rw [decide_eq_true rfl, if_pos rfl]
  exact accepts_advance.bind fun t _ => accepts_pure rfl

lemma accepts_noMark {mark : Punctuator} (h : ¬ follow (.punct mark)) :
    Accepts names (takeMark? mark) [] follow (· = none) := by
  refine (accepts_nextIs _).after fun b hb => ?_
  obtain ⟨w, hw, rfl⟩ := hb
  have hne : w ≠ .punct mark := fun heq => h (heq ▸ hw)
  rw [decide_eq_false hne, if_neg (by decide)]
  exact accepts_pure rfl

lemma accepts_mark (mark : Punctuator) :
    Accepts names (Parser.mark mark) [.mark mark] follow fun _ => True := by
  refine (accepts_takeMark mark).bind fun o ho => ?_
  obtain ⟨t, rfl⟩ := Option.isSome_iff_exists.mp ho
  exact accepts_pure trivial

lemma accepts_propertyName (x : Identifier) :
    Accepts names propertyName [.name x] follow fun s =>
      names.get? s = some (String.ofList x.text) := by
  refine accepts_peek.after fun t ht => ?_
  obtain ⟨s, hv, hs⟩ := ht
  rw [hv]
  exact accepts_advance.bind fun _ _ => accepts_pure hs

/-! ## Constructs -/

lemma accepts_make {form : Form Tree} {start : Token} {R : Tree → Prop}
    (h : ∀ span, R (.node span form)) : Accepts names (make form start) [] follow R := by
  intro s ts rest hs hspell _
  cases hspell
  exact ⟨_, congrArg (EStateM.Result.ok _) hs.behind_nil.symm, h _⟩

/-- Where `in` is an operator it stays one. -/
lemma Accepts.withNoIn (h : Accepts names p signs follow R) :
    Accepts names (withNoIn false p) signs follow R := by
  intro s ts rest hs hspell hfollow
  obtain ⟨a, ha, hR⟩ := h s ts rest hs hspell hfollow
  have hsame : { s with noIn := false } = s := by rw [← hs.inner]
  refine ⟨a, ?_, hR⟩
  rw [← hsame] at ha
  have hopen : Parser.withNoIn false p s = (p >>= fun a =>
      (modify fun t => { t with noIn := s.noIn }) >>= fun _ => pure a)
      { s with noIn := false } := rfl
  rw [hopen, bind_eq ha]
  rfl

end Parser

end ValueFlow
