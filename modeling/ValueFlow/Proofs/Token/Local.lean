import Mathlib.Data.List.Basic
import Mathlib.Data.List.Infix
import Mathlib.Data.List.TakeWhile
import ValueFlow.Token.Scan

/-!
# Lexemes are local

How far a lexeme goes is decided by its own characters and at most by the one
behind it. So a lexeme stays what it is when other text follows, as long as
that text does not start with a character the lexeme could go on with.
-/

namespace ValueFlow.Scan

variable {c : Char} {r cs w : List Char} {p stop : Char → Bool} {b : Body} {f : List Char → Nat}
  {quote : Char} {rest : List Char}

/-- The text `r` is at its end or starts with a character that passes the test. -/
def Starts (test : Char → Bool) (r : List Char) : Prop := ∀ c ∈ r.head?, test c = true

lemma starts_nil (test : Char → Bool) : Starts test [] := fun _ h => nomatch h

@[simp] lemma starts_cons {test : Char → Bool} : Starts test (c :: r) ↔ test c = true := by
  simp [Starts]

lemma Starts.mono {q : Char → Bool} (h : Starts p r) (hpq : ∀ c, p c = true → q c = true) :
    Starts q r :=
  fun c hc => hpq c (h c hc)

/-! ## Local measures -/

/-- A way to measure how much of a text is ahead that depends on that much of
the text only, and not on what is behind it if that starts with a `stop`. -/
structure Local (stop : Char → Bool) (f : List Char → Nat) : Prop where
  le     : ∀ cs, f cs ≤ cs.length
  take   : ∀ cs m, f cs ≤ m → f (cs.take m) = f cs
  append : ∀ cs r, Starts stop r → f (cs ++ r) = f cs

lemma takeWhile_append_of_starts (hr : Starts (fun c => !p c) r) (cs : List Char) :
    (cs ++ r).takeWhile p = cs.takeWhile p := by
  induction cs with
  | nil =>
    cases r with
    | nil => rfl
    | cons c r =>
      have hc : p c = false := by simpa using hr
      simp [hc]
  | cons c cs ih => simp [List.takeWhile_cons, ih]

lemma takeWhile_take_of_le {m : Nat} (h : (cs.takeWhile p).length ≤ m) :
    (cs.take m).takeWhile p = cs.takeWhile p := by
  induction cs generalizing m with
  | nil => simp
  | cons c cs ih =>
    by_cases hc : p c = true
    · simp only [List.takeWhile_cons, hc, if_true, List.length_cons] at h ⊢
      obtain ⟨m, rfl⟩ : ∃ k, m = k + 1 := ⟨m - 1, by omega⟩
      simp [hc, ih (m := m) (by omega)]
    · cases m <;> simp [hc]

lemma local_takeWhile (h : ∀ c, stop c = true → p c = false) :
    Local stop fun cs => (cs.takeWhile p).length where
  le cs := (List.takeWhile_prefix p).length_le
  take cs m hm := by rw [takeWhile_take_of_le hm]
  append cs r hr := by rw [takeWhile_append_of_starts (hr.mono fun c hc => by simp [h c hc])]

/-- One measure after the other. -/
lemma Local.andThen {g : List Char → Nat} (hf : Local stop f) (hg : Local stop g) :
    Local stop fun cs => f cs + g (cs.drop (f cs)) where
  le cs := by
    have hle := hg.le (cs.drop (f cs))
    have hf' := hf.le cs
    rw [List.length_drop] at hle
    omega
  take cs m hm := by rw [hf.take cs m (by omega), List.drop_take, hg.take _ _ (by omega)]
  append cs r hr := by
    rw [hf.append cs r hr, List.drop_append_of_le_length (hf.le cs), hg.append _ _ hr]

/-- One character that passes a test. -/
lemma local_one (h : ∀ c, stop c = true → p c = false) :
    Local stop fun cs => if cs.head?.any p then 1 else 0 where
  le cs := by
    cases cs with
    | nil => simp
    | cons c cs => by_cases hc : p c = true <;> simp [hc]
  take cs m hm := by
    cases cs with
    | nil => simp
    | cons c cs =>
      by_cases hc : p c = true
      · obtain ⟨m, rfl⟩ : ∃ k, m = k + 1 := ⟨m - 1, by simp [hc] at hm; omega⟩
        simp [hc]
      · cases m <;> simp [hc]
  append cs r hr := by
    cases cs with
    | cons c cs => rfl
    | nil =>
      cases r with
      | nil => rfl
      | cons c r => simp [h c (starts_cons.mp hr)]

/-- A measure that is zero unless the text starts with a certain character. -/
lemma Local.when (hf : Local stop f) (h : ∀ c, stop c = true → p c = false) :
    Local stop fun cs => if cs.head?.any p then f cs else 0 where
  le cs := by
    have := hf.le cs
    split <;> omega
  take cs m hm := by
    have htake := hf.take cs m
    cases cs with
    | nil => simp
    | cons c cs =>
      by_cases hc : p c = true
      · simp only [List.head?_cons, Option.any_some, hc, if_true] at hm ⊢
        cases m with
        | zero => simp [Nat.le_zero.mp hm]
        | succ m => simpa [hc] using htake hm
      · cases m <;> simp [hc]
  append cs r hr := by
    cases cs with
    | cons c cs =>
      rw [hf.append _ r hr]
      rfl
    | nil =>
      cases r with
      | nil => rfl
      | cons c r => simp [h c (starts_cons.mp hr)]

/-! ## Numbers -/

def endsNumber (c : Char) : Bool :=
  !(isHexDigit c || isBaseMark c || isExponentMark c || isSign c || c.isAlpha || c = '_' || c = '.')

/-- No number goes on with such a character. -/
structure EndsNumber (c : Char) : Prop where
  hex      : isHexDigit c = false
  base     : isBaseMark c = false
  exponent : isExponentMark c = false
  sign     : isSign c = false
  alpha    : c.isAlpha = false
  score    : c ≠ '_'
  point    : c ≠ '.'

lemma EndsNumber.of_endsNumber (h : endsNumber c = true) : EndsNumber c := by
  simp only [endsNumber, Bool.not_eq_true', Bool.or_eq_false_iff, decide_eq_false_iff_not] at h
  obtain ⟨⟨⟨⟨⟨⟨hex, base⟩, exponent⟩, sign⟩, alpha⟩, score⟩, point⟩ := h
  exact ⟨hex, base, exponent, sign, alpha, score, point⟩

lemma EndsNumber.digit (h : EndsNumber c) : c.isDigit = false := by
  have hex := h.hex
  simp only [isHexDigit, Bool.or_eq_false_iff] at hex
  exact hex.1.1

lemma EndsNumber.ne_n (h : EndsNumber c) : c ≠ 'n' := by
  rintro rfl
  exact absurd h.alpha (by decide)

lemma local_exponentLength : Local endsNumber exponentLength := by
  have hmark := local_one fun c h => (EndsNumber.of_endsNumber (c := c) h).exponent
  have hsign := local_one fun c h => (EndsNumber.of_endsNumber (c := c) h).sign
  have hdigits : Local endsNumber fun cs => (cs.takeWhile Char.isDigit).length :=
    local_takeWhile fun _ h => (EndsNumber.of_endsNumber h).digit
  have hall := (hmark.andThen (hsign.andThen hdigits)).when fun c h =>
    (EndsNumber.of_endsNumber h).exponent
  convert hall using 2 with cs
  fun_cases exponentLength cs with
  | case1 e he s digits hs =>
    simp [he, hs]
    omega
  | case2 e he s digits hs => simp [he, hs]
  | case3 e he | case4 e rest he => simp [he]
  | case5 => rfl

lemma local_decimalLength : Local endsNumber plainNumberLength.decimalLength :=
  (local_takeWhile fun c h => by
    obtain h := EndsNumber.of_endsNumber h
    simp [h.digit, h.score, h.point]).andThen local_exponentLength

/-- Whether a number in another base is ahead. -/
def isBased : List Char → Bool
  | '0' :: mark :: _ => isBaseMark mark
  | _ => false

lemma plainNumberLength_eq (cs : List Char) :
    plainNumberLength cs = if isBased cs then
      2 + ((cs.drop 2).takeWhile fun c => isHexDigit c || c = '_').length
      else plainNumberLength.decimalLength cs := by
  fun_cases plainNumberLength cs <;> simp_all [isBased]

lemma isBased_iff :
    isBased cs = true ↔ ∃ mark rest, cs = '0' :: mark :: rest ∧ isBaseMark mark = true := by
  refine ⟨fun h => ?_, ?_⟩
  · unfold isBased at h
    split at h
    · exact ⟨_, _, rfl, h⟩
    · cases h
  · rintro ⟨mark, rest, rfl, h⟩
    exact h

lemma local_plainNumberLength : Local endsNumber plainNumberLength := by
  have hhex : Local endsNumber fun cs => (cs.takeWhile fun c => isHexDigit c || c = '_').length :=
    local_takeWhile fun c h => by
      obtain h := EndsNumber.of_endsNumber h
      simp [h.hex, h.score]
  refine ⟨fun cs => ?_, fun cs m hm => ?_, fun cs r hr => ?_⟩
  · rw [plainNumberLength_eq]
    split
    · next h =>
      obtain ⟨mark, rest, rfl, -⟩ := isBased_iff.mp h
      have hle := hhex.le rest
      simp only [List.drop_succ_cons, List.drop_zero, List.length_cons]
      omega
    · exact local_decimalLength.le cs
  · rw [plainNumberLength_eq cs] at hm
    rw [plainNumberLength_eq, plainNumberLength_eq cs]
    by_cases h : isBased cs = true
    · obtain ⟨mark, rest, rfl, hmark⟩ := isBased_iff.mp h
      simp only [h, if_true, List.drop_succ_cons, List.drop_zero] at hm ⊢
      obtain ⟨m, rfl⟩ : ∃ k, m = k + 2 := ⟨m - 2, by omega⟩
      simp only [List.take_succ_cons, isBased, hmark, if_true, List.drop_succ_cons, List.drop_zero]
      rw [hhex.take rest m (by omega)]
    · have hcut : ¬ isBased (cs.take m) = true := by
        rw [isBased_iff] at h ⊢
        rintro ⟨mark, rest, htake, hmark⟩
        have heq := List.take_append_drop m cs
        rw [htake] at heq
        exact h ⟨mark, rest ++ cs.drop m, heq.symm, hmark⟩
      rw [if_neg h] at hm ⊢
      rw [if_neg hcut, local_decimalLength.take cs m hm]
  · rw [plainNumberLength_eq, plainNumberLength_eq cs]
    by_cases h : isBased cs = true
    · obtain ⟨mark, rest, rfl, hmark⟩ := isBased_iff.mp h
      simp only [List.cons_append, isBased, hmark, if_true, List.drop_succ_cons, List.drop_zero]
      rw [hhex.append rest r hr]
    · have hlonger : ¬ isBased (cs ++ r) = true := by
        rw [isBased_iff] at h ⊢
        rintro ⟨mark, rest, heq, hmark⟩
        match cs with
        | [] =>
          subst heq
          exact absurd (starts_cons.mp hr) (by decide)
        | [c] =>
          obtain ⟨rfl, rfl⟩ := List.cons.inj heq
          have hstop := EndsNumber.of_endsNumber (starts_cons.mp hr)
          simp [hstop.base] at hmark
        | c :: d :: cs =>
          simp only [List.cons_append, List.cons.injEq] at heq
          exact h ⟨mark, cs, by rw [heq.1, heq.2.1], hmark⟩
      rw [if_neg h, if_neg hlonger, local_decimalLength.append cs r hr]

/-- How much of a number is ahead depends on the number only. -/
lemma local_numberLength : Local endsNumber numberLength := by
  have hbig : Local endsNumber fun cs => if cs.head?.any (· = 'n') then 1 else 0 :=
    local_one fun c h => by simp [(EndsNumber.of_endsNumber h).ne_n]
  convert local_plainNumberLength.andThen hbig using 2 with cs
  unfold numberLength
  dsimp only
  split
  · next h => simp [h]
  · next h =>
    cases hd : cs.drop (plainNumberLength cs) with
    | nil => simp
    | cons c rest =>
      have hc : c ≠ 'n' := fun hc => h rest (by rw [hd, hc])
      simp [hc]

/-! ## Quoted texts and comments -/

structure Body.Of (b : Body) (w : List Char) : Prop where
  length    : b.length = w.length
  lineFeeds : b.lineFeeds = w.count '\n'

lemma lineFeedsOf_eq (c : Char) : lineFeedsOf c = [c].count '\n' := by
  unfold lineFeedsOf
  by_cases h : c = '\n' <;> simp [h]

lemma Body.Of.after (h : b.Of w) (content u : List Char) {n f : Nat} (hn : n = u.length)
    (hf : f = u.count '\n') : (b.after content n f).Of (u ++ w) where
  length := by simp [Body.after, h.length, hn]
  lineFeeds := by simp [Body.after, h.lineFeeds, hf]

lemma stringBody_escape (quote c : Char) (rest : List Char) :
    stringBody quote ('\\' :: c :: rest) =
      (stringBody quote rest).map (·.after (unescape c) 2 (lineFeedsOf c)) :=
  rfl

lemma stringBody_plain (hfeed : c ≠ '\n') (hslash : c ≠ '\\') (rest : List Char) :
    stringBody quote (c :: rest) =
      if c = quote then some ⟨[], 1, 0, false⟩
      else (stringBody quote rest).map (·.after [c] 1 0) := by
  rw [stringBody]
  · simp [hslash]
  · exact hfeed
  · exact fun _ _ h => absurd h hslash

/-- A string is read off its own characters. -/
lemma stringBody_spec (h : stringBody quote cs = some b) :
    ∃ w r, cs = w ++ r ∧ b.Of w ∧ ∀ r', stringBody quote (w ++ r') = some b := by
  fun_induction stringBody quote cs generalizing b with
  | case1 | case2 => cases h
  | case3 c rest ih =>
    obtain ⟨b, hb, rfl⟩ := Option.map_eq_some_iff.mp h
    obtain ⟨w, r, rfl, hof, hall⟩ := ih hb
    refine ⟨'\\' :: c :: w, r, rfl, hof.after _ ['\\', c] rfl ?_, fun r' => ?_⟩
    · rw [lineFeedsOf_eq]
      simp
    · rw [List.cons_append, List.cons_append, stringBody_escape, hall]
      rfl
  | case4 => cases h
  | case5 rest hfeed _ hslash =>
    cases h
    refine ⟨[quote], rest, rfl, ⟨rfl, ?_⟩, fun r' => ?_⟩
    · simp [show quote ≠ '\n' from hfeed]
    · rw [List.singleton_append, stringBody_plain hfeed hslash, if_pos rfl]
  | case6 c rest hfeed _ hslash hquote ih =>
    obtain ⟨b, hb, rfl⟩ := Option.map_eq_some_iff.mp h
    obtain ⟨w, r, rfl, hof, hall⟩ := ih hb
    refine ⟨c :: w, r, rfl, hof.after _ [c] rfl ?_, fun r' => ?_⟩
    · simp [show c ≠ '\n' from hfeed]
    · rw [List.cons_append, stringBody_plain hfeed hslash, if_neg hquote, hall]
      rfl

lemma templateBody_escape (c : Char) (rest : List Char) :
    templateBody ('\\' :: c :: rest) =
      (templateBody rest).map (·.after (unescape c) 2 (lineFeedsOf c)) :=
  rfl

lemma templateBody_plain (hslash : c ≠ '\\') (hopen : c = '$' → rest.head? ≠ some '\x7b') :
    templateBody (c :: rest) =
      if c = '\x60' then some ⟨[], 1, 0, false⟩
      else (templateBody rest).map (·.after [c] 1 (lineFeedsOf c)) := by
  rw [templateBody]
  · simp [hslash]
  · exact fun _ _ h => absurd h hslash
  · rintro rest rfl rfl
    exact hopen rfl rfl

/-- A part of a template is read off its own characters. -/
lemma templateBody_spec (h : templateBody cs = some b) :
    ∃ w r, cs = w ++ r ∧ w ≠ [] ∧ b.Of w ∧ ∀ r', templateBody (w ++ r') = some b := by
  fun_induction templateBody cs generalizing b with
  | case1 => cases h
  | case2 c rest ih =>
    obtain ⟨b, hb, rfl⟩ := Option.map_eq_some_iff.mp h
    obtain ⟨w, r, rfl, -, hof, hall⟩ := ih hb
    refine ⟨'\\' :: c :: w, r, rfl, by simp, hof.after _ ['\\', c] rfl ?_, fun r' => ?_⟩
    · rw [lineFeedsOf_eq]
      simp
    · rw [List.cons_append, List.cons_append, templateBody_escape, hall]
      rfl
  | case3 rest =>
    cases h
    exact ⟨['$', '\x7b'], rest, rfl, by simp, ⟨rfl, rfl⟩, fun _ => rfl⟩
  | case4 => cases h
  | case5 rest =>
    cases h
    exact ⟨['\x60'], rest, rfl, by simp, ⟨rfl, rfl⟩, fun _ => rfl⟩
  | case6 c rest _ hopen hslash hquote ih =>
    obtain ⟨b, hb, rfl⟩ := Option.map_eq_some_iff.mp h
    obtain ⟨w, r, rfl, hne, hof, hall⟩ := ih hb
    refine ⟨c :: w, r, rfl, by simp, hof.after _ [c] rfl (lineFeedsOf_eq c), fun r' => ?_⟩
    obtain ⟨d, w, rfl⟩ := List.exists_cons_of_ne_nil hne
    rw [List.cons_append, templateBody_plain hslash, if_neg hquote, hall]
    · rfl
    · rintro hc hd
      obtain rfl : d = '\x7b' := Option.some.inj hd
      exact hopen _ hc rfl

lemma blockComment_plain (hclose : c = '*' → rest.head? ≠ some '/') :
    blockComment (c :: rest) =
      (blockComment rest).map fun (n, feeds) => (n + 1, feeds + lineFeedsOf c) := by
  rw [blockComment]
  rintro rest rfl rfl
  exact hclose rfl rfl

/-- A comment goes up to the first mark that closes it. -/
lemma exists_of_blockComment {n feeds : Nat} (h : blockComment cs = some (n, feeds)) :
    ∃ w r, cs = w ++ '*' :: '/' :: r ∧ ¬ ['*', '/'] <:+: w ∧ n = w.length + 2 ∧
      feeds = w.count '\n' := by
  fun_induction blockComment cs generalizing n feeds with
  | case1 => cases h
  | case2 rest =>
    cases h
    exact ⟨[], rest, rfl, by simp, rfl, rfl⟩
  | case3 c rest hclose ih =>
    obtain ⟨⟨m, feeds⟩, hrest, heq⟩ := Option.map_eq_some_iff.mp h
    cases heq
    obtain ⟨w, r, rfl, hw, rfl, rfl⟩ := ih hrest
    refine ⟨c :: w, r, rfl, ?_, rfl, ?_⟩
    · rw [List.infix_cons_iff]
      rintro (hfront | hwithin)
      · obtain ⟨rfl, hslash⟩ := List.cons_prefix_cons.mp hfront
        obtain ⟨u, rfl⟩ := hslash
        exact hclose _ rfl rfl
      · exact hw hwithin
    · rw [lineFeedsOf_eq, Nat.add_comm, ← List.count_append]
      rfl

lemma blockComment_of_not_infix (h : ¬ ['*', '/'] <:+: w) (r : List Char) :
    blockComment (w ++ '*' :: '/' :: r) = some (w.length + 2, w.count '\n') := by
  induction w with
  | nil => rfl
  | cons c w ih =>
    rw [List.infix_cons_iff, not_or] at h
    rw [List.cons_append, blockComment_plain, ih h.2]
    · have hcount : (c :: w).count '\n' = w.count '\n' + lineFeedsOf c := by
        rw [lineFeedsOf_eq, Nat.add_comm, ← List.count_append]
        rfl
      simp [hcount]
    · rintro rfl hhead
      cases w with
      | nil => cases hhead
      | cons d w =>
        obtain rfl : d = '/' := Option.some.inj hhead
        exact h.1 ⟨w, rfl⟩

/-! ## Punctuators -/

/-- Whether a punctuator can go on with a character. -/
def isJoint (c : Char) : Bool := "=>.*<&|?+-".toList.contains c

lemma isJoint_of_mem_tail {p : Punctuator} (h : c ∈ p.text.toList.tail) : isJoint c = true := by
  have hall : p.text.toList.tail.all isJoint = true := by cases p <;> rfl
  exact List.all_eq_true.mp hall c h

lemma find?_prefix_text (p : Punctuator) :
    Punctuator.all.find? (fun q => q.text.toList.isPrefixOf p.text.toList) = some p := by
  cases p <;> rfl

lemma text_ne_nil (p : Punctuator) : p.text.toList ≠ [] := by cases p <;> exact List.cons_ne_nil _ _

/-- A beginning of `a ++ r` that does not go on with what `r` starts with is
one of `a`. -/
lemma prefix_of_prefix_append {a : List Char} (ha : a ≠ []) (hr : ∀ c ∈ r.head?, c ∉ w.tail)
    (h : w <+: a ++ r) : w <+: a := by
  rcases le_total w.length a.length with hle | hle
  · exact List.prefix_of_prefix_length_le h (List.prefix_append a r) hle
  · obtain ⟨u, rfl⟩ := List.prefix_of_prefix_length_le (List.prefix_append a r) h hle
    cases u with
    | nil => simp
    | cons c u =>
      have hc : c ∈ r.head? := by
        obtain ⟨v, hv⟩ := h
        rw [List.append_assoc, List.append_cancel_left_eq] at hv
        simp [← hv]
      refine absurd ?_ (hr c hc)
      obtain ⟨d, a, rfl⟩ := List.exists_cons_of_ne_nil ha
      simp

/-- Before a character that is no joint, a punctuator is read as a whole. -/
lemma punctuator?_text_append (p : Punctuator) (hjoint : Starts (fun c => !isJoint c) r)
    (hdigit : Starts (fun c => !c.isDigit) r) : punctuator? (p.text.toList ++ r) = some p := by
  have hfind : Punctuator.all.find? (fun q => q.text.toList.isPrefixOf (p.text.toList ++ r)) =
      some p := by
    rw [← find?_prefix_text p]
    congr 1
    funext q
    rw [Bool.eq_iff_iff, List.isPrefixOf_iff_prefix, List.isPrefixOf_iff_prefix]
    refine ⟨prefix_of_prefix_append (text_ne_nil p) fun c hc hmem => ?_,
      fun h => h.trans (List.prefix_append _ _)⟩
    simpa [isJoint_of_mem_tail hmem] using hjoint c hc
  have hnumber : p = .questionDot → ¬ (p.text.toList ++ r)[2]?.any Char.isDigit = true := by
    rintro rfl
    cases r with
    | nil => decide
    | cons c r => simpa [Punctuator.text] using hdigit
  simp only [punctuator?, hfind, Option.bind_eq_bind, Option.bind_some]
  rw [if_neg fun h => hnumber h.1 h.2]
  rfl

lemma prefix_of_punctuator? {p : Punctuator} (h : punctuator? cs = some p) :
    p.text.toList <+: cs := by
  obtain ⟨q, hq, h⟩ := Option.bind_eq_some_iff.mp h
  have hfound := List.find?_some hq
  have hfront : q.text.toList <+: cs := List.isPrefixOf_iff_prefix.mp hfound
  split at h
  · next hopt =>
    cases h
    rw [hopt.1] at hfront
    exact List.IsPrefix.trans (by decide) hfront
  · cases h
    exact hfront

end ValueFlow.Scan
