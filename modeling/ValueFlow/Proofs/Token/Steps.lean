import ValueFlow.Proofs.Token.Local

/-!
# The steps of the scanner

One step of the scanner skips a text or reads it as a lexeme. Two relations say
which texts these are, without the state of the scanner.

The scanner takes exactly these steps: it makes a step wherever one of the
relations holds (`Scanner.next_of_skips`, `Scanner.next_of_reads`), and where it
makes one, one of them holds (`Scanner.exists_piece`).
-/

namespace ValueFlow

/-- What a token says, with texts in place of symbols. -/
inductive Lexeme
  | identifier (name : List Char)
  | number (text : List Char)
  | string (content : List Char)
  | template (part : TemplatePart) (content : List Char)
  | keyword (word : Keyword)
  | punct (mark : Punctuator)
  deriving DecidableEq, Repr

namespace Lexeme

def enter (names : Names) : Lexeme → TokenValue × Names
  | identifier name => (names.number (String.ofList name)).map .identifier id
  | number text => (names.number (String.ofList text)).map .number id
  | string content => (names.number (String.ofList content)).map .string id
  | template part content => (names.number (String.ofList content)).map (.template part) id
  | keyword word => (.keyword word, names)
  | punct mark => (.punct mark, names)

def ofWord (text : List Char) : Lexeme :=
  match Keyword.ofText? (String.ofList text) with
  | some word => .keyword word
  | none => .identifier text

def ofBody (opening : Bool) (b : Scan.Body) : Lexeme :=
  .template (match opening, b.opensSubstitution with
    | true, false => .whole
    | true, true => .head
    | false, true => .middle
    | false, false => .tail) b.content

end Lexeme

namespace Scan

variable {c : Char} {test : Char → Bool}

lemma ne_of_test {d : Char} (hc : test c = true) (hd : test d = false) :
    c ≠ d := fun h => by simp [h, hd] at hc

lemma count_of_test {w : List Char} {d : Char} (hw : ∀ c ∈ w, test c = true) (hd : test d = false) :
    w.count d = 0 :=
  List.count_eq_zero.mpr fun h => ne_of_test (hw d h) hd rfl

lemma isNamePart_of_isNameStart (h : isNameStart c = true) : isNamePart c = true := by
  simp only [isNameStart, isNamePart, Char.isAlphanum, Bool.or_eq_true] at h ⊢
  rcases h with (h | h) | h
  · exact .inl (.inl (.inl h))
  · exact .inl (.inr h)
  · exact .inr h

lemma isDigit_of_isNameStart (h : isNameStart c = true) : c.isDigit = false := by
  by_contra hdigit
  unfold isNameStart Char.isAlpha Char.isUpper Char.isLower at h
  simp [Char.isDigit, UInt32.le_iff_toNat_le] at h hdigit
  rcases h with (h | rfl) | rfl
  · omega
  · exact absurd hdigit (by decide)
  · exact absurd hdigit (by decide)

def isNumberStart (c : Char) : Bool := c.isDigit || c = '.'

lemma starts_dropWhile (p : Char → Bool) (cs : List Char) :
    Starts (fun c => !p c) (cs.dropWhile p) := by
  induction cs with
  | nil => exact starts_nil _
  | cons c cs ih =>
    by_cases hc : p c = true
    · simpa [hc] using ih
    · simp [hc]

/-- A number has at least its first character, and the digit after a point. -/
lemma numberLength_pos {rest : List Char}
    (hc : (c.isDigit || decide (c = '.') && rest.head?.any Char.isDigit) = true) :
    0 < numberLength (c :: rest) ∧ (c = '.' → 1 < numberLength (c :: rest)) := by
  have hplain : plainNumberLength (c :: rest) ≤ numberLength (c :: rest) := by
    unfold numberLength
    dsimp only
    split <;> omega
  rw [plainNumberLength_eq] at hplain
  by_cases hbased : isBased (c :: rest) = true
  · rw [if_pos hbased] at hplain
    omega
  · rw [if_neg hbased] at hplain
    have hrun : ((c :: rest).takeWhile fun c => c.isDigit || c = '_' || c = '.').length ≤
        plainNumberLength.decimalLength (c :: rest) := Nat.le_add_right _ _
    by_cases hdigit : c.isDigit = true
    · refine ⟨?_, ?_⟩
      · simp [hdigit] at hrun
        omega
      · rintro rfl
        exact absurd hdigit (by decide)
    · obtain ⟨rfl, hany⟩ : c = '.' ∧ rest.head?.any Char.isDigit = true := by
        simpa [hdigit] using hc
      cases rest with
      | nil => simp at hany
      | cons d rest =>
        have hd : d.isDigit = true := hany
        simp [hd] at hrun
        omega

lemma count_of_numberLength {w r : List Char} (h : numberLength (w ++ r) = w.length) :
    w.count '\n' = 0 := by
  rw [List.count_eq_zero]
  intro hmem
  obtain ⟨u, v, rfl⟩ := List.append_of_mem hmem
  -- the number would end at the line feed
  have hends : numberLength (u ++ ('\n' :: (v ++ r))) = numberLength u :=
    local_numberLength.append u _ (starts_cons.mpr (by decide))
  have hle := local_numberLength.le u
  simp only [List.append_assoc, List.cons_append, hends, List.length_append, List.length_cons] at h
  omega

def opened : List Nat → List Nat
  | depth :: outer => (depth + 1) :: outer
  | [] => []

/-- The open substitutions after a part of a template. -/
def entered (b : Body) (outer : List Nat) : List Nat :=
  if b.opensSubstitution then 0 :: outer else outer

/-- The text `w`, with `r` behind it, is skipped as a whole: a blank, a line
feed or a comment. -/
inductive Skips : List Char → List Char → Prop
  | blank {c : Char} {r : List Char} (h : c = '\n' ∨ isBlank c = true) : Skips [c] r
  | line {w r : List Char} (hw : '\n' ∉ w) (hr : Starts (· = '\n') r) : Skips ('/' :: '/' :: w) r
  | block {w r : List Char} (hw : ¬ ['*', '/'] <:+: w) : Skips ('/' :: '*' :: (w ++ ['*', '/'])) r

/-- `Reads open w r l open'`: inside of the substitutions `open` the text `w`,
with `r` behind it, is read as the lexeme `l`. -/
inductive Reads : List Nat → List Char → List Char → Lexeme → List Nat → Prop
  | word {ts : List Nat} {c : Char} {w r : List Char} (hc : isNameStart c = true)
      (hw : ∀ d ∈ w, isNamePart d = true) (hr : Starts (fun d => !isNamePart d) r) :
      Reads ts (c :: w) r (.ofWord (c :: w)) ts
  | number {ts : List Nat} {c : Char} {w r : List Char}
      (hc : c.isDigit = true ∨ c = '.' ∧ w.head?.any Char.isDigit = true)
      (hlength : numberLength (c :: w ++ r) = (c :: w).length)
      (hr : Starts (fun d => !d.isAlpha) r) :
      Reads ts (c :: w) r (.number (c :: w)) ts
  | string {ts : List Nat} {q : Char} {w r : List Char} {b : Body} (hq : q = '\x22' ∨ q = '\x27')
      (hb : stringBody q (w ++ r) = some b) (hof : b.Of w) :
      Reads ts (q :: w) r (.string b.content) ts
  | template {ts : List Nat} {w r : List Char} {b : Body}
      (hb : templateBody (w ++ r) = some b) (hof : b.Of w) :
      Reads ts ('\x60' :: w) r (.ofBody true b) (entered b ts)
  | resume {ts : List Nat} {w r : List Char} {b : Body}
      (hb : templateBody (w ++ r) = some b) (hof : b.Of w) :
      Reads (0 :: ts) ('\x7d' :: w) r (.ofBody false b) (entered b ts)
  | openBrace {ts : List Nat} {r : List Char} : Reads ts ['\x7b'] r (.punct .leftBrace) (opened ts)
  | closeBrace {ts : List Nat} {depth : Nat} {r : List Char} :
      Reads ((depth + 1) :: ts) ['\x7d'] r (.punct .rightBrace) (depth :: ts)
  | outerBrace {r : List Char} : Reads [] ['\x7d'] r (.punct .rightBrace) []
  | mark {ts : List Nat} {p : Punctuator} {r : List Char}
      (hp : punctuator? (p.text.toList ++ r) = some p)
      (hopen : p ≠ .leftBrace) (hclose : p ≠ .rightBrace)
      (hcomment : p = .slash → Starts (fun c => c ≠ '/' && c ≠ '*') r)
      (hnumber : p = .dot → Starts (fun c => !c.isDigit) r) :
      Reads ts p.text.toList r (.punct p) ts

def startsMark (c : Char) : Bool :=
  c ≠ '\n' && !isBlank c && c ≠ '\x22' && c ≠ '\x27' && c ≠ '\x60' && c ≠ '\x7b' && c ≠ '\x7d'
    && !c.isDigit && !isNameStart c

lemma exists_text_eq (p : Punctuator) (hopen : p ≠ .leftBrace) (hclose : p ≠ .rightBrace) :
    ∃ c w, p.text.toList = c :: w ∧ startsMark c = true ∧
      (c = '/' → (p = .slash ∧ w = []) ∨ w = ['=']) ∧
      (c = '.' → (p = .dot ∧ w = []) ∨ w = ['.', '.']) := by
  cases p <;> first | contradiction | exact ⟨_, _, rfl, by decide, by decide, by decide⟩

end Scan

namespace Scanner

open Scan

variable {s t : Scanner} {w r : List Char} {c q : Char} {rest : List Char}
  {x : Option Token × Scanner} {opening : Bool} {p : Punctuator}

def tokenOf (s : Scanner) (w : List Char) (l : Lexeme) : Token :=
  ⟨(l.enter s.names).1, s.line, s.offset, s.offset + w.length, s.newline⟩

def behind (s : Scanner) (w : List Char) (l : Lexeme) (templates : List Nat) : Scanner :=
  ⟨s.rest.drop w.length, s.offset + w.length, s.line + w.count '\n', false, templates,
    (l.enter s.names).2⟩

/-- Where no comment starts, the next character decides. -/
lemma next_of_cons (hs : s.rest = c :: rest) (hline : c = '/' → rest.head? ≠ some '/')
    (hblock : c = '/' → rest.head? ≠ some '*') :
    s.next =
      if c = '\n' then .ok (none, s.skip 1 1)
      else if isBlank c then .ok (none, s.skip 1 0)
      else if c = '\x22' || c = '\x27' then
        match stringBody c rest with
        | some body => .ok (s.emitSymbol .string body.content (body.length + 1) body.lineFeeds)
        | none => .error ⟨s.line, .openString⟩
      else if c = '\x60' then s.template true
      else if c = '\x7b' then .ok s.openBrace
      else if c = '\x7d' then s.closeBrace
      else if c.isDigit || (c = '.' && rest.head?.any Char.isDigit) then s.number
      else if isNameStart c then .ok s.word
      else
        match punctuator? s.rest with
        | some p => .ok (s.emit (.punct p) p.text.length 0)
        | none => .error ⟨s.line, .unexpected c⟩ := by
  unfold next
  split
  · next h => simp [h] at hs
  · next h =>
    cases hs.symm.trans h
    exact absurd rfl (hline rfl)
  · next h =>
    cases hs.symm.trans h
    exact absurd rfl (hblock rfl)
  · next h =>
    cases hs.symm.trans h
    rfl

lemma next_of_slashes (hs : s.rest = '/' :: '/' :: rest) :
    s.next = .ok (none, s.skip (2 + (rest.takeWhile (· ≠ '\n')).length) 0) := by
  unfold next
  rw [hs]
  rfl

lemma next_of_slashStar (hs : s.rest = '/' :: '*' :: rest) :
    s.next = match blockComment rest with
      | some (n, feeds) => .ok (none, s.skip (2 + n) feeds)
      | none => .error ⟨s.line, .openComment⟩ := by
  unfold next
  rw [hs]
  rfl

/-- The scanner skips what can be skipped. -/
lemma next_of_skips (hs : s.rest = w ++ r) (h : Skips w r) :
    s.next = .ok (none, s.skip w.length (w.count '\n')) := by
  cases h with
  | @blank c r h =>
    have hslash : c ≠ '/' := by
      rintro rfl
      revert h
      decide
    rw [next_of_cons hs (fun hc => absurd hc hslash) (fun hc => absurd hc hslash)]
    rcases h with rfl | h
    · rfl
    · have hne : c ≠ '\n' := ne_of_test h (by decide)
      simp [hne, h]
  | @line w r hw hr =>
    have htake : (w ++ r).takeWhile (· ≠ '\n') = w := by
      rw [takeWhile_append_of_starts (hr.mono fun c hc => by simpa using hc)]
      exact List.takeWhile_eq_self_iff.mpr fun c hc => decide_eq_true fun h => hw (h ▸ hc)
    have hcount : ('/' :: '/' :: w).count '\n' = 0 := by simpa using List.count_eq_zero.mpr hw
    rw [List.cons_append, List.cons_append] at hs
    rw [next_of_slashes hs, htake, hcount, Nat.add_comm]
    rfl
  | @block w r hw =>
    have hs' : s.rest = '/' :: '*' :: (w ++ '*' :: '/' :: r) := by simp [hs]
    have hlength : ('/' :: '*' :: (w ++ ['*', '/'])).length = 2 + (w.length + 2) := by
      simp only [List.length_cons, List.length_append, List.length_nil]
      omega
    rw [next_of_slashStar hs', blockComment_of_not_infix hw, hlength]
    simp

/-- Where neither a blank nor a comment nor a quoted text nor a brace starts. -/
lemma next_of_plain {test : Char → Bool} (hs : s.rest = c :: rest) (hc : test c = true)
    (htest : "\n \t\r\x22\x27\x60\x7b\x7d".toList.all (!test ·) = true)
    (hcomment : c = '/' → Starts (fun d => d ≠ '/' && d ≠ '*') rest) :
    s.next =
      if c.isDigit || (c = '.' && rest.head?.any Char.isDigit) then s.number
      else if isNameStart c then .ok s.word
      else
        match punctuator? s.rest with
        | some p => .ok (s.emit (.punct p) p.text.length 0)
        | none => .error ⟨s.line, .unexpected c⟩ := by
  have hne : ∀ d ∈ "\n \t\r\x22\x27\x60\x7b\x7d".toList, c ≠ d := fun d hd =>
    ne_of_test hc (by simpa using List.all_eq_true.mp htest d hd)
  rw [next_of_cons hs (fun hc hd => by simpa using hcomment hc _ hd)
    (fun hc hd => by simpa using hcomment hc _ hd)]
  simp [isBlank, hne '\n' (by decide), hne ' ' (by decide), hne '\t' (by decide),
    hne '\r' (by decide), hne '\x22' (by decide), hne '\x27' (by decide),
    hne '\x60' (by decide), hne '\x7b' (by decide), hne '\x7d' (by decide)]

lemma next_of_word (hs : s.rest = c :: w ++ r) (hc : isNameStart c = true)
    (hw : ∀ d ∈ w, isNamePart d = true) (hr : Starts (fun d => !isNamePart d) r) :
    s.next = .ok (some (s.tokenOf (c :: w) (.ofWord (c :: w))),
      s.behind (c :: w) (.ofWord (c :: w)) s.templates) := by
  have hparts : ∀ d ∈ c :: w, isNamePart d = true :=
    List.forall_mem_cons.mpr ⟨isNamePart_of_isNameStart hc, hw⟩
  have htext : s.rest.takeWhile isNamePart = c :: w := by
    rw [hs, takeWhile_append_of_starts hr]
    exact List.takeWhile_eq_self_iff.mpr hparts
  have hfeeds : (c :: w).count '\n' = 0 := count_of_test hparts (by decide)
  have hpoint : c ≠ '.' := ne_of_test hc (by decide)
  rw [next_of_plain hs hc (by decide) fun h => absurd h (ne_of_test hc (by decide)),
    if_neg (by simp [isDigit_of_isNameStart hc, hpoint]), if_pos hc]
  unfold word tokenOf behind Lexeme.ofWord
  dsimp only
  rw [htext, hfeeds]
  cases Keyword.ofText? (String.ofList (c :: w)) <;> rfl

lemma next_of_number (hs : s.rest = c :: w ++ r)
    (hc : c.isDigit = true ∨ c = '.' ∧ w.head?.any Char.isDigit = true)
    (hlength : numberLength (c :: w ++ r) = (c :: w).length) (hr : Starts (fun d => !d.isAlpha) r) :
    s.next = .ok (some (s.tokenOf (c :: w) (.number (c :: w))),
      s.behind (c :: w) (.number (c :: w)) s.templates) := by
  have hstart : isNumberStart c = true := by rcases hc with hc | hc <;> simp [isNumberStart, hc]
  have hcond : (c.isDigit || decide (c = '.') && (w ++ r).head?.any Char.isDigit) = true := by
    rcases hc with hc | ⟨rfl, hw⟩
    · simp [hc]
    · cases w with
      | nil => simp at hw
      | cons d w => simpa using hw
  have hfollow : ¬ (s.rest[(c :: w).length]?).any Char.isAlpha = true := by
    rw [hs, List.getElem?_append_right .refl, Nat.sub_self]
    cases r with
    | nil => simp
    | cons d r => simpa using hr
  rw [next_of_plain hs hstart (by decide) fun h => absurd h (ne_of_test hstart (by decide))]
  refine (if_pos hcond).trans ?_
  have htake : s.rest.take (c :: w).length = c :: w := by rw [hs, List.take_left]
  have hlen : numberLength s.rest = (c :: w).length := by rw [hs, hlength]
  unfold number
  rw [hlen, if_neg hfollow, htake, tokenOf, behind, count_of_numberLength hlength]
  rfl

lemma next_of_string {b : Body} (hs : s.rest = q :: (w ++ r)) (hq : q = '\x22' ∨ q = '\x27')
    (hb : stringBody q (w ++ r) = some b) (hof : b.Of w) :
    s.next = .ok (some (s.tokenOf (q :: w) (.string b.content)),
      s.behind (q :: w) (.string b.content) s.templates) := by
  have hfeeds : (q :: w).count '\n' = b.lineFeeds := by
    rcases hq with rfl | rfl <;> simp [hof.lineFeeds]
  have hnext : s.next =
      .ok (s.emitSymbol .string b.content (b.length + 1) b.lineFeeds) := by
    rcases hq with rfl | rfl
    all_goals
      rw [next_of_cons hs (by simp) (by simp)]
      simp [isBlank, hb]
  rw [hnext, tokenOf, behind, hfeeds, hof.length]
  rfl

/-- A part of a template, at the quote or at the brace before it. -/
lemma template_eq {b : Body} (hs : s.rest = q :: (w ++ r)) (hq : q ≠ '\n')
    (hb : templateBody (w ++ r) = some b) (hof : b.Of w) :
    s.template opening = .ok (some (s.tokenOf (q :: w) (.ofBody opening b)),
      s.behind (q :: w) (.ofBody opening b) (entered b s.templates)) := by
  have hfeeds : (q :: w).count '\n' = b.lineFeeds := by simp [hof.lineFeeds, hq]
  unfold template tokenOf behind
  rw [hs, List.drop_succ_cons, List.drop_zero, hb, hfeeds, List.length_cons, ← hof.length]
  obtain ⟨content, length, feeds, opens⟩ := b
  cases opening <;> cases opens <;> simp [← hs] <;> rfl

lemma next_of_mark (hs : s.rest = p.text.toList ++ r)
    (hp : punctuator? (p.text.toList ++ r) = some p) (hopen : p ≠ .leftBrace)
    (hclose : p ≠ .rightBrace) (hcomment : p = .slash → Starts (fun c => c ≠ '/' && c ≠ '*') r)
    (hnumber : p = .dot → Starts (fun c => !c.isDigit) r) :
    s.next = .ok (some (s.tokenOf p.text.toList (.punct p)),
      s.behind p.text.toList (.punct p) s.templates) := by
  obtain ⟨c, w, htext, hstart, hslash, hpoint⟩ := exists_text_eq p hopen hclose
  have hfeeds : p.text.toList.count '\n' = 0 := by cases p <;> rfl
  have hs' : s.rest = c :: (w ++ r) := by rw [hs, htext, List.cons_append]
  have hfollow : c = '/' → Starts (fun d => d ≠ '/' && d ≠ '*') (w ++ r) := by
    intro hc
    obtain ⟨hp, rfl⟩ | rfl := hslash hc
    · exact hcomment hp
    · exact starts_cons.mpr (by decide)
  have hdigits : c = '.' → Starts (fun d => !d.isDigit) (w ++ r) := by
    intro hc
    obtain ⟨hp, rfl⟩ | rfl := hpoint hc
    · exact hnumber hp
    · exact starts_cons.mpr (by decide)
  have hstart' := hstart
  simp only [startsMark, Bool.and_eq_true, Bool.not_eq_true'] at hstart'
  have hcond : ¬ (c.isDigit || decide (c = '.') && (w ++ r).head?.any Char.isDigit) = true := by
    simp only [hstart'.1.2, Bool.false_or, Bool.and_eq_true, decide_eq_true_eq, not_and]
    intro hc hany
    obtain ⟨d, hd, hdigit⟩ := Option.any_eq_true _ _ |>.mp hany
    simpa [hdigit] using hdigits hc d hd
  rw [next_of_plain hs' hstart (by decide) hfollow, if_neg hcond, if_neg (by simp [hstart'.2]), hs,
    hp, tokenOf, behind, hfeeds, String.length_toList]
  rfl

/-- The scanner reads what can be read. -/
lemma next_of_reads {outer ts : List Nat} {l : Lexeme} (hs : s.rest = w ++ r)
    (hopen : s.templates = outer) (h : Reads outer w r l ts) :
    s.next = .ok (some (s.tokenOf w l), s.behind w l ts) := by
  cases h with
  | word hc hw hr => exact hopen ▸ next_of_word hs hc hw hr
  | number hc hlength hr => exact hopen ▸ next_of_number hs hc hlength hr
  | string hq hb hof => exact hopen ▸ next_of_string hs hq hb hof
  | template hb hof =>
    rw [next_of_cons hs (by simp) (by simp)]
    exact hopen ▸ template_eq hs (by decide) hb hof
  | @resume ts w r b hb hof =>
    have hresume : ({ s with templates := ts } : Scanner).template false =
        .ok (some (s.tokenOf ('\x7d' :: w) (.ofBody false b)),
          s.behind ('\x7d' :: w) (.ofBody false b) (entered b ts)) :=
      template_eq (s := { s with templates := ts }) hs (by decide) hb hof
    rw [next_of_cons hs (by simp) (by simp)]
    simpa [isBlank, closeBrace, hopen] using hresume
  | openBrace =>
    rw [next_of_cons hs (by simp) (by simp)]
    obtain ⟨rest, offset, line, newline, templates, names⟩ := s
    obtain rfl : templates = outer := hopen
    cases templates <;> rfl
  | closeBrace =>
    rw [next_of_cons hs (by simp) (by simp)]
    simp [isBlank, closeBrace, hopen]
    rfl
  | outerBrace =>
    rw [next_of_cons hs (by simp) (by simp)]
    obtain ⟨rest, offset, line, newline, templates, names⟩ := s
    obtain rfl : templates = [] := hopen
    rfl
  | mark hp hl hr hcomment hnumber => exact hopen ▸ next_of_mark hs hp hl hr hcomment hnumber

lemma exists_of_number
    (hc : (c.isDigit || decide (c = '.') && rest.head?.any Char.isDigit) = true)
    (hr : ¬ ((c :: rest)[numberLength (c :: rest)]?).any Char.isAlpha = true) (ts : List Nat) :
    ∃ w r, c :: rest = w ++ r ∧ Reads ts w r (.number w) ts := by
  have hlen := numberLength_pos hc
  obtain ⟨n, hn⟩ : ∃ n, numberLength (c :: rest) = n + 1 :=
    ⟨_, (Nat.succ_pred_eq_of_pos hlen.1).symm⟩
  have hle := local_numberLength.le (c :: rest)
  rw [hn, List.length_cons] at hle
  have hsplit : c :: rest.take n ++ rest.drop n = c :: rest := by simp
  refine ⟨c :: rest.take n, rest.drop n, hsplit.symm, .number ?_ ?_ ?_⟩
  · by_cases hdigit : c.isDigit = true
    · exact .inl hdigit
    · have hpoint : c = '.' ∧ rest.head?.any Char.isDigit = true := by simpa [hdigit] using hc
      have htwo := hlen.2 hpoint.1
      obtain ⟨m, rfl⟩ : ∃ m, n = m + 1 := ⟨n - 1, by omega⟩
      cases rest with
      | nil => simp at hpoint
      | cons d rest => exact .inr ⟨hpoint.1, by simpa using hpoint.2⟩
  · rw [hsplit, hn, List.length_cons, List.length_take, Nat.min_eq_left (by omega)]
  · intro d hd
    rw [hn, List.getElem?_cons_succ, ← List.head?_drop] at hr
    rw [Option.mem_def] at hd
    simpa [hd] using hr

lemma exists_of_template (hs : s.rest = q :: rest) (h : s.template opening = .ok x) :
    ∃ w r b, rest = w ++ r ∧ templateBody (w ++ r) = some b ∧ b.Of w := by
  unfold template at h
  rw [hs, List.drop_succ_cons, List.drop_zero] at h
  split at h
  · cases h
  · next b hb =>
    obtain ⟨w, r, rfl, -, hof, hall⟩ := templateBody_spec hb
    exact ⟨w, r, b, rfl, hall r, hof⟩

lemma exists_of_closeBrace (hs : s.rest = '\x7d' :: rest) (h : s.closeBrace = .ok x) :
    ∃ w r, s.rest = w ++ r ∧ ∃ l ts, Reads s.templates w r l ts := by
  unfold closeBrace at h
  split at h
  · next ts hts =>
    rw [hts]
    obtain ⟨w, r, b, rfl, hb, hof⟩ := exists_of_template (s := { s with templates := ts }) hs h
    exact ⟨'\x7d' :: w, r, hs, _, _, .resume hb hof⟩
  · next hts =>
    rw [hts]
    exact ⟨['\x7d'], rest, hs, _, _, .closeBrace⟩
  · next hts =>
    rw [hts]
    exact ⟨['\x7d'], rest, hs, _, _, .outerBrace⟩

lemma exists_of_mark (hleft : c ≠ '\x7b') (hright : c ≠ '\x7d')
    (hcomment : c = '/' → Starts (fun d => d ≠ '/' && d ≠ '*') rest)
    (hnumber : c = '.' → Starts (fun d => !d.isDigit) rest) (hp : punctuator? (c :: rest) = some p)
    (ts : List Nat) : ∃ w r, c :: rest = w ++ r ∧ Reads ts w r (.punct p) ts := by
  obtain ⟨r, hr⟩ := prefix_of_punctuator? hp
  refine ⟨p.text.toList, r, hr.symm, .mark (hr ▸ hp) ?_ ?_ ?_ ?_⟩
  · rintro rfl
    exact hleft (List.cons.inj hr).1.symm
  · rintro rfl
    exact hright (List.cons.inj hr).1.symm
  · rintro rfl
    obtain ⟨hc, rfl⟩ := List.cons.inj hr
    exact hcomment hc.symm
  · rintro rfl
    obtain ⟨hc, rfl⟩ := List.cons.inj hr
    exact hnumber hc.symm

/-- **One step of the scanner.** It skips a text or reads it as a lexeme. -/
theorem exists_piece (hne : s.rest ≠ []) (h : s.next = .ok x) :
    ∃ w r, s.rest = w ++ r ∧ (Skips w r ∨ ∃ l ts, Reads s.templates w r l ts) := by
  unfold next at h
  split at h
  · next hs => exact absurd hs hne
  · next rest hs =>
    refine ⟨'/' :: '/' :: rest.takeWhile (· ≠ '\n'), rest.dropWhile (· ≠ '\n'), by simp [hs],
      .inl (.line (fun hmem => ?_) ?_)⟩
    · simpa using List.mem_takeWhile_imp hmem
    · exact (starts_dropWhile _ _).mono fun c hc => by simpa using hc
  · next rest hs =>
    split at h
    · next hcomment =>
      obtain ⟨w, r, rfl, hw, -, -⟩ := exists_of_blockComment hcomment
      exact ⟨'/' :: '*' :: (w ++ ['*', '/']), r, by simp [hs], .inl (.block hw)⟩
    · cases h
  · next c rest hline hblock hs =>
    split at h
    · next hc => exact ⟨[c], rest, hs, .inl (.blank (.inl hc))⟩
    split at h
    · next hc => exact ⟨[c], rest, hs, .inl (.blank (.inr hc))⟩
    split at h
    · next hq =>
      split at h
      · next b hb =>
        obtain ⟨w, r, rfl, hof, hall⟩ := stringBody_spec hb
        exact ⟨c :: w, r, hs, .inr ⟨_, _, .string (by simpa using hq) (hall r) hof⟩⟩
      · cases h
    split at h
    · next hq =>
      subst hq
      obtain ⟨w, r, b, rfl, hb, hof⟩ := exists_of_template hs h
      exact ⟨'\x60' :: w, r, hs, .inr ⟨_, _, .template hb hof⟩⟩
    split at h
    · next hq =>
      subst hq
      exact ⟨['\x7b'], rest, hs, .inr ⟨_, _, .openBrace⟩⟩
    split at h
    · next hq =>
      subst hq
      obtain ⟨w, r, hsplit, hreads⟩ := exists_of_closeBrace hs h
      exact ⟨w, r, hsplit, .inr hreads⟩
    next hleft hright =>
    split at h
    · next hnum =>
      unfold number at h
      dsimp only at h
      split at h
      · cases h
      · next hfollow =>
        rw [hs] at hfollow ⊢
        obtain ⟨w, r, hsplit, hreads⟩ := exists_of_number hnum hfollow s.templates
        exact ⟨w, r, hsplit, .inr ⟨_, _, hreads⟩⟩
    next hnum =>
    split at h
    · next hname =>
      exact ⟨c :: rest.takeWhile isNamePart, rest.dropWhile isNamePart, by simp [hs],
        .inr ⟨_, _, .word hname (fun d hd => List.mem_takeWhile_imp hd) (starts_dropWhile _ _)⟩⟩
    split at h
    · next p hp =>
      have hcomment : c = '/' → Starts (fun d => d ≠ '/' && d ≠ '*') rest := by
        cases rest with
        | nil => exact fun _ => starts_nil _
        | cons d rest =>
          intro hc
          have hd : d ≠ '/' := fun hd => hline rest hc (by rw [hd])
          have hd' : d ≠ '*' := fun hd => hblock rest hc (by rw [hd])
          simp [hd, hd']
      have hnumber : c = '.' → Starts (fun d => !d.isDigit) rest := by
        rintro rfl d hd
        rw [Option.mem_def] at hd
        simpa [hd] using hnum
      rw [hs] at hp ⊢
      obtain ⟨w, r, hsplit, hreads⟩ := exists_of_mark hleft hright hcomment hnumber hp s.templates
      exact ⟨w, r, hsplit, .inr ⟨_, _, hreads⟩⟩
    · cases h

end Scanner

end ValueFlow
