import ValueFlow.Proofs.Token.Cuts

/-!
# Templates are nested

Of a template literal with substitutions the scanner gives the parts as tokens of
their own, with the tokens of the substitutions between them. It keeps a stack with
the number of open braces for each substitution it is in, and a closing brace goes on
with a template only where none is open. So what the stack says about the tokens to
come is a derivation in the grammar of nested templates.
-/

namespace ValueFlow

/-- Behind `depth` open braces, no beginning of the tokens closes more braces than
are open, and in the end none is open. -/
def Balanced (depth : Nat) (vs : List TokenValue) : Prop :=
  (∀ p, p <+: vs → p.count (.punct .rightBrace) ≤ depth + p.count (.punct .leftBrace)) ∧
    vs.count (.punct .rightBrace) = depth + vs.count (.punct .leftBrace)

def TokenValue.Plain (v : TokenValue) : Prop :=
  ∀ part content, v = .template part content → part = .whole

mutual

inductive Nests : List TokenValue → List TokenValue → Prop
  | nil : Nests [] []
  | plain {v : TokenValue} {vs outer : List TokenValue} (hv : v.Plain) (h : Nests vs outer) :
      Nests (v :: vs) (v :: outer)
  | template {content : Symbol} {parts vs outer : List TokenValue}
      (hparts : Substitutions 0 parts) (h : Nests vs outer) :
      Nests (.template .head content :: (parts ++ vs)) outer

/-- The rest of a template from inside of a substitution with `depth` open braces:
substitutions with middle parts between them, and the tail. -/
inductive Substitutions : Nat → List TokenValue → Prop
  | tail {depth : Nat} {content : Symbol} {vs outer : List TokenValue} (h : Nests vs outer)
      (hbraces : Balanced depth outer) : Substitutions depth (vs ++ [.template .tail content])
  | middle {depth : Nat} {content : Symbol} {vs outer parts : List TokenValue} (h : Nests vs outer)
      (hbraces : Balanced depth outer) (hparts : Substitutions 0 parts) :
      Substitutions depth (vs ++ .template .middle content :: parts)

end

/-- The tokens end the substitutions of a stack one after the other. -/
def Closes : List Nat → List TokenValue → Prop
  | [], vs => ∃ outer, Nests vs outer
  | depth :: outer, vs =>
    ∃ parts rest, vs = parts ++ rest ∧ Substitutions depth parts ∧ Closes outer rest

variable {v : TokenValue} {vs parts : List TokenValue} {ts : List Nat} {depth depth' : Nat}
  {content : Symbol}

/-! ## Braces -/

lemma balanced_nil : Balanced 0 [] := by
  refine ⟨fun p hp => ?_, rfl⟩
  rw [List.prefix_nil.mp hp]
  exact Nat.le_refl 0

lemma Balanced.cons (h : Balanced depth vs)
    (hv : depth' + [v].count (.punct .leftBrace) = depth + [v].count (.punct .rightBrace)) :
    Balanced depth' (v :: vs) := by
  have hcount (mark : TokenValue) (us : List TokenValue) :
      (v :: us).count mark = us.count mark + [v].count mark := by
    simp [List.count_cons]
  refine ⟨fun p hp => ?_, ?_⟩
  · cases p with
    | nil => exact Nat.zero_le _
    | cons u p =>
      obtain ⟨rfl, hrest⟩ := List.cons_prefix_cons.mp hp
      have hle := h.1 p hrest
      rw [hcount _ p, hcount _ p]
      omega
  · have heq := h.2
    rw [hcount _ vs, hcount _ vs]
    omega

/-! ## One more token in front -/

lemma Substitutions.cons (h : Substitutions depth parts) (hv : v.Plain)
    (hdepth : depth' + [v].count (.punct .leftBrace) = depth + [v].count (.punct .rightBrace)) :
    Substitutions depth' (v :: parts) := by
  cases h with
  | tail h hbraces => exact .tail (.plain hv h) (hbraces.cons hdepth)
  | middle h hbraces hparts => exact .middle (.plain hv h) (hbraces.cons hdepth) hparts

lemma Substitutions.template {inner : List TokenValue} (h : Substitutions depth parts)
    (hinner : Substitutions 0 inner) :
    Substitutions depth (.template .head content :: (inner ++ parts)) := by
  rw [← List.cons_append]
  cases h with
  | tail h hbraces =>
    rw [← List.append_assoc]
    exact .tail (.template hinner h) hbraces
  | middle h hbraces hparts =>
    rw [← List.append_assoc]
    exact .middle (.template hinner h) hbraces hparts

lemma Closes.plain (h : Closes ts vs) (hv : v.Plain) (hopen : v ≠ .punct .leftBrace)
    (hclose : v ≠ .punct .rightBrace) : Closes ts (v :: vs) := by
  cases ts with
  | nil =>
    obtain ⟨outer, h⟩ := h
    exact ⟨_, .plain hv h⟩
  | cons depth ts =>
    obtain ⟨parts, rest, rfl, hparts, hrest⟩ := h
    refine ⟨v :: parts, rest, rfl, hparts.cons hv ?_, hrest⟩
    simp [hopen, hclose]

lemma plain_punct (mark : Punctuator) : TokenValue.Plain (.punct mark) := by
  intro part content h
  cases h

lemma Closes.openBrace (h : Closes (Scan.opened ts) vs) :
    Closes ts (.punct .leftBrace :: vs) := by
  cases ts with
  | nil =>
    obtain ⟨outer, h⟩ := h
    exact ⟨_, .plain (plain_punct _) h⟩
  | cons depth ts =>
    obtain ⟨parts, rest, rfl, hparts, hrest⟩ := h
    exact ⟨_, rest, rfl, hparts.cons (plain_punct _) rfl, hrest⟩

lemma Closes.closeBrace (h : Closes (depth :: ts) vs) :
    Closes ((depth + 1) :: ts) (.punct .rightBrace :: vs) := by
  obtain ⟨parts, rest, rfl, hparts, hrest⟩ := h
  exact ⟨_, rest, rfl, hparts.cons (plain_punct _) rfl, hrest⟩

lemma Closes.head (h : Closes (0 :: ts) vs) : Closes ts (.template .head content :: vs) := by
  obtain ⟨inner, rest, rfl, hinner, hrest⟩ := h
  cases ts with
  | nil =>
    obtain ⟨outer, hrest⟩ := hrest
    exact ⟨outer, .template hinner hrest⟩
  | cons depth ts =>
    obtain ⟨parts, rest, rfl, hparts, hrest⟩ := hrest
    rw [← List.append_assoc, ← List.cons_append]
    exact ⟨_, rest, rfl, hparts.template hinner, hrest⟩

lemma Closes.middle (h : Closes (0 :: ts) vs) :
    Closes (0 :: ts) (.template .middle content :: vs) := by
  obtain ⟨parts, rest, rfl, hparts, hrest⟩ := h
  exact ⟨_, rest, rfl, .middle .nil balanced_nil hparts, hrest⟩

lemma Closes.tail (h : Closes ts vs) : Closes (0 :: ts) (.template .tail content :: vs) :=
  ⟨_, vs, rfl, .tail .nil balanced_nil, h⟩

/-! ## Scanning -/

lemma Lexeme.plain_enter {l : Lexeme}
    (hl : ∀ part content, l = .template part content → part = .whole) (names : Names) :
    (l.enter names).1.Plain := by
  intro part symbol h
  cases l with
  | template part' text =>
    cases h
    exact hl part text rfl
  | _ => cases h

/-- What the stack asks for behind a lexeme, and the lexeme, is what it asks for before. -/
lemma Scan.Reads.closes {ts' : List Nat} {w r : List Char} {l : Lexeme} (hl : Reads ts w r l ts')
    (names : Names) (h : Closes ts' vs) : Closes ts ((l.enter names).1 :: vs) := by
  cases hl with
  | word =>
    unfold Lexeme.ofWord
    split
    · exact h.plain (Lexeme.plain_enter (by rintro _ _ ⟨⟩) names) (by rintro ⟨⟩) (by rintro ⟨⟩)
    · exact h.plain (Lexeme.plain_enter (by rintro _ _ ⟨⟩) names) (by rintro ⟨⟩) (by rintro ⟨⟩)
  | number | string =>
    exact h.plain (Lexeme.plain_enter (by rintro _ _ ⟨⟩) names) (by rintro ⟨⟩) (by rintro ⟨⟩)
  | @template _ _ _ b =>
    unfold entered at h
    unfold Lexeme.ofBody
    cases hb : b.opensSubstitution with
    | true =>
      rw [hb, if_pos rfl] at h
      exact h.head
    | false =>
      rw [hb, if_neg Bool.false_ne_true] at h
      exact h.plain (Lexeme.plain_enter (by rintro _ _ ⟨⟩; rfl) names) (by rintro ⟨⟩) (by rintro ⟨⟩)
  | @resume _ _ _ b =>
    unfold entered at h
    unfold Lexeme.ofBody
    cases hb : b.opensSubstitution with
    | true =>
      rw [hb, if_pos rfl] at h
      exact h.middle
    | false =>
      rw [hb, if_neg Bool.false_ne_true] at h
      exact h.tail
  | openBrace => exact h.openBrace
  | closeBrace => exact h.closeBrace
  | outerBrace =>
    obtain ⟨outer, h⟩ := h
    exact ⟨_, .plain (plain_punct _) h⟩
  | mark _ hopen hclose =>
    exact h.plain (plain_punct _) (fun heq => hopen (TokenValue.punct.inj heq))
      fun heq => hclose (TokenValue.punct.inj heq)

lemma Scan.Cuts.closes {cs rest : List Char} {ps : List Piece} (h : Cuts ts cs ps rest)
    (offset line : Nat) (names : Names) :
    Closes ts ((layOut rest ps offset line names).1.toList.map Token.value) := by
  induction h generalizing offset line names with
  | done => exact ⟨_, .plain (by rintro _ _ ⟨⟩) .nil⟩
  | read _ hl _ ih => exact hl.closes names (ih _ _ _)

/-- **Templates are nested.** In the tokens of a source every head of a template is
closed by one tail, with the middle parts between them, and templates in a substitution
are complete in it. Without them the braces of a substitution are balanced. -/
theorem templates_nested {source : String} {names names' : Names} {tokens : Tokens}
    (h : scan source names = (.ok tokens, names')) :
    ∃ outer, Nests (tokens.toList.map Token.value) outer := by
  obtain ⟨-, ps, rest, hcuts, hlay⟩ := scan_eq_ok_iff.mp h
  have hcloses := hcuts.closes 0 1 names
  rw [hlay] at hcloses
  exact hcloses

/-- A template with an object literal and another template in its substitution. -/
theorem templates_nested_twice :
    let source := "`a$\x7b \x7bp: `b$\x7b c \x7d`\x7d \x7d`"
    ∃ tokens names', scan source Numbering.empty = (.ok tokens, names') ∧
      tokens.items.map Token.value =
        [.template .head 0, .punct .leftBrace, .identifier 1, .punct .colon, .template .head 2,
          .identifier 3, .template .tail 4, .punct .rightBrace, .template .tail 4] ∧
      ∃ outer, Nests (tokens.toList.map Token.value) outer := by
  intro source
  exact exists_scan_and (by decide +kernel) templates_nested

end ValueFlow
