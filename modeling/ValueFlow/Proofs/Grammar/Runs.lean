import Mathlib.Data.List.GetD
import ValueFlow.Proofs.Grammar.Reads
import ValueFlow.Proofs.Token.Alike

/-!
# Running parsers

A module can be parsed with any table of names. `Parser.Runs tokens i p q Q` follows a
parser that starts behind the first `i` tokens of a module, and next to it a second one
that starts there with another table. Both stop somewhere behind these tokens with
results that have the property `Q` there, or both fail. The first one fails because of
the module: it never asks for a token or a name that does not exist, and never runs out
of steps. There is one lemma for each parser that looks at tokens or takes them, and one
for each way of combining parsers.

Names decide little. Two expressions that differ in names can be assigned to in the same
way (`Tree.Like`), and this is all that the parser asks of an expression it has read.
-/

namespace ValueFlow

variable {t t' : Token} {value : TokenValue}

/-! ## Tokens -/

/-- Two tokens at the same place of a module, each with the symbol of its table. -/
structure Token.Like (t t' : Token) : Prop where
  value   : ∃ names names', t.value.Alike names names' t'.value
  newline : t.newlineBefore = t'.newlineBefore

lemma Token.Alike.like {names names' : Names} (h : t.Alike names names' t') : t.Like t' :=
  ⟨⟨_, _, h.value⟩, h.newline⟩

/-- Keywords and marks are the same in all tables. -/
lemma Token.Like.eq_iff (h : t.Like t') (hvalue : value.symbol? = none) :
    t.value = value ↔ t'.value = value := by
  obtain ⟨_, _, hlike⟩ := h.value
  generalize t.value = v, t'.value = v' at hlike
  cases hlike with
  | keyword | punct | endOfFile => exact Iff.rfl
  | identifier | number | string | template => constructor <;> (rintro rfl; cases hvalue)

lemma Token.Like.decide_eq (h : t.Like t') (hvalue : value.symbol? = none) :
    decide (t.value = value) = decide (t'.value = value) :=
  decide_eq_decide.mpr (h.eq_iff hvalue)

/-- What does not look at symbols is the same in all tables. -/
lemma Token.Like.congr {γ : Type} (f : TokenValue → γ) (h : t.Like t')
    (hf : ∀ part s s', f (.identifier s) = f (.identifier s') ∧ f (.number s) = f (.number s') ∧
      f (.string s) = f (.string s') ∧ f (.template part s) = f (.template part s')) :
    f t.value = f t'.value := by
  obtain ⟨_, _, hlike⟩ := h.value
  generalize t.value = v, t'.value = v' at hlike
  cases hlike with
  | @identifier s s' => exact (hf .whole s s').1
  | @number s s' => exact (hf .whole s s').2.1
  | @string s s' => exact (hf .whole s s').2.2.1
  | @template part s s' => exact (hf part s s').2.2.2
  | keyword | punct | endOfFile => rfl

namespace Tokens

variable (tokens : Tokens)

/-- How many tokens have a text of their own. -/
abbrev count : Nat := tokens.items.length

variable {tokens} {i : Nat}

lemma token_mem (h : i < tokens.count) : tokens.token i ∈ tokens.items := by
  rw [token, List.getD_eq_getElem _ _ h]
  exact List.getElem_mem h

lemma drop_eq_cons (h : i < tokens.count) :
    tokens.items.drop i = tokens.token i :: tokens.items.drop (i + 1) := by
  rw [token, List.getD_eq_getElem _ _ h]
  exact List.drop_eq_getElem_cons h

lemma take_succ (h : i < tokens.count) :
    tokens.items.take (i + 1) = tokens.items.take i ++ [tokens.token i] := by
  rw [token, List.getD_eq_getElem _ _ h]
  exact List.take_succ_eq_append_getElem h

lemma headD_drop (i : Nat) : (tokens.items.drop i).headD tokens.finish = tokens.token i := by
  rw [List.headD_eq_head?_getD, List.head?_drop, token, List.getD_eq_getElem?_getD]

end Tokens

/-! ## Expressions -/

/-- What an expression on the left of an assignment is. -/
inductive Aim
  | place
  | brackets
  | other
  deriving DecidableEq

def Form.aim {α : Type} : Form α → Aim
  | identifier _ | member .. | index .. => .place
  | array _ | object _ => .brackets
  | _ => .other

/-- Whether an expression can be read again as a pattern, if it is known of its parts. -/
def Form.turns {α : Type} (turn : α → Bool) : Form α → Bool
  | identifier _ | member .. | index .. | assign .plain .. => true
  | array elements => elements.all (·.all turn)
  | object properties => properties.all turn
  | property _ value _ => turn value
  | spread argument => turn argument
  | _ => false

namespace Tree

/-- Whether the tree can be read again as a pattern. -/
def turns (t : Tree) : Bool := t.toPattern.isOk

lemma isOk_listToPatterns (ts : List Tree) : (listToPatterns ts).isOk = ts.all turns := by
  induction ts with
  | nil => rfl
  | cons t ts ih =>
    rw [List.all_cons, ← ih, turns, listToPatterns]
    cases t.toPattern <;> cases listToPatterns ts <;> rfl

lemma isOk_holesToPatterns (es : List (Option Tree)) :
    (holesToPatterns es).isOk = es.all (·.all turns) := by
  induction es with
  | nil => rfl
  | cons e es ih =>
    rw [List.all_cons, ← ih]
    cases e with
    | none =>
      rw [holesToPatterns]
      cases holesToPatterns es <;> rfl
    | some t =>
      rw [Option.all_some, turns, holesToPatterns]
      cases t.toPattern <;> cases holesToPatterns es <;> rfl

lemma isOk_bind_pure {α β : Type} (x : Except Nat α) (f : α → β) :
    (do return f (← x) : Except Nat β).isOk = x.isOk := by
  cases x <;> rfl

lemma turns_node (span : Span) (form : Form Tree) :
    (node span form).turns = form.turns turns := by
  cases form with
  | array elements =>
    rw [turns, toPattern]
    exact (isOk_bind_pure _ _).trans (isOk_holesToPatterns elements)
  | object properties =>
    rw [turns, toPattern]
    exact (isOk_bind_pure _ _).trans (isOk_listToPatterns properties)
  | property | spread =>
    rw [turns, toPattern]
    exact isOk_bind_pure _ _
  | assign op target value => cases op <;> rfl
  | _ => rfl

end Tree

def Form.Like (form form' : Form Tree) : Prop :=
  form.aim = form'.aim ∧ form.turns Tree.turns = form'.turns Tree.turns

namespace Tree

/-- Both trees can be assigned to in the same way. -/
structure Like (t t' : Tree) : Prop where
  aim   : t.form.aim = t'.form.aim
  turns : t.turns = t'.turns

lemma like_node {span span' : Span} {form form' : Form Tree} (h : form.Like form') :
    (node span form).Like (node span' form') :=
  ⟨h.1, by rw [turns_node, turns_node, h.2]⟩

lemma all_turns {ts ts' : List Tree} (h : List.Forall₂ Like ts ts') :
    ts.all turns = ts'.all turns := by
  induction h with
  | nil => rfl
  | cons ht _ ih => rw [List.all_cons, List.all_cons, ht.turns, ih]

lemma all_turns_holes {es es' : List (Option Tree)} (h : List.Forall₂ (Option.Rel Like) es es') :
    es.all (·.all turns) = es'.all (·.all turns) := by
  induction h with
  | nil => rfl
  | cons he _ ih =>
    rw [List.all_cons, List.all_cons, ih]
    cases he with
    | none => rfl
    | some ht => rw [Option.all_some, Option.all_some, ht.turns]

end Tree

/-! ## States -/

/-- Two states of parsers at the same place of a module, each with its own table. -/
structure ParserState.Alike (s s' : ParserState) : Prop where
  before : List.Forall₂ (Token.Alike s.names s'.names) s.before s'.before
  rest   : List.Forall₂ (Token.Alike s.names s'.names) s.rest s'.rest
  finish : s.finish.Alike s.names s'.names s'.finish
  noIn   : s.noIn = s'.noIn

/-- The tables may grow. -/
lemma ParserState.Alike.extend {s s' : ParserState} (h : s.Alike s') {later later' : Names}
    (hnames : Numbering.Extends s.names later) (hnames' : Numbering.Extends s'.names later') :
    Alike { s with names := later } { s' with names := later' } where
  before := h.before.imp fun _ _ ht => ht.extend hnames hnames'
  rest := h.rest.imp fun _ _ ht => ht.extend hnames hnames'
  finish := h.finish.extend hnames hnames'
  noIn := h.noIn

lemma headD_alike {names names' : Names} {ts ts' : List Token}
    (h : List.Forall₂ (Token.Alike names names') ts ts') (ht : t.Alike names names' t') :
    (ts.headD t).Alike names names' (ts'.headD t') := by
  cases h with
  | nil => exact ht
  | cons h _ => exact h

/-- Two states behind the first `i` of the tokens of a module, each with its own table. -/
structure ParserState.At (tokens : Tokens) (i : Nat) (s s' : ParserState) : Prop where
  le     : i ≤ tokens.count
  before : s.before = (tokens.items.take i).reverse
  rest   : s.rest = tokens.items.drop i
  finish : s.finish = tokens.finish
  ends   : tokens.finish.value = .endOfFile
  alike  : s.Alike s'

namespace ParserState.At

variable {tokens : Tokens} {i : Nat} {s s' : ParserState}

variable (h : At tokens i s s')

include h

lemma next : s.rest.headD s.finish = tokens.token i := by
  rw [h.rest, h.finish, Tokens.headD_drop]

lemma alike_next :
    (tokens.token i).Alike s.names s'.names (s'.rest.headD s'.finish) :=
  h.next ▸ headD_alike h.alike.rest h.alike.finish

lemma nextNext :
    (s.rest.drop 1).headD s.finish = tokens.token (i + 1) := by
  rw [h.rest, h.finish, List.drop_drop, Tokens.headD_drop]

/-- Only the token behind all others stands for the end. -/
lemma lt_of_value {k : Nat}
    (hvalue : (tokens.token k).value ≠ .endOfFile) : k < tokens.count := by
  by_contra hend
  have hfinish : tokens.token k = tokens.finish := List.getD_eq_default _ _ (Nat.le_of_not_lt hend)
  exact hvalue (hfinish ▸ h.ends)

lemma exists_text {k : Nat} {symbol : Symbol}
    (hsymbol : (tokens.token k).value.symbol? = some symbol) :
    ∃ text, s.names.get? symbol = some text := by
  have hmem : tokens.token k ∈ tokens.items := by
    refine Tokens.token_mem (h.lt_of_value fun hvalue => ?_)
    rw [hvalue] at hsymbol
    cases hsymbol
  rw [← List.take_append_drop i tokens.items, List.mem_append, ← List.mem_reverse, ← h.before,
    ← h.rest] at hmem
  have hall : ∀ {ts ts' : List Token}, List.Forall₂ (Token.Alike s.names s'.names) ts ts' →
      tokens.token k ∈ ts → ∃ text, s.names.get? symbol = some text := fun hts ht =>
    forall_mem_of_forall₂ (p := fun t => t.value.symbol? = some symbol →
      ∃ text, s.names.get? symbol = some text) hts.flip (fun _ _ ht => ht.value.exists_text) _ ht
      hsymbol
  exact hmem.elim (hall h.alike.before) (hall h.alike.rest)

/-- Both states have the next token ahead. -/
lemma advance (hlt : i < tokens.count) :
    ∃ t' rest', s'.rest = t' :: rest' ∧ (tokens.token i).Like t' ∧
      At tokens (i + 1)
        { s with before := tokens.token i :: s.before, rest := tokens.items.drop (i + 1) }
        { s' with before := t' :: s'.before, rest := rest' } := by
  have hrest := h.alike.rest
  rw [h.rest, Tokens.drop_eq_cons hlt] at hrest
  generalize s'.rest = rest at hrest
  cases hrest with
  | cons ht hrest =>
    refine ⟨_, _, rfl, ht.like, hlt, ?_, rfl, h.finish, h.ends,
      .cons ht h.alike.before, hrest, h.alike.finish, h.alike.noIn⟩
    rw [h.before, Tokens.take_succ hlt, List.reverse_append]
    rfl

lemma before_eq_cons (hlt : 0 < i) :
    ∃ t' before', s.before = tokens.token (i - 1) :: (tokens.items.take (i - 1)).reverse ∧
      s'.before = t' :: before' ∧ (tokens.token (i - 1)).Like t' := by
  have hle := h.le
  have hbefore : s.before = tokens.token (i - 1) :: (tokens.items.take (i - 1)).reverse := by
    have hsucc : tokens.items.take (i - 1 + 1) = _ := Tokens.take_succ (by omega)
    rw [Nat.sub_add_cancel hlt] at hsucc
    rw [h.before, hsucc, List.reverse_append]
    rfl
  have hlike := h.alike.before
  rw [hbefore] at hlike
  generalize s'.before = before at hlike
  cases hlike with
  | cons ht => exact ⟨_, _, hbefore, rfl, ht.like⟩

/-- The tables may grow. -/
lemma extend {names names' : Names}
    (hnames : Numbering.Extends s.names names) (hnames' : Numbering.Extends s'.names names') :
    At tokens i { s with names } { s' with names := names' } :=
  ⟨h.le, h.before, h.rest, h.finish, h.ends, h.alike.extend hnames hnames'⟩

end ParserState.At

namespace Parser

open ParserState (At)

variable {α β γ δ : Type} {issue issue' : ParseIssue} {value : TokenValue} {role : Role}
  {close : Punctuator} {p' : Parser α} {q' : Parser β} {mark : Punctuator} {word : Keyword}
  {o : Parser (Option Token)}

/-- How two runs that start behind the first `i` tokens end. -/
inductive Ends (tokens : Tokens) (i : Nat) (Q : Nat → α → β → Prop) :
    EStateM.Result ParseError ParserState α → EStateM.Result ParseError ParserState β → Prop
  | ok {a : α} {b : β} {s s' : ParserState} {j : Nat} (hij : i ≤ j) (hs : At tokens j s s')
      (h : Q j a b) : Ends tokens i Q (.ok a s) (.ok b s')
  | error {e e' : ParseError} {s s' : ParserState} (h : e.issue.isInternal = false) :
      Ends tokens i Q (.error e s) (.error e' s')

lemma Ends.mono {tokens : Tokens} {i j : Nat} {Q : Nat → α → β → Prop}
    {result : EStateM.Result ParseError ParserState α}
    {result' : EStateM.Result ParseError ParserState β} (h : Ends tokens j Q result result')
    (hij : i ≤ j) : Ends tokens i Q result result' := by
  cases h with
  | ok hjk hs h => exact .ok (Nat.le_trans hij hjk) hs h
  | error h => exact .error h

/-- All runs of the parsers behind the first `i` tokens end with results that have the
property, or because of the module. -/
def Runs (tokens : Tokens) (i : Nat) (p : Parser α) (q : Parser β) (Q : Nat → α → β → Prop) :
    Prop :=
  ∀ s s' : ParserState, At tokens i s s' → Ends tokens i Q (p s) (q s')

/-- Both sides run one parser. -/
abbrev Gives (tokens : Tokens) (i : Nat) (p : Parser α) (Q : Nat → α → α → Prop) : Prop :=
  Runs tokens i p p Q

variable {tokens : Tokens} {i : Nat} {p : Parser α} {q : Parser β} {f : α → Parser γ}
  {g : β → Parser δ} {Q : Nat → α → β → Prop} {R : Nat → γ → δ → Prop} {early : Option Nat}

/-! ## Combining parsers -/

lemma Runs.bind (hp : Runs tokens i p q Q)
    (hf : ∀ j a b, i ≤ j → j ≤ tokens.count → Q j a b → Runs tokens j (f a) (g b) R) :
    Runs tokens i (p >>= f) (q >>= g) R := by
  intro s s' hs
  have hend := hp s s' hs
  simp only [Bind.bind, EStateM.bind]
  generalize p s = result, q s' = result' at hend
  cases hend with
  | error h => exact .error h
  | ok hij hs h => exact (hf _ _ _ hij hs.le h _ _ hs).mono hij

/-- Parsers that take no token and find the same. -/
lemma Runs.bind_here {q : Parser α} {g : α → Parser δ} {S : α → Prop}
    (hp : Runs tokens i p q fun j a b => j = i ∧ a = b ∧ S a)
    (hf : ∀ a, S a → Runs tokens i (f a) (g a) R) : Runs tokens i (p >>= f) (q >>= g) R := by
  refine hp.bind ?_
  rintro _ a _ - - ⟨rfl, rfl, ha⟩
  exact hf a ha

lemma Runs.imp {Q' : Nat → α → β → Prop} (hp : Runs tokens i p q Q)
    (h : ∀ j a b, i ≤ j → j ≤ tokens.count → Q j a b → Q' j a b) : Runs tokens i p q Q' := by
  intro s s' hs
  have hend := hp s s' hs
  generalize p s = result, q s' = result' at hend
  cases hend with
  | error h => exact .error h
  | ok hij hs ha => exact .ok hij hs (h _ _ _ hij hs.le ha)

/-- A run starts behind tokens that exist. -/
lemma Runs.of_le (hp : i ≤ tokens.count → Runs tokens i p q Q) : Runs tokens i p q Q :=
  fun s s' hs => hp hs.le s s' hs

lemma runs_pure {a : α} {b : β} (h : Q i a b) : Runs tokens i (pure a) (pure b) Q :=
  fun _ _ hs => .ok .refl hs h

/-- A choice that both make in the same way. -/
lemma Runs.ite {c c' : Prop} [Decidable c] [Decidable c'] (hc : c ↔ c')
    (hp : c → Runs tokens i p q Q) (hq : ¬ c → Runs tokens i p' q' Q) :
    Runs tokens i (if c then p else p') (if c' then q else q') Q := by
  by_cases h : c
  · rw [if_pos h, if_pos (hc.mp h)]
    exact hp h
  · rw [if_neg h, if_neg (mt hc.mpr h)]
    exact hq h

lemma Runs.map {k : α → γ} {l : β → δ} (hp : Runs tokens i p q fun j a b => R j (k a) (l b)) :
    Runs tokens i (k <$> p) (l <$> q) R := by
  rw [map_eq_pure_bind, map_eq_pure_bind]
  exact hp.bind fun _ _ _ _ _ h => runs_pure h

lemma runs_look {k : ParserState → α} {l : ParserState → β}
    (hf : ∀ s s', At tokens i s s' → Runs tokens i (f (k s)) (g (l s')) R)
    (hp : ∀ s, p s = .ok (k s) s) (hq : ∀ s, q s = .ok (l s) s) :
    Runs tokens i (p >>= f) (q >>= g) R := by
  intro s s' hs
  simp only [Bind.bind, EStateM.bind, hp, hq]
  exact hf s s' hs s s' hs

/-! ## Tokens -/

section Tokens

variable {f : Token → Parser γ} {g : Token → Parser δ}

lemma runs_peek
    (hf : ∀ t', (tokens.token i).Like t' → Runs tokens i (f (tokens.token i)) (g t') R) :
    Runs tokens i (peek >>= f) (peek >>= g) R :=
  runs_look (fun _ _ hs => hs.next.symm ▸ hf _ hs.alike_next.like) (fun _ => rfl) fun _ => rfl

lemma runs_peekNext
    (hf : ∀ t', (tokens.token (i + 1)).Like t' → Runs tokens i (f (tokens.token (i + 1))) (g t') R) :
    Runs tokens i (peekNext >>= f) (peekNext >>= g) R :=
  runs_look (fun _ _ hs => hs.nextNext.symm ▸ hf _ (hs.nextNext ▸
    (headD_alike (List.forall₂_drop 1 hs.alike.rest) hs.alike.finish).like)) (fun _ => rfl)
    fun _ => rfl

lemma runs_previous (hi : 0 < i)
    (hf : ∀ t', (tokens.token (i - 1)).Like t' → Runs tokens i (f (tokens.token (i - 1))) (g t') R) :
    Runs tokens i (previous >>= f) (previous >>= g) R := by
  intro s s' hs
  obtain ⟨t', before', hbefore, hbefore', ht⟩ := hs.before_eq_cons hi
  simp only [Bind.bind, EStateM.bind, previous, hbefore, hbefore']
  exact hf t' ht s s' hs

lemma runs_advance_of_lt (hlt : i < tokens.count)
    (hf : ∀ t', (tokens.token i).Like t' → Runs tokens (i + 1) (f (tokens.token i)) (g t') R) :
    Runs tokens i (advance >>= f) (advance >>= g) R := by
  intro s s' hs
  obtain ⟨t', rest', hrest, ht, hnext⟩ := hs.advance hlt
  simp only [Bind.bind, EStateM.bind, advance, hs.rest, Tokens.drop_eq_cons hlt, hrest]
  exact (hf t' ht _ _ hnext).mono (Nat.le_succ i)

lemma runs_advance (hvalue : (tokens.token i).value ≠ .endOfFile)
    (hf : i < tokens.count → ∀ t', (tokens.token i).Like t' →
      Runs tokens (i + 1) (f (tokens.token i)) (g t') R) :
    Runs tokens i (advance >>= f) (advance >>= g) R := by
  intro s s' hs
  have hlt := hs.lt_of_value hvalue
  exact runs_advance_of_lt hlt (hf hlt) s s' hs

/-- Taking a token that is known not to be the end. -/
lemma runs_step (hvalue : (tokens.token i).value = value) (hend : value != .endOfFile)
    (hf : i < tokens.count → ∀ t', (tokens.token i).Like t' →
      Runs tokens (i + 1) (f (tokens.token i)) (g t') R) :
    Runs tokens i (advance >>= f) (advance >>= g) R :=
  runs_advance (hvalue ▸ bne_iff_ne.mp hend) hf

/-- Taking a token, or staying behind the last one. -/
lemma runs_advance_of_pos (hi : 0 < i)
    (hf : ∀ j t t', i ≤ j → j ≤ tokens.count → t.Like t' → Runs tokens j (f t) (g t') R) :
    Runs tokens i (advance >>= f) (advance >>= g) R := by
  rcases Nat.lt_or_ge i tokens.count with hlt | hge
  · exact runs_advance_of_lt hlt fun t' => hf (i + 1) _ t' (Nat.le_succ i) hlt
  · intro s s' hs
    have hrest := hs.alike.rest
    rw [hs.rest, List.drop_eq_nil_of_le hge] at hrest
    obtain ⟨t', before', hbefore, hbefore', ht⟩ := hs.before_eq_cons hi
    simp only [Bind.bind, EStateM.bind, advance, hs.rest, List.drop_eq_nil_of_le hge,
      List.forall₂_nil_left_iff.mp hrest, previous, hbefore, hbefore']
    exact hf i _ t' .refl hs.le ht s s' hs

end Tokens

lemma runs_atEnd {f : Bool → Parser γ} {g : Bool → Parser δ}
    (hf : ∀ b, Runs tokens i (f b) (g b) R) : Runs tokens i (atEnd >>= f) (atEnd >>= g) R := by
  refine runs_look (fun s s' hs => ?_) (fun _ => rfl) fun _ => rfl
  have hrest := hs.alike.rest
  generalize s.rest = rest, s'.rest = rest' at hrest
  cases hrest with
  | nil => exact hf true
  | cons => exact hf false

/-- Stopping because of a token whose symbol stands for a name. -/
lemma failAt_eq_error (t : Token) (issue : ParseIssue) (s : ParserState) :
    ∃ e, (failAt t issue : Parser α) s = .error e s ∧
      ((∀ symbol, t.value.symbol? = some symbol → ∃ text, s.names.get? symbol = some text) →
        e.issue = issue) := by
  have hsymbol : ∀ {symbol}, t.value.symbol? = some symbol → ∃ e,
      ((do return "at '" ++ (← nameOf symbol) ++ "'" : Parser String) >>= fun item =>
        (throw ⟨t.line, item, issue⟩ : Parser α)) s = .error e s ∧
      ((∀ symbol, t.value.symbol? = some symbol → ∃ text, s.names.get? symbol = some text) →
        e.issue = issue) := by
    intro symbol hvalue
    simp only [Bind.bind, EStateM.bind, nameOf]
    cases hname : s.names.get? symbol with
    | some text => exact ⟨_, rfl, fun _ => rfl⟩
    | none =>
      refine ⟨_, rfl, fun hnamed => ?_⟩
      obtain ⟨text, htext⟩ := hnamed symbol hvalue
      rw [hname] at htext
      cases htext
  unfold failAt itemOf
  split
  · next hvalue => exact hsymbol (congrArg TokenValue.symbol? hvalue)
  · next hvalue => exact hsymbol (congrArg TokenValue.symbol? hvalue)
  · next hvalue => exact hsymbol (congrArg TokenValue.symbol? hvalue)
  · exact ⟨_, rfl, fun _ => rfl⟩
  · exact ⟨_, rfl, fun _ => rfl⟩

lemma runs_failAt (k : Nat) (t' : Token) (h : issue.isInternal = false) :
    Runs tokens i (failAt (tokens.token k) issue) (failAt t' issue') Q := by
  intro s s' hs
  obtain ⟨e, he, hissue⟩ := failAt_eq_error (α := α) (tokens.token k) issue s
  obtain ⟨e', he', -⟩ := failAt_eq_error (α := β) t' issue' s'
  rw [he, he']
  exact .error (hissue (fun _ => hs.exists_text) ▸ h)

lemma runs_failHere (h : issue.isInternal = false) :
    Runs tokens i (failHere issue) (failHere issue') Q :=
  runs_peek fun t' _ => runs_failAt i t' h

/-- What would come after a failure does not matter. -/
lemma runs_failHere_bind (h : issue.isInternal = false) :
    Runs tokens i (failHere issue >>= f) (failHere issue' >>= g) R :=
  Runs.bind (runs_failHere (Q := fun _ _ _ => False) h) fun _ _ _ _ _ h => h.elim

section Conditions

variable {f : Bool → Parser γ} {g : Bool → Parser δ}

lemma runs_nextIs (hvalue : value.symbol? = none)
    (hf : ∀ b, (b = true ↔ (tokens.token i).value = value) → Runs tokens i (f b) (g b) R) :
    Runs tokens i (nextIs value >>= f) (nextIs value >>= g) R :=
  Runs.bind_here (runs_peek fun _ ht => runs_pure ⟨rfl, ht.decide_eq hvalue, decide_eq_true_iff⟩) hf

lemma runs_nextIsWord {word : String}
    (hf : ∀ b, (b = true → (tokens.token i).value ≠ .endOfFile) → Runs tokens i (f b) (g b) R) :
    Runs tokens i (nextIsWord word >>= f) (nextIsWord word >>= g) R := by
  intro s s' hs
  have hvalue := hs.alike_next.value
  simp only [Bind.bind, EStateM.bind, nextIsWord, peek, hs.next]
  generalize (tokens.token i).value = v, (s'.rest.headD s'.finish).value = v' at hvalue hf
  cases hvalue with
  | identifier h =>
    obtain ⟨text, htext, htext'⟩ := h
    simp only [EStateM.bind, nameOf, htext, htext']
    exact hf _ (fun _ => TokenValue.noConfusion) s s' hs
  | _ =>
    refine hf false (fun h => ?_) s s' hs
    cases h

lemma runs_atStatementEnd (hf : ∀ b, Runs tokens i (f b) (g b) R) :
    Runs tokens i (atStatementEnd >>= f) (atStatementEnd >>= g) R := by
  refine Runs.bind_here (S := fun _ => True) (runs_peek fun t' ht => runs_pure ⟨rfl, ?_, trivial⟩)
    fun b _ => hf b
  rw [ht.decide_eq rfl, ht.decide_eq rfl, ht.decide_eq rfl, ht.newline]

end Conditions

/-- Whether the token `i` was taken. -/
inductive Took (tokens : Tokens) (i : Nat) (value : TokenValue) :
    Nat → Option Token → Option Token → Prop
  | yes (hlt : i < tokens.count) (h : (tokens.token i).value = value) {t' : Token} :
      Took tokens i value (i + 1) (some (tokens.token i)) (some t')
  | no (h : (tokens.token i).value ≠ value) : Took tokens i value i none none

lemma runs_take? (hvalue : value.symbol? = none) (hend : value != .endOfFile) :
    Gives tokens i (take? value) (Took tokens i value) := by
  refine runs_nextIs hvalue fun b hb => .ite Iff.rfl (fun h => ?_) fun h =>
    runs_pure (.no fun heq => h (hb.mpr heq))
  have heq := hb.mp h
  exact runs_step heq hend fun hlt _ _ => runs_pure (.yes hlt heq)

lemma runs_takeMark? :
    Gives tokens i (takeMark? mark) (Took tokens i (.punct mark)) :=
  runs_take? rfl rfl

lemma runs_takeKeyword? :
    Gives tokens i (takeKeyword? word) (Took tokens i (.keyword word)) :=
  runs_take? rfl rfl

/-- A choice whether a token can be taken. -/
lemma runs_ifTaken (ho : Gives tokens i o (Took tokens i value))
    (hp : i < tokens.count → Runs tokens (i + 1) p q Q) (hq : Runs tokens i p' q' Q) :
    Runs tokens i (do if (← o).isSome then p else p') (do if (← o).isSome then q else q') Q := by
  refine ho.bind fun j t t' _ _ ht => ?_
  cases ht with
  | yes hlt => exact hp hlt
  | no => exact hq

lemma runs_expected {k : Option Token → Parser Token} {f : Token → Parser γ}
    {g : Token → Parser δ} (ho : Gives tokens i o (Took tokens i value))
    (hissue : issue.isInternal = false) (hsome : ∀ t, k (some t) = pure t)
    (hnone : k none = failHere issue)
    (hf : i < tokens.count → ∀ t', (tokens.token i).value = value →
      Runs tokens (i + 1) (f (tokens.token i)) (g t') R) :
    Runs tokens i ((o >>= k) >>= f) ((o >>= k) >>= g) R := by
  rw [bind_assoc, bind_assoc]
  refine ho.bind fun j t t' _ _ ht => ?_
  cases ht with
  | yes hlt hvalue =>
    rw [hsome, hsome, pure_bind, pure_bind]
    exact hf hlt _ hvalue
  | no =>
    rw [hnone]
    exact runs_failHere_bind hissue

lemma runs_mark {f : Token → Parser γ} {g : Token → Parser δ}
    (hf : i < tokens.count → ∀ t', (tokens.token i).value = .punct mark →
      Runs tokens (i + 1) (f (tokens.token i)) (g t') R) :
    Runs tokens i (Parser.mark mark >>= f) (Parser.mark mark >>= g) R :=
  runs_expected runs_takeMark? rfl (fun _ => rfl) rfl hf

lemma runs_keyword {f : Token → Parser γ} {g : Token → Parser δ}
    (hf : i < tokens.count → ∀ t', (tokens.token i).value = .keyword word →
      Runs tokens (i + 1) (f (tokens.token i)) (g t') R) :
    Runs tokens i (keyword word >>= f) (keyword word >>= g) R :=
  runs_expected runs_takeKeyword? rfl (fun _ => rfl) rfl hf

lemma runs_word {word : String} :
    Gives tokens i (Parser.word word) fun j _ _ => i < j := by
  refine runs_nextIsWord fun b hb => .ite Iff.rfl (fun h => ?_) fun _ => runs_failHere rfl
  exact runs_advance (hb h) fun _ _ _ => runs_pure .refl

/-- Taking a token of a given value. -/
lemma runs_taken {a : α} {b : β} (hvalue : (tokens.token i).value = value)
    (hend : value != .endOfFile) :
    Runs tokens i (do let _ ← advance; return a) (do let _ ← advance; return b)
      fun j _ _ => i < j :=
  runs_step hvalue hend fun _ _ _ => runs_pure .refl

lemma runs_identifier : Gives tokens i identifier fun j _ _ => i < j := by
  refine runs_peek fun t' ⟨⟨_, _, hlike⟩, _⟩ => ?_
  generalize hvalue : (tokens.token i).value = v, t'.value = v' at hlike
  cases hlike with
  | identifier => exact runs_taken hvalue rfl
  | _ => exact runs_failHere rfl

lemma runs_stringLiteral : Gives tokens i stringLiteral fun j _ _ => i < j := by
  refine runs_peek fun t' ⟨⟨_, _, hlike⟩, _⟩ => ?_
  generalize hvalue : (tokens.token i).value = v, t'.value = v' at hlike
  cases hlike with
  | string => exact runs_taken hvalue rfl
  | _ => exact runs_failHere rfl

lemma ends_propertyName {f : Symbol → Parser γ} {g : Symbol → Parser δ}
    (hf : ∀ name name' s s', i < tokens.count → At tokens (i + 1) s s' →
      s.names.Agree s'.names name name' → Ends tokens (i + 1) R (f name s) (g name' s')) :
    Runs tokens i (propertyName >>= f) (propertyName >>= g) R := by
  have htaken : ∀ {s s'} {name name' : Symbol}, (tokens.token i).value ≠ .endOfFile →
      At tokens i s s' → s.names.Agree s'.names name name' → Ends tokens i R
        (((do let _ ← advance; return name) >>= f) s)
        (((do let _ ← advance; return name') >>= g) s') := by
    intro s s' name name' hvalue hs h
    have hlt := hs.lt_of_value hvalue
    obtain ⟨t', rest', hrest, ht, hnext⟩ := hs.advance hlt
    simp only [Bind.bind, EStateM.bind, advance, hs.rest, Tokens.drop_eq_cons hlt, hrest]
    exact (hf name name' _ _ hlt hnext h).mono (Nat.le_succ i)
  intro s s' hs
  have hlike := hs.alike_next.value
  unfold propertyName
  rw [bind_assoc, bind_assoc]
  change Ends tokens i R ((_ >>= f) s) ((_ >>= g) s')
  rw [hs.next]
  generalize hvalue : (tokens.token i).value = v, (s'.rest.headD s'.finish).value = v' at hlike
  cases hlike with
  | identifier h | number h | string h => exact htaken (hvalue ▸ TokenValue.noConfusion) hs h
  | keyword word =>
    -- the symbol of a keyword may be a new one
    exact htaken (hvalue ▸ TokenValue.noConfusion)
      (hs.extend (s.names.extends_number _) (s'.names.extends_number _))
      ⟨word.text, Numbering.get?_number _ _, Numbering.get?_number _ _⟩
  | template | punct | endOfFile => exact runs_failHere_bind rfl s s' hs

lemma runs_propertyName {f : Symbol → Parser γ} {g : Symbol → Parser δ}
    (hf : ∀ name name', i < tokens.count → Runs tokens (i + 1) (f name) (g name') R) :
    Runs tokens i (propertyName >>= f) (propertyName >>= g) R :=
  ends_propertyName fun name name' s s' hlt hs _ => hf name name' hlt s s' hs

lemma runs_propertyName_nameOf {f : Symbol → String → Parser γ} {g : Symbol → String → Parser δ}
    (hf : ∀ name name' text, i < tokens.count →
      Runs tokens (i + 1) (f name text) (g name' text) R) :
    Runs tokens i (propertyName >>= fun name => nameOf name >>= f name)
      (propertyName >>= fun name => nameOf name >>= g name) R := by
  refine ends_propertyName fun name name' s s' hlt hs h => ?_
  obtain ⟨text, htext, htext'⟩ := h
  simp only [Bind.bind, EStateM.bind, nameOf, htext, htext']
  exact hf name name' text hlt s s' hs

lemma runs_semicolon : Gives tokens i semicolon fun _ _ _ => True := by
  refine runs_ifTaken runs_takeMark? (fun _ => runs_pure trivial) (runs_atStatementEnd fun b => ?_)
  exact .ite Iff.rfl (fun _ => runs_pure trivial) fun _ => runs_failHere rfl

/-! ## Constructs -/

/-- A construct for the role, and one of the other table that can be assigned to in the
same way. -/
structure FoundFrom (tokens : Tokens) (role : Role) (early : Option Nat) (i j : Nat) (t t' : Tree) :
    Prop where
  reads : t.ReadsFrom tokens role early i j
  like  : t.Like t'

lemma FoundFrom.mono {i j i' j' : Nat} {t t' : Tree}
    (h : FoundFrom tokens role early i j t t') (hij : i' ≤ i ∧ j ≤ j') :
    FoundFrom tokens role early i' j' t t' :=
  ⟨h.reads.mono hij, h.like⟩

abbrev Found (tokens : Tokens) (role : Role) : Nat → Nat → Tree → Tree → Prop :=
  FoundFrom tokens role none

lemma FoundFrom.loose {i j : Nat} {t t' : Tree}
    (h : Found tokens role i j t t') : FoundFrom tokens role early i j t t' :=
  ⟨h.reads.loose, h.like⟩

def Finds (tokens : Tokens) (role : Role) (i : Nat) (p : Parser Tree) : Prop :=
  Gives tokens i p (Found tokens role i)

section Constructs

variable {role : Role} {p q : Parser Tree} {f : Tree → Parser γ} {g : Tree → Parser δ} {j k : Nat}
  {form form' : Form Tree} {start' : Token} {roles : List Role}

lemma Finds.bind (hp : Finds tokens role i p)
    (hf : ∀ j t t', i < j → j ≤ tokens.count → Found tokens role i j t t' →
      Runs tokens j (f t) (g t') R) : Runs tokens i (p >>= f) (p >>= g) R :=
  Runs.bind hp fun j t t' _ hj ht => hf j t t' ht.reads.lt hj ht

/-- The construct may be missing on both sides. -/
structure MaybeFound (tokens : Tokens) (role : Role) (i j : Nat) (r r' : Option Tree) : Prop where
  reads  : Tree.AllRead tokens role i j r.toList
  isNone : r.isNone = r'.isNone

lemma maybeFound_none (hij : i ≤ j) : MaybeFound tokens role i j none none := ⟨.nil hij, rfl⟩

lemma MaybeFound.mono {i' j' : Nat} {r r' : Option Tree} (h : MaybeFound tokens role i j r r')
    (hij : i' ≤ i ∧ j ≤ j') : MaybeFound tokens role i' j' r r' :=
  ⟨h.reads.mono hij, h.isNone⟩

lemma Finds.some (hp : Finds tokens role i p) :
    Gives tokens i (Option.some <$> p) (MaybeFound tokens role i) :=
  .map (Runs.imp hp fun _ _ _ _ _ ht => ⟨.one ht.reads, rfl⟩)

section Optional

variable {rest : Option Tree → Parser γ} {rest' : Option Tree → Parser δ}
  (hrest : ∀ l r r', i ≤ l → l ≤ tokens.count → MaybeFound tokens role i l r r' →
    Runs tokens l (rest r) (rest' r') R)
include hrest

lemma runs_without (hij : i ≤ j) : Runs tokens j (rest none) (rest' none) R :=
  .of_le fun hj => hrest j none none hij hj (maybeFound_none hij)

lemma Finds.optional (hij : i ≤ j) (hp : Finds tokens role j p) :
    Runs tokens j (Option.some <$> p >>= rest) (Option.some <$> p >>= rest') R :=
  hp.some.bind fun l r r' hjl hl hr =>
    hrest l r r' (Nat.le_trans hij hjl) hl (hr.mono ⟨hij, .refl⟩)

/-- A construct that is there if a token can be taken. -/
lemma runs_optional (ho : Gives tokens i o (Took tokens i value))
    (hp : i < tokens.count → Finds tokens role (i + 1) p) :
    Runs tokens i (do if (← o).isSome then Option.some <$> p >>= rest else rest none)
      (do if (← o).isSome then Option.some <$> p >>= rest' else rest' none) R :=
  runs_ifTaken ho (fun hlt => (hp hlt).optional hrest (Nat.le_succ i)) (runs_without hrest .refl)

end Optional

/-- A construct gets its place from the token it starts at and the last one taken. -/
lemma runs_make_of {Q : Nat → Tree → Tree → Prop} (hkj : k < j)
    (h : ∀ span', Q j (.node (tokens.span k j) form) (.node span' form')) :
    Runs tokens j (make form (tokens.token k)) (make form' start') Q := by
  intro s s' hs
  refine .ok .refl hs ?_
  obtain ⟨_, _, hbefore, -⟩ := hs.before_eq_cons (Nat.zero_lt_of_lt hkj)
  rw [hbefore]
  exact h _

lemma found_node {lead : Lead} (hij : i < j)
    (hroles : form.roles role = some roles) (hlead : form.lead = lead) (hnamed : lead ≠ .nameless)
    (hlike : form.Like form')
    (hparts : Tree.PartsRead tokens (i + lead.tokens) j roles form.children) (span' : Span) :
    Found tokens role i j (.node (tokens.span i j) form) (.node span' form') :=
  ⟨Tree.reads_whole rfl .refl hij .refl hroles
    (fun _ h => absurd (hlead.symm.trans h) hnamed) (hlead ▸ hparts), Tree.like_node hlike⟩

lemma runs_make (hij : i < j) (hroles : form.roles role = some roles)
    (hlead : form.lead = .part) (hlike : form.Like form')
    (hparts : Tree.PartsRead tokens i j roles form.children) :
    Runs tokens j (make form (tokens.token i)) (make form' start') (Found tokens role i) :=
  runs_make_of hij (found_node hij hroles hlead Lead.noConfusion hlike hparts)

/-- A construct with a token of its own before its parts. -/
lemma runs_open (hij : i < j) (hroles : form.roles role = some roles)
    (hlead : form.lead = .mark) (hlike : form.Like form')
    (hparts : Tree.PartsRead tokens (i + 1) j roles form.children) :
    Runs tokens j (make form (tokens.token i)) (make form' start') (Found tokens role i) :=
  runs_make_of hij (found_node hij hroles hlead Lead.noConfusion hlike hparts)

/-- Making a construct takes no token. -/
lemma runs_make_bind {r : Role} (hij : i < j) (hroles : form.roles r = some roles)
    (hlead : form.lead = .part) (hlike : form.Like form')
    (hparts : Tree.PartsRead tokens i j roles form.children)
    (hf : ∀ t t', Found tokens r i j t t' → Runs tokens j (f t) (g t') R) :
    Runs tokens j (make form (tokens.token i) >>= f) (make form' start' >>= g) R := by
  refine Runs.bind (Q := fun l t t' => l = j ∧ Found tokens r i j t t') (runs_make_of hij
    fun span' => ⟨rfl, found_node hij hroles hlead Lead.noConfusion hlike hparts span'⟩) ?_
  rintro _ t t' - - ⟨rfl, ht⟩
  exact hf t t' ht

end Constructs

lemma runs_setNoIn {noIn : Bool} {f : Unit → Parser γ} {g : Unit → Parser δ}
    (hf : Runs tokens i (f ()) (g ()) R) :
    Runs tokens i (modify (fun s => { s with noIn }) >>= f)
      (modify (fun s => { s with noIn }) >>= g) R :=
  fun _ _ hs => hf _ _ ⟨hs.le, hs.before, hs.rest, hs.finish, hs.ends,
    hs.alike.before, hs.alike.rest, hs.alike.finish, rfl⟩

lemma Runs.withNoIn {noIn : Bool} (hp : Runs tokens i p q Q) :
    Runs tokens i (withNoIn noIn p) (withNoIn noIn q) Q := by
  refine runs_look (k := id) (l := id) (fun s s' hs => ?_) (fun _ => rfl) fun _ => rfl
  have hnoIn : (id s).noIn = (id s').noIn := hs.alike.noIn
  rw [hnoIn]
  exact runs_setNoIn (hp.bind fun _ _ _ _ _ ha => runs_setNoIn (runs_pure ha))

lemma Runs.inForHead (hp : Runs tokens i p q Q) :
    Runs tokens i (inForHead p) (inForHead q) Q :=
  runs_setNoIn (hp.bind fun _ _ _ _ _ ha => runs_setNoIn (runs_pure ha))

lemma runs_asPattern {t t' : Tree} {k l : Nat} (ht : Found tokens .plain k l t t') :
    Runs tokens i (asPattern t) (asPattern t') fun j u _ =>
      j = i ∧ t.toPattern = .ok u ∧ u.Reads tokens (.pattern .assigns) k l := by
  intro s s' hs
  have hturns : t.toPattern.isOk = t'.toPattern.isOk := ht.like.turns
  have hread := fun u => ht.reads.toPattern (u := u)
  unfold asPattern
  generalize t.toPattern = result, t'.toPattern = result' at hturns hread
  cases result with
  | ok u =>
    cases result' with
    | ok => exact .ok .refl hs ⟨rfl, rfl, hread u rfl⟩
    | error => cases hturns
  | error =>
    cases result' with
    | ok => cases hturns
    | error => exact .error rfl

/-! ## Loops -/

lemma runs_rounds {f : Nat → Parser γ} {g : Nat → Parser δ}
    (hf : ∀ fuel, tokens.count - i < fuel → Runs tokens i (f fuel) (g fuel) R) :
    Runs tokens i (rounds >>= f) (rounds >>= g) R := by
  refine runs_look (fun s s' hs => ?_) (fun _ => rfl) fun _ => rfl
  rw [← hs.alike.rest.length_eq, hs.rest, List.length_drop]
  exact hf _ .refl

section While

variable {role : Role} {go : Parser Bool} {item : Parser Tree}
  (hgo : ∀ j, i ≤ j → Gives tokens j go fun _ b b' => b = b')
  (hitem : ∀ j, i ≤ j → j ≤ tokens.count → Finds tokens role j item)
include hgo hitem

lemma runs_whileSteps (fuel : Nat) {j : Nat} (hij : i ≤ j) (hfuel : tokens.count - j < fuel) :
    Gives tokens j (whileSteps go item fuel) fun k ts _ =>
      Tree.AllRead tokens role j k ts := by
  induction fuel generalizing j with
  | zero => omega
  | succ fuel ih =>
    refine (hgo j hij).bind fun k b b' hjk hk hb => .ite (by rw [hb]) (fun _ => ?_)
      fun _ => runs_pure (.nil hjk)
    -- the item takes a token, so there are steps left for the others
    refine (hitem k (by omega) hk).bind fun l t t' hkl hl ht => ?_
    exact (ih (by omega) (by omega)).bind fun m ts _ hlm _ hts => runs_pure (.cons hjk ht.reads hts)

lemma runs_repeatWhile : Gives tokens i (repeatWhile go item)
    fun j ts _ => Tree.AllRead tokens role i j ts :=
  runs_rounds fun fuel hfuel => runs_whileSteps hgo hitem fuel .refl hfuel

end While

section Items

def AllFound (P : Nat → Nat → α → Prop) (S : α → β → Prop) (i j : Nat) (as : List α)
    (bs : List β) : Prop :=
  InOrder P i j as ∧ List.Forall₂ S as bs

/-- An item, with the same behind it on both sides. -/
def Item (P : Nat → Nat → α → Prop) (S : α → β → Prop) (j k : Nat) (r : α × Follow)
    (r' : β × Follow) : Prop :=
  j < k ∧ P j k r.1 ∧ S r.1 r'.1 ∧ r.2 = r'.2

variable {close : Punctuator} {item : Parser (α × Follow)} {item' : Parser (β × Follow)}
  {P : Nat → Nat → α → Prop} {S : α → β → Prop}
  (hitem : ∀ j, i ≤ j → j ≤ tokens.count → Runs tokens j item item' (Item P S j))
include hitem

lemma runs_itemSteps (fuel : Nat) {j : Nat} (hij : i ≤ j) (hfuel : tokens.count - j < fuel) :
    Runs tokens j (itemSteps close item fuel) (itemSteps close item' fuel) (AllFound P S j) := by
  induction fuel generalizing j with
  | zero => omega
  | succ fuel ih =>
    refine .of_le fun hj => runs_nextIs rfl fun _ _ => .ite Iff.rfl
      (fun _ => runs_pure ⟨.nil .refl, .nil⟩) fun _ => ?_
    refine (hitem j hij hj).bind ?_
    rintro k ⟨a, follow⟩ ⟨b, _⟩ - hk ⟨hjk, ha, hab, rfl⟩
    have hone : ∀ l, k ≤ l → Runs tokens l (pure [a]) (pure [b]) (AllFound P S j) := fun l hkl =>
      runs_pure ⟨.cons .refl ha (.nil hkl), .cons hab .nil⟩
    have hmore : ∀ l, k ≤ l → l ≤ tokens.count →
        Runs tokens l (do return a :: (← itemSteps close item fuel))
          (do return b :: (← itemSteps close item' fuel)) (AllFound P S j) := by
      intro l hkl hl
      refine (ih (by omega) (by omega)).bind fun m as bs hlm _ ⟨has, hbs⟩ => runs_pure ?_
      exact ⟨.cons .refl ha (has.mono ⟨hkl, Nat.le_refl m⟩), .cons hab hbs⟩
    cases follow with
    | close => exact hone k .refl
    | item => exact hmore k .refl hk
    | comma =>
      exact runs_ifTaken runs_takeMark? (fun hlt => hmore (k + 1) (Nat.le_succ k) hlt)
        (hone k .refl)

lemma runs_itemsUpTo :
    Runs tokens i (itemsUpTo close item) (itemsUpTo close item') (AllFound P S i) :=
  runs_rounds fun fuel hfuel => runs_itemSteps hitem fuel .refl hfuel

end Items

lemma runs_treesUpTo {item : Parser (Tree × Follow)}
    (hitem : ∀ j, i ≤ j → j ≤ tokens.count → Gives tokens j item fun k r r' =>
      Found tokens role j k r.1 r'.1 ∧ r.2 = r'.2) :
    Gives tokens i (itemsUpTo close item)
      (AllFound (Tree.Reads tokens role) Tree.Like i) :=
  runs_itemsUpTo fun j hij hj => (hitem j hij hj).imp
    fun _ _ _ _ _ ⟨ht, hfollow⟩ => ⟨ht.reads.lt, ht.reads, ht.like, hfollow⟩

def HoleReads (tokens : Tokens) (role : Role) (i j : Nat) (hole : Option Tree) : Prop :=
  Tree.AllRead tokens role i j hole.toList

lemma runs_holesUpTo {item : Parser (Option Tree × Follow)}
    (hitem : ∀ j, i ≤ j → j ≤ tokens.count →
      Gives tokens j item (Item (HoleReads tokens role) (Option.Rel Tree.Like) j)) :
    Gives tokens i (itemsUpTo close item) fun j es es' =>
      Tree.AllRead tokens role i j (es.filterMap id) ∧ List.Forall₂ (Option.Rel Tree.Like) es es' :=
  (runs_itemsUpTo hitem).imp fun _ _ _ _ _ ⟨hes, hlike⟩ => ⟨Tree.AllRead.filterMap hes, hlike⟩

lemma runs_commaItems {item : Parser Tree}
    (hitem : ∀ j, i ≤ j → j ≤ tokens.count → Finds tokens role j item) :
    Gives tokens i (commaItems close item)
      (AllFound (Tree.Reads tokens role) Tree.Like i) :=
  runs_treesUpTo fun j hij hj => (hitem j hij hj).bind fun _ _ _ _ _ ht => runs_pure ⟨ht, rfl⟩

end Parser

end ValueFlow
