import ValueFlow.Proofs.Grammar.Reading

/-!
# Operators by level

A sequence of operands with operators between them has many readings as a tree, and
one in which every operator has operands that bind tighter. Reading from the left
builds this tree: an operator with its operand joins the tree so far at the place on
its right edge where the levels fit.

The parser never goes back to that edge. It takes the operators of a level in a loop and
has the right operands read at the level that the operator asks for, so what stands to
the left of an operator is complete when the operator is reached.
-/

namespace ValueFlow

namespace Operator

variable {o p : Operator}

lemma level_le (o : Operator) : o.level ≤ 11 ∧ (o.level = 11 ↔ o = .binary .exp) := by
  cases o with
  | binary op | logical op => cases op <;> decide

lemma level_pos (o : Operator) : 1 ≤ o.level := by
  cases o with
  | binary op | logical op => cases op <;> decide

lemma level_le_rightLevel (o : Operator) : o.level ≤ o.rightLevel := by
  unfold rightLevel
  split <;> omega

lemma rightLevel_le (o : Operator) : o.rightLevel ≤ o.level + 1 := by
  unfold rightLevel
  split <;> omega

lemma isLink_of_ofToken? {v : TokenValue} (h : ofToken? v = some o) :
    Grammar.isLink v = false := by
  cases v with
  | punct mark => cases mark <;> first | rfl | cases h
  | _ => rfl

end Operator

/-! ## Readings of a sequence -/

def operandForm? : TokenValue → Option (Form Tree)
  | .number text => some (.number text)
  | .string value => some (.string value)
  | .template .whole quasi => some (.template [quasi] [])
  | .keyword .trueKw => some (.bool true)
  | .keyword .falseKw => some (.bool false)
  | .keyword .null => some .null
  | .keyword .undefined => some .undefined
  | .keyword .this => some .this
  | .identifier name => some (.identifier name)
  | _ => none

structure Operand where
  token   : Token
  form    : Form Tree
  spelled : operandForm? token.value = some form

/-- An operator between two operands. -/
structure Joint where
  token   : Token
  op      : Operator
  spelled : Operator.ofToken? token.value = some op

abbrev Joints := List (Joint × Operand)

def Joints.tokens (xs : Joints) : List Token := xs.flatMap fun (o, y) => [o.token, y.token]

lemma Joints.tokens_append (xs ys : Joints) : (xs ++ ys).tokens = xs.tokens ++ ys.tokens :=
  List.flatMap_append

lemma Joints.length_tokens (xs : Joints) : xs.tokens.length = 2 * xs.length := by
  induction xs with
  | nil => rfl
  | cons x xs ih =>
    rw [List.length_cons, Nat.mul_add, ← ih]
    rfl

def Joints.upToIn (noIn : Bool) (xs : Joints) : Joints :=
  if noIn then xs.takeWhile (·.1.token.value ≠ .keyword .inKw) else xs

/-- The operators from the first `in` on, where this is no operator. -/
def Joints.fromIn (noIn : Bool) (xs : Joints) : Joints :=
  if noIn then xs.dropWhile (·.1.token.value ≠ .keyword .inKw) else []

lemma Joints.upToIn_append_fromIn (noIn : Bool) (xs : Joints) :
    xs.upToIn noIn ++ xs.fromIn noIn = xs := by
  cases noIn with
  | true => exact List.takeWhile_append_dropWhile
  | false => exact List.append_nil xs

variable {q : Joint × Operand}

lemma Joints.ne_in_of_upToIn {xs : Joints} (h : q ∈ xs.upToIn true) :
    q.1.token.value ≠ .keyword .inKw := by
  simpa using List.mem_takeWhile_imp h

lemma Joints.in_of_fromIn {noIn : Bool} {xs more : Joints}
    (h : xs.fromIn noIn = q :: more) : noIn = true ∧ q.1.token.value = .keyword .inKw := by
  cases noIn with
  | true =>
    have hhead := List.head?_dropWhile_not (fun q : Joint × Operand =>
      decide (q.1.token.value ≠ .keyword .inKw)) xs
    rw [show xs.dropWhile _ = q :: more from h] at hhead
    exact ⟨rfl, by simpa using hhead⟩
  | false => cases h

/-- A reading of a sequence as a tree. -/
inductive Infix
  | operand (x : Operand)
  | apply (lhs : Infix) (o : Joint) (rhs : Infix)

namespace Infix

variable {e lhs rhs : Infix} {o : Joint} {y : Operand} {level : Nat}

def first : Infix → Operand
  | operand x => x
  | apply lhs _ _ => lhs.first

def last : Infix → Operand
  | operand x => x
  | apply _ _ rhs => rhs.last

/-- What comes behind the first operand, in order. -/
def joints : Infix → Joints
  | operand _ => []
  | apply lhs o rhs => lhs.joints ++ (o, rhs.first) :: rhs.joints

def tokens (e : Infix) : List Token := e.first.token :: e.joints.tokens

def root? : Infix → Option Operator
  | operand _ => none
  | apply _ o _ => some o.op

/-- The tree with the places of its parts. -/
def tree : Infix → Tree
  | operand x => .node ⟨x.token.line, x.token.start, x.token.stop⟩ x.form
  | apply lhs o rhs =>
    .node ⟨lhs.first.token.line, lhs.first.token.start,
      max rhs.last.token.stop lhs.first.token.stop⟩ (o.op.form lhs.tree rhs.tree)

lemma reverse_tokens (e : Infix) : ∃ ts, e.tokens.reverse = e.last.token :: ts := by
  induction e with
  | operand x => exact ⟨[], rfl⟩
  | apply lhs o rhs _ ih =>
    obtain ⟨ts, hts⟩ := ih
    refine ⟨ts ++ (lhs.tokens ++ [o.token]).reverse, ?_⟩
    rw [last, ← List.cons_append, ← hts, ← List.reverse_append]
    simp [tokens, joints, first, Joints.tokens]

/-- The operator of a left operand binds as tightly as the operator, and that of a right
operand tighter; with `**` it is the other way round. -/
def Graded : Infix → Prop
  | operand _ => True
  | apply lhs o rhs => lhs.Graded ∧ rhs.Graded ∧
    (∀ p ∈ lhs.root?, if o.op = .binary .exp then o.op.level < p.level else o.op.level ≤ p.level) ∧
    ∀ p ∈ rhs.root?, if o.op = .binary .exp then o.op.level ≤ p.level else o.op.level < p.level

lemma graded_apply : (apply lhs o rhs).Graded ↔ lhs.Graded ∧ rhs.Graded ∧
    (∀ p ∈ lhs.root?, o.op.level < p.rightLevel) ∧ ∀ p ∈ rhs.root?, o.op.rightLevel ≤ p.level := by
  have hleft : ∀ p : Operator, (if o.op = .binary .exp then o.op.level < p.level
      else o.op.level ≤ p.level) ↔ o.op.level < p.rightLevel := by
    intro p
    have ho := o.op.level_le
    have hp := p.level_le
    unfold Operator.rightLevel
    split <;> split <;> simp_all <;> omega
  have hright : ∀ p : Operator, (if o.op = .binary .exp then o.op.level ≤ p.level
      else o.op.level < p.level) ↔ o.op.rightLevel ≤ p.level := by
    intro p
    unfold Operator.rightLevel
    split <;> rfl
  simp only [Graded, hleft, hright]

/-- The root binds loosest. -/
lemma Graded.level_le (h : e.Graded) (hroot : ∀ p ∈ e.root?, level ≤ p.level) :
    ∀ q ∈ e.joints, level ≤ q.1.op.level := by
  induction e with
  | operand => exact fun _ hq => absurd hq List.not_mem_nil
  | apply lhs o rhs ihl ihr =>
    obtain ⟨hlhs, hrhs, hleft, hright⟩ := graded_apply.mp h
    have hlevel : level ≤ o.op.level := hroot _ rfl
    refine List.forall_mem_append.mpr ⟨ihl hlhs fun p hp => ?_,
      List.forall_mem_cons.mpr ⟨hlevel, ihr hrhs fun p hp => ?_⟩⟩
    · have := hleft p hp
      have := p.rightLevel_le
      omega
    · have := hright p hp
      have := o.op.level_le_rightLevel
      omega

/-! ## Reading from the left -/

def snoc : Infix → Joint → Operand → Infix
  | operand x, o, y => apply (operand x) o (operand y)
  | apply lhs p rhs, o, y =>
    if o.op.level < p.op.rightLevel then apply (apply lhs p rhs) o (operand y)
    else apply lhs p (rhs.snoc o y)

/-- The reading of a sequence from the left. -/
def build (e : Infix) (xs : Joints) : Infix := xs.foldl (fun e (o, y) => e.snoc o y) e

/-- What binds tighter goes to the right operand. -/
lemma build_apply {xs : Joints} (h : ∀ q ∈ xs, o.op.rightLevel ≤ q.1.op.level) (lhs rhs : Infix) :
    (apply lhs o rhs).build xs = apply lhs o (rhs.build xs) := by
  induction xs generalizing rhs with
  | nil => rfl
  | cons x xs ih =>
    obtain ⟨hx, hxs⟩ := List.forall_mem_cons.mp h
    have hsnoc : (apply lhs o rhs).snoc x.1 x.2 = apply lhs o (rhs.snoc x.1 x.2) :=
      if_neg (Nat.not_lt_of_le hx)
    exact (congrArg (build · xs) hsnoc).trans (ih hxs _)

/-- A graded tree is the reading of its sequence from the left. -/
lemma Graded.eq_build (h : e.Graded) : (operand e.first).build e.joints = e := by
  induction e with
  | operand => rfl
  | apply lhs o rhs ihl ihr =>
    obtain ⟨hlhs, hrhs, hleft, hright⟩ := graded_apply.mp h
    have hsnoc : lhs.snoc o rhs.first = apply lhs o (operand rhs.first) := by
      cases lhs with
      | operand => rfl
      | apply => exact if_pos (hleft _ rfl)
    calc (operand lhs.first).build (lhs.joints ++ (o, rhs.first) :: rhs.joints)
        = (((operand lhs.first).build lhs.joints).snoc o rhs.first).build rhs.joints :=
          List.foldl_append
      _ = apply lhs o ((operand rhs.first).build rhs.joints) := by
          rw [ihl hlhs, hsnoc, build_apply (hrhs.level_le hright)]
      _ = apply lhs o rhs := by rw [ihr hrhs]

end Infix

namespace Grammar

open ValueFlow.Parser

variable {recur : Goal → Parser Tree} {s t : ParserState} {rest : List Token} {start : Token}
  {level n k : Nat} {tree rhs : Tree} {o : Joint}

lemma get_eq (s : ParserState) : (get : Parser ParserState) s = .ok s s := rfl

lemma peek_headD (s : ParserState) : peek s = .ok (s.rest.headD s.finish) s := rfl

lemma peek_eq {u : Token} (hs : s.rest = u :: rest) : peek s = .ok u s := by
  rw [peek, hs]
  rfl

/-- Nothing else starts with an operand of one token. -/
lemma operand_spec {v : TokenValue} {form : Form Tree} (h : operandForm? v = some form) :
    UnaryOp.ofToken? v = none ∧ updateOf? v = none ∧ v ≠ .keyword .await ∧ v ≠ .keyword .new := by
  unfold operandForm? at h
  split at h <;> cases h
  all_goals exact ⟨rfl, rfl, by rintro ⟨⟩, by rintro ⟨⟩⟩

lemma primary_operand (x : Operand) (hs : s.rest = x.token :: rest) :
    primary recur s = leaf x.form s := by
  obtain ⟨u, form, spelled⟩ := x
  unfold primary
  rw [bind_eq (peek_eq hs)]
  unfold operandForm? at spelled
  dsimp only at spelled ⊢
  split at spelled <;> cases spelled
  all_goals
    next hv => rw [hv]

lemma leaf_eq (form : Form Tree) {u : Token} (hs : s.rest = u :: rest) :
    leaf form s = .ok (.node ⟨u.line, u.start, u.stop⟩ form) (s.behind [u] rest) := by
  have hadvance : advance s = .ok u (s.behind [u] rest) := by
    rw [advance, hs]
    rfl
  rw [leaf, bind_eq hadvance, make]
  simp [ParserState.behind]

/-- A chain ends where no link comes. -/
lemma chainFrom_end (h : isLink (s.rest.headD s.finish).value = false) :
    chainFrom recur start (n + 1) tree s = .ok tree s := by
  have hlink : link? recur start tree s = .ok none s := by
    unfold link?
    rw [bind_eq (peek_headD s)]
    generalize (s.rest.headD s.finish).value = v at h
    split
    · cases h
    · cases h
    · cases h
    · cases h
    · rfl
  rw [chainFrom, bind_eq hlink]
  rfl

/-- An operand of one token is read as such, if nothing goes on with it. -/
lemma unary_operand (x : Operand) (hs : s.rest = x.token :: rest)
    (hnext : isLink (rest.headD s.finish).value = false) :
    unary recur s = .ok (Infix.operand x).tree (s.behind [x.token] rest) := by
  obtain ⟨hunary, hupdate, hawait, hnew⟩ := operand_spec x.spelled
  have hchain : chain recur s = .ok (Infix.operand x).tree (s.behind [x.token] rest) := by
    rw [chain, bind_eq (peek_eq hs), if_neg hnew,
      bind_eq ((primary_operand x hs).trans (leaf_eq x.form hs))]
    exact chainFrom_end hnext
  unfold unary
  rw [bind_eq (peek_eq hs), hunary, hupdate, if_neg hawait]
  dsimp only
  unfold trailing
  rw [bind_eq (peek_eq hs), bind_eq hchain, bind_eq (peek_headD (s.behind [x.token] rest))]
  have hbehind := updateOf?_of_isLink (v := ((s.behind [x.token] rest).rest.headD
    (s.behind [x.token] rest).finish).value) hnext
  rw [hbehind]
  rfl

/-! ## The loop -/

def Stops (noIn : Bool) (level : Nat) (v : TokenValue) : Prop :=
  noIn = true ∧ v = .keyword .inKw ∨ ∀ o, Operator.ofToken? v = some o → o.level < level

lemma operatorsFrom_stop (h : Stops s.noIn level (s.rest.headD s.finish).value) :
    operatorsFrom recur start level (n + 1) tree s = .ok tree s := by
  unfold operatorsFrom
  rw [bind_eq (peek_headD s), bind_eq (get_eq s)]
  generalize (s.rest.headD s.finish).value = v at h
  split
  · rfl
  · next hin =>
    cases ho : Operator.ofToken? v with
    | none => rfl
    | some o =>
      obtain ⟨hnoIn, rfl⟩ | h := h
      · exact absurd (by simp [hnoIn]) hin
      · dsimp only
        rw [if_pos (h o ho)]
        rfl

lemma operatorsFrom_step (hs : s.rest = o.token :: rest) (hlevel : level ≤ o.op.level)
    (hin : s.noIn = true → o.token.value ≠ .keyword .inKw)
    (hrhs : recur (.binary o.op.rightLevel) (s.behind [o.token] rest) = .ok rhs t) :
    operatorsFrom recur start level (n + 1) tree s =
      (make (o.op.form tree rhs) start >>= operatorsFrom recur start level n) t := by
  have hadvance : advance s = .ok o.token (s.behind [o.token] rest) := by
    rw [advance, hs]
    rfl
  rw [operatorsFrom, bind_eq (peek_eq hs), bind_eq (get_eq s), if_neg, o.spelled]
  · dsimp only
    rw [if_neg (Nat.not_lt_of_le hlevel), bind_eq hadvance, bind_eq hrhs]
  · simpa [and_comm] using hin

/-- The operators that stand ahead, with `rest` behind them, which does not go on with
them. -/
structure Ahead (s : ParserState) (xs : Joints) (rest : List Token) : Prop where
  tokens : s.rest = xs.tokens ++ rest
  free   : s.noIn = true → ∀ q ∈ xs, q.1.token.value ≠ .keyword .inKw
  link   : isLink (rest.headD s.finish).value = false
  stop   : s.noIn = true ∧ (rest.headD s.finish).value = .keyword .inKw ∨
             Operator.ofToken? (rest.headD s.finish).value = none

/-- Of the operators `xs` behind the reading `e₀`, those before the first one below the
level have been taken, which gives the reading `e`. -/
structure Takes (level : Nat) (e₀ : Infix) (xs taken left : Joints) (e : Infix) : Prop where
  split  : xs = taken ++ left
  graded : e.Graded
  first  : e.first = e₀.first
  joints : e.joints = e₀.joints ++ taken
  root   : ∀ p ∈ e.root?, level ≤ p.level
  next   : ∀ q ∈ left.head?, q.1.op.level < level

/-- The loop goes on with a reading whose last operand is complete. -/
def Loops (xs : Joints) : Prop :=
  ∀ s rest level k n (e₀ : Infix), Ahead s xs rest → e₀.Graded →
    (∀ p ∈ e₀.root?, level ≤ p.level ∧ ∀ q ∈ xs.head?, q.1.op.level < p.rightLevel) →
    xs.length < k → xs.length < n →
    ∃ taken left e, Takes level e₀ xs taken left e ∧
      operatorsFrom (parse k) e₀.first.token level n e₀.tree s =
        .ok e.tree (s.behind taken.tokens (left.tokens ++ rest))

lemma Ahead.next_isLink {xs : Joints} (h : Ahead s xs rest) :
    isLink (s.rest.headD s.finish).value = false := by
  rw [h.tokens]
  cases xs with
  | nil => exact h.link
  | cons q xs => exact Operator.isLink_of_ofToken? q.1.spelled

lemma Loops.binary {xs : Joints} {x : Operand} (hloops : Loops xs) (level k : Nat)
    (h : Ahead (s.behind [x.token] (xs.tokens ++ rest)) xs rest)
    (hs : s.rest = x.token :: (xs.tokens ++ rest)) (hk : xs.length + 1 < k) :
    ∃ taken left e, Takes level (.operand x) xs taken left e ∧
      parse k (.binary level) s =
        .ok e.tree (s.behind (x.token :: taken.tokens) (left.tokens ++ rest)) := by
  obtain ⟨k, rfl⟩ : ∃ j, k = j + 2 := ⟨k - 2, by omega⟩
  have hunary : parse (k + 1) .unary s = .ok (Infix.operand x).tree _ :=
    unary_operand x hs h.next_isLink
  have hrounds : xs.length < (xs.tokens ++ rest).length + 1 := by
    rw [List.length_append, Joints.length_tokens]
    omega
  obtain ⟨taken, left, e, htakes, hloop⟩ := hloops _ rest level (k + 1) _ (.operand x) h trivial
    (by rintro _ ⟨⟩) (by omega) hrounds
  refine ⟨taken, left, e, htakes, ?_⟩
  show Grammar.binary (parse (k + 1)) level s = _
  rw [Grammar.binary, bind_eq (peek_eq hs), bind_eq hunary]
  exact hloop.trans (by rw [ParserState.behind_behind]; rfl)

/-- The construct of two operands ends where the right one ends. -/
lemma make_apply {lhs rhs : Infix} {ts : List Token} :
    make (o.op.form lhs.tree rhs.tree) lhs.first.token (s.behind (ts ++ rhs.tokens) rest) =
      .ok (Infix.apply lhs o rhs).tree (s.behind (ts ++ rhs.tokens) rest) := by
  obtain ⟨us, hus⟩ := rhs.reverse_tokens
  unfold make ParserState.behind
  rw [List.reverse_append, hus]
  rfl

/-- The loop takes the operators before the first one below its level. -/
lemma loops (xs : Joints) : Loops xs := by
  induction hlength : xs.length using Nat.strong_induction_on generalizing xs with
  | _ length ih =>
  subst hlength
  intro s rest level k n e₀ h hgraded hroot hk hn
  obtain ⟨n, rfl⟩ : ∃ j, n = j + 1 := ⟨n - 1, by omega⟩
  have hsame : s.behind [] (xs.tokens ++ rest) = s := by
    rw [← h.tokens]
    rfl
  cases xs with
  | nil =>
    refine ⟨[], [], e₀, ⟨rfl, hgraded, rfl, (List.append_nil _).symm, fun p hp => (hroot p hp).1,
      by rintro _ ⟨⟩⟩, ?_⟩
    refine (operatorsFrom_stop ?_).trans (congrArg _ hsame.symm)
    rw [h.tokens]
    exact h.stop.imp_right fun hnone o ho => by cases hnone.symm.trans ho
  | cons q xs =>
    obtain ⟨o, y⟩ := q
    have hs : s.rest = o.token :: (y.token :: (Joints.tokens xs ++ rest)) := h.tokens
    -- an operator below the level ends the loop
    by_cases hlevel : o.op.level < level
    · refine ⟨[], (o, y) :: xs, e₀, ⟨rfl, hgraded, rfl, (List.append_nil _).symm,
        fun p hp => (hroot p hp).1, by rintro _ ⟨⟩; exact hlevel⟩, ?_⟩
      refine (operatorsFrom_stop (.inr fun p hp => ?_)).trans (congrArg _ hsame.symm)
      rw [hs] at hp
      cases Option.some.inj (o.spelled.symm.trans hp)
      exact hlevel
    rw [List.length_cons] at hk hn
    -- the right operand takes what binds tighter, and the loop goes on with the rest
    obtain ⟨inner, left, rhs, hrhs, hread⟩ := (ih xs.length .refl xs rfl).binary
      (s := s.behind [o.token] (y.token :: (Joints.tokens xs ++ rest))) o.op.rightLevel k
      ⟨rfl, fun hin q hq => h.free hin q (.tail _ hq), h.link, h.stop⟩ rfl (by omega)
    obtain ⟨rfl, hrhsGraded, hfirst, hjoints, hrhsRoot, hnext⟩ := hrhs
    have htokens : y.token :: inner.tokens = rhs.tokens := by
      rw [Infix.tokens, hfirst, hjoints]
      rfl
    rw [List.length_append] at hk hn
    obtain ⟨taken, left, e, ⟨rfl, hegraded, hefirst, hejoints, heroot, henext⟩, hloop⟩ :=
      ih left.length (by rw [List.length_cons, List.length_append]; omega) left rfl
        (s.behind ([o.token] ++ rhs.tokens) (left.tokens ++ rest)) rest level k n (.apply e₀ o rhs)
        ⟨rfl, fun hin q hq => h.free hin q (.tail _ (List.mem_append_right _ hq)), h.link, h.stop⟩
        (Infix.graded_apply.mpr ⟨hgraded, hrhsGraded, fun p hp => (hroot p hp).2 _ rfl, hrhsRoot⟩)
        (by rintro _ ⟨⟩; exact ⟨Nat.le_of_not_lt hlevel, hnext⟩) (by omega) (by omega)
    refine ⟨(o, y) :: (inner ++ taken), left, e, ⟨by simp, hegraded, hefirst, ?_, heroot, henext⟩, ?_⟩
    · rw [hejoints, Infix.joints, hfirst, hjoints]
      simp [Infix.first, Infix.joints]
    · rw [ParserState.behind_behind, htokens] at hread
      refine (operatorsFrom_step hs (Nat.le_of_not_lt hlevel)
        (fun hin => h.free hin _ List.mem_cons_self) hread).trans ?_
      rw [bind_eq make_apply]
      refine hloop.trans ?_
      rw [ParserState.behind_behind, ← htokens]
      simp [Joints.tokens]

/-- **Operators are read by level.** Of any operands of one token with operators between
them, with no operator and no link behind, the parser takes all, or all up to the first
`in` where this is no operator. It gives the tree of the one reading of these in which
every operator has operands that bind tighter than it. -/
theorem operators_climb {s : ParserState} {x : Operand} {xs : Joints} {rest : List Token}
    (hs : s.rest = x.token :: (xs.tokens ++ rest))
    (hlink : isLink (rest.headD s.finish).value = false)
    (hend : Operator.ofToken? (rest.headD s.finish).value = none) {k : Nat}
    (hk : (x.token :: xs.tokens).length < k) :
    ∃ e : Infix,
      parse k (.binary 1) s = .ok e.tree (s.behind (x.token :: (xs.upToIn s.noIn).tokens)
        ((xs.fromIn s.noIn).tokens ++ rest)) ∧
      e.first = x ∧ e.joints = xs.upToIn s.noIn ∧ e.Graded ∧
      ∀ e' : Infix, e'.first = x → e'.joints = xs.upToIn s.noIn → e'.Graded → e' = e := by
  have hsplit := xs.upToIn_append_fromIn s.noIn
  have hlength := congrArg List.length hsplit
  rw [List.length_append] at hlength
  rw [List.length_cons, Joints.length_tokens] at hk
  rw [← hsplit, Joints.tokens_append, List.append_assoc] at hs
  generalize hrest : (xs.fromIn s.noIn).tokens ++ rest = behind at hs
  have hahead : Ahead (s.behind [x.token] ((xs.upToIn s.noIn).tokens ++ behind))
      (xs.upToIn s.noIn) behind := by
    have hfree : s.noIn = true → ∀ q ∈ xs.upToIn s.noIn, q.1.token.value ≠ .keyword .inKw := by
      intro hin q hq
      rw [hin] at hq
      exact Joints.ne_in_of_upToIn hq
    subst hrest
    cases hleft : xs.fromIn s.noIn with
    | nil => exact ⟨rfl, hfree, hlink, .inr hend⟩
    | cons q more =>
      exact ⟨rfl, hfree, Operator.isLink_of_ofToken? q.1.spelled, .inl (Joints.in_of_fromIn hleft)⟩
  obtain ⟨taken, left, e, ⟨htaken, hgraded, hfirst, hjoints, -, hnext⟩, hparse⟩ :=
    (loops _).binary 1 k hahead hs (by omega)
  -- no operator is below the first level
  obtain rfl : left = [] := by
    cases left with
    | nil => rfl
    | cons q left => exact absurd (hnext q rfl) (Nat.not_lt_of_le q.1.op.level_pos)
  rw [List.append_nil] at htaken
  rw [← htaken] at hparse hjoints
  refine ⟨e, hparse, hfirst, hjoints, hgraded, fun e' hfirst' hjoints' hgraded' => ?_⟩
  rw [← hgraded'.eq_build, ← hgraded.eq_build, hfirst', hjoints', hfirst, hjoints]
  rfl

/-- The operators of `a ** b ** c + d in e`, in the head of a `for` statement and elsewhere. -/
theorem operators_climb_powers :
    let name (i : Nat) : Operand := ⟨⟨.identifier i, 1, i, i, false⟩, .identifier i, rfl⟩
    let power : Joint := ⟨⟨.punct .starStar, 1, 0, 0, false⟩, .binary .exp, rfl⟩
    let plus : Joint := ⟨⟨.punct .plus, 1, 0, 0, false⟩, .binary .add, rfl⟩
    let among : Joint := ⟨⟨.keyword .inKw, 1, 0, 0, false⟩, .binary .isIn, rfl⟩
    let xs : Joints := [(power, name 1), (power, name 2), (plus, name 3), (among, name 4)]
    let s (noIn : Bool) : ParserState :=
      ⟨[], (name 0).token :: xs.tokens, ⟨.endOfFile, 1, 0, 0, false⟩, noIn, .empty⟩
    let sum : Infix := .apply (.apply (.operand (name 0)) power
      (.apply (.operand (name 1)) power (.operand (name 2)))) plus (.operand (name 3))
    parse 10 (.binary 1) (s false) = .ok (Infix.apply sum among (.operand (name 4))).tree
        ((s false).behind ((name 0).token :: xs.tokens) []) ∧
      parse 10 (.binary 1) (s true) = .ok sum.tree
        ((s true).behind ((name 0).token :: xs.tokens.take 6) (xs.tokens.drop 6)) := by
  intro name power plus among xs s sum
  obtain ⟨e, hparse, -, -, -, honly⟩ := @operators_climb (s false) (name 0) xs []
    rfl rfl rfl 10 (by decide)
  obtain ⟨e', hparse', -, -, -, honly'⟩ := @operators_climb (s true) (name 0) xs []
    rfl rfl rfl 10 (by decide)
  have he : Infix.apply sum among (.operand (name 4)) = e :=
    honly _ rfl rfl (by simp [sum, Infix.Graded, Infix.root?, power, plus, among, Operator.level])
  have he' : sum = e' :=
    honly' _ rfl rfl (by simp [sum, Infix.Graded, Infix.root?, power, plus, Operator.level])
  exact ⟨he ▸ hparse, he' ▸ hparse'⟩

end Grammar

end ValueFlow
