import ValueFlow.Proofs.Grammar.Accepts

/-!
# Printed expressions are read

The rules of the grammar read an expression whose parts are in parentheses. A
part in parentheses is a primary expression for every rule, so precedence never
decides anything: each rule takes its own operator and hands every part down to
the parentheses around it.
-/

namespace ValueFlow

variable {names : Names} {v : TokenValue}

lemma UnaryOp.ofToken?_of_denotes {op : UnaryOp} (h : op.sign.Denotes names v) :
    ofToken? v = some op := by
  cases op <;> cases h <;> rfl

lemma Operator.ofToken?_of_denotes {o : Operator} (h : o.sign.Denotes names v) :
    ofToken? v = some o := by
  cases o with
  | binary op | logical op => cases op <;> cases h <;> rfl

lemma Assigner.ofToken?_mark (a : Assigner) :
    AssignOp.ofToken? (.punct a.mark) = some a.op := by
  obtain ⟨op, mark, spelled⟩ := a
  cases op with
  | plain => cases spelled; rfl
  | arithmetic op | logical op => cases op <;> cases spelled <;> rfl

namespace Grammar

open ValueFlow.Parser
open Sign (Next)

variable {names : Names} {signs : List Sign} {follow : TokenValue → Prop} {R : Tree → Prop}
  {recur : Goal → Parser Tree} {v : TokenValue} {sign first : Sign} {start : Token} {n : Nat}
  {object : Tree} {more : List Sign} {optional : Bool} {S : Tree → Prop} {o : Operator}
  {es : List (Option Expr)} {e : Expr} {op : UnaryOp} {T : Tree → Prop} {value : List Sign}
  {close : Punctuator} {levels : Nat}

/-! ## Tokens behind a construct -/

/-- Whether a token goes on with the operand before it. -/
def isLink : TokenValue → Bool
  | .punct mark =>
    match mark with
    | .dot | .questionDot | .leftBracket | .leftParen | .plusPlus | .minusMinus => true
    | _ => false
  | _ => false

/-- What stands behind a whole expression. -/
def Ends (v : TokenValue) : Prop :=
  v ∈ ([.rightParen, .rightBracket, .comma, .colon, .semicolon] : List Punctuator).map .punct

instance : DecidablePred Ends := fun v => inferInstanceAs (Decidable (v ∈ _))

/-- Nothing goes on with an expression before its end. -/
lemma Ends.spec (h : Ends v) : isLink v = false ∧ Operator.ofToken? v = none ∧
    AssignOp.ofToken? v = none ∧ v ≠ .punct .question := by
  simp only [Ends, List.map_cons, List.map_nil, List.mem_cons, List.not_mem_nil, or_false] at h
  rcases h with rfl | rfl | rfl | rfl | rfl <;> decide

/-! ## Chains -/

lemma accepts_parens (h : Accepts names (recur .assignment) signs Ends R) :
    Accepts names (primary recur) (parens signs) follow R := by
  refine accepts_peek.after fun t (ht : t.value = .punct .leftParen) => ?_
  rw [ht]
  refine accepts_advance.bind fun _ _ => ?_
  refine (Accepts.withNoIn (h.mono ?_)).bind fun tree htree => ?_
  · rintro v rfl
    decide
  · exact (accepts_mark .rightParen).bind fun _ _ => accepts_pure htree

lemma accepts_leaf {form : Form Tree} (h : ∀ span, R (.node span form)) :
    Accepts names (leaf form) [sign] follow R :=
  accepts_advance.bind fun _ _ => accepts_make h

lemma accepts_noLink (h : ∀ v, follow v → isLink v = false) (start : Token) (object : Tree) :
    Accepts names (link? recur start object) [] follow (· = none) := by
  refine accepts_peek.after fun t ht => ?_
  have hlink := h _ ht
  split
  · next heq => rw [heq] at hlink; cases hlink
  · next heq => rw [heq] at hlink; cases hlink
  · next heq => rw [heq] at hlink; cases hlink
  · next heq => rw [heq] at hlink; cases hlink
  · exact accepts_pure rfl

/-- A chain ends where nothing goes on with it. -/
lemma accepts_chainFrom_end (h : ∀ v, follow v → isLink v = false) (hn : 0 < n)
    (hobject : R object) : Accepts names (chainFrom recur start n object) [] follow R := by
  obtain ⟨n, rfl⟩ : ∃ k, n = k + 1 := ⟨n - 1, by omega⟩
  refine (accepts_noLink h start object).after ?_
  rintro _ rfl
  exact accepts_pure hobject

lemma accepts_chainFrom_link (hn : 1 < n) (hend : ∀ v, follow v → isLink v = false)
    (hlink : Accepts names (link? recur start object) more follow fun o => ∃ t, o = some t ∧ R t) :
    Accepts names (chainFrom recur start n object) more follow R := by
  obtain ⟨n, rfl⟩ : ∃ k, n = k + 1 := ⟨n - 1, by omega⟩
  refine hlink.last fun o ho => ?_
  obtain ⟨t, rfl, ht⟩ := ho
  exact accepts_chainFrom_end hend (by omega) ht

lemma accepts_member_link (start : Token) (object : Tree) (property : Identifier)
    (optional : Bool) : Accepts names (link? recur start object)
      [.mark (if optional then .questionDot else .dot), .name property] follow
      fun o => ∃ t, o = some t ∧ ∃ s, t.form = .member object s optional ∧
        names.get? s = some (String.ofList property.text) := by
  refine accepts_peek.after fun t ht => ?_
  cases optional with
  | false =>
    obtain ht : t.value = .punct .dot := ht
    rw [ht]
    refine accepts_advance.bind fun _ _ => ?_
    refine (accepts_propertyName property).bind fun s hs => ?_
    exact Accepts.map (accepts_make fun _ => ⟨_, rfl, s, rfl, hs⟩)
  | true =>
    obtain ht : t.value = .punct .questionDot := ht
    rw [ht]
    refine accepts_advance.bind fun _ _ => accepts_peek.after fun u hu => ?_
    obtain ⟨k, hu, -⟩ := hu
    rw [hu]
    refine (accepts_propertyName property).bind fun s hs => ?_
    exact Accepts.map (accepts_make fun _ => ⟨_, rfl, s, rfl, hs⟩)

lemma accepts_indexIn {key : Parser Tree}
    (h : Accepts names key signs (· = .punct .rightBracket) R) :
    Accepts names (indexIn object optional key start) (sign :: (signs ++ [.mark .rightBracket]))
      follow fun t => ∃ a, t.form = .index object a optional ∧ R a := by
  refine accepts_advance.bind fun _ _ => h.bind fun a ha => ?_
  exact (accepts_mark .rightBracket).bind fun _ _ => accepts_make fun _ => ⟨a, rfl, ha⟩

lemma accepts_index_link (start : Token) (object : Tree) (optional : Bool)
    (h : Accepts names (recur .assignment) signs (· = .punct .rightBracket) R) :
    Accepts names (link? recur start object)
      (optionalMark optional ++ .mark .leftBracket :: (signs ++ [.mark .rightBracket])) follow
      fun o => ∃ t, o = some t ∧ ∃ a, t.form = .index object a optional ∧ R a := by
  refine accepts_peek.after fun t ht => ?_
  cases optional with
  | false =>
    obtain ht : t.value = .punct .leftBracket := ht
    rw [ht]
    exact Accepts.map ((accepts_indexIn h.withNoIn).imp fun a ha => ⟨a, rfl, ha⟩)
  | true =>
    obtain ht : t.value = .punct .questionDot := ht
    rw [ht]
    refine accepts_advance.bind fun _ _ =>
      accepts_peek.after fun u (hu : u.value = .punct .leftBracket) => ?_
    rw [hu]
    exact Accepts.map ((accepts_indexIn h).imp fun a ha => ⟨a, rfl, ha⟩)

lemma accepts_call_link (start : Token) (object : Tree) (optional : Bool)
    {R : List Tree → Prop}
    (h : Accepts names (arguments recur) (.mark .leftParen :: signs) follow R) :
    Accepts names (link? recur start object)
      (optionalMark optional ++ .mark .leftParen :: signs) follow
      fun o => ∃ t, o = some t ∧ ∃ as, t.form = .call object as optional ∧ R as := by
  refine accepts_peek.after fun t ht => ?_
  cases optional with
  | false =>
    obtain ht : t.value = .punct .leftParen := ht
    rw [ht]
    show Accepts names _ (.mark .leftParen :: signs) follow _
    exact h.last fun as has => Accepts.map (accepts_make fun _ => ⟨_, rfl, as, rfl, has⟩)
  | true =>
    obtain ht : t.value = .punct .questionDot := ht
    rw [ht]
    refine accepts_advance.bind fun _ _ =>
      accepts_peek.after fun u (hu : u.value = .punct .leftParen) => ?_
    rw [hu]
    show Accepts names _ (.mark .leftParen :: signs) follow _
    exact h.last fun as has => Accepts.map (accepts_make fun _ => ⟨_, rfl, as, rfl, has⟩)

/-- A primary expression and what goes on with it. -/
lemma accepts_chain (links : List Sign) (hfirst : ¬ first.Denotes names (.keyword .new))
    (hprimary : Accepts names (primary recur) (first :: more) (Next names links follow) S)
    (hlinks : ∀ start n object, links.length < n → S object →
      Accepts names (chainFrom recur start n object) links follow R) :
    Accepts names (chain recur) (first :: more ++ links) follow R := by
  refine accepts_peek.after fun t ht => ?_
  have hnew : t.value ≠ .keyword .new := fun heq => hfirst (heq ▸ ht)
  rw [if_neg hnew]
  exact hprimary.bind fun object hobject => .rounds fun n hn => hlinks t n object hn hobject

/-- The signs that an operand without a leading operator starts with. -/
def Opens : Sign → Prop
  | .name _ | .numeral _ => True
  | .mark p => p = .leftParen ∨ p = .leftBracket
  | .keyword _ => False

lemma Opens.spec (h : Opens sign) (hv : sign.Denotes names v) :
    UnaryOp.ofToken? v = none ∧ updateOf? v = none ∧ v ≠ .keyword .await ∧ v ≠ .keyword .new := by
  cases sign with
  | name | numeral =>
    obtain ⟨s, rfl, -⟩ := hv
    simp [UnaryOp.ofToken?, updateOf?]
  | mark p =>
    obtain rfl : v = .punct p := hv
    rcases h with rfl | rfl <;> decide
  | keyword => exact h.elim

lemma Opens.not_new (h : Opens sign) :
    ¬ sign.Denotes names (.keyword .new) := fun hv => (h.spec hv).2.2.2 rfl

lemma updateOf?_of_isLink (h : isLink v = false) : updateOf? v = none := by
  unfold updateOf?
  split
  · cases h
  · cases h
  · rfl

/-- An operand without a leading operator. -/
lemma accepts_unary_chain (hfirst : Opens first) (hfollow : ∀ v, follow v → isLink v = false)
    (h : Accepts names (chain recur) (first :: more) follow R) :
    Accepts names (unary recur) (first :: more) follow R := by
  refine accepts_peek.after fun t ht => ?_
  obtain ⟨hunary, hupdate, hawait, -⟩ := hfirst.spec ht
  rw [hunary, hupdate, if_neg hawait]
  refine accepts_peek.after fun start _ => ?_
  refine h.last fun tree htree => accepts_peek.after fun next hnext => ?_
  rw [updateOf?_of_isLink (hfollow _ hnext)]
  exact accepts_pure htree

/-- A primary expression is an operand. -/
lemma accepts_unary_primary (hfirst : Opens first)
    (h : Accepts names (primary recur) (first :: more) (isLink · = false) R) :
    Accepts names (unary recur) (first :: more) (isLink · = false) R := by
  refine accepts_unary_chain hfirst (fun _ hv => hv) ?_
  rw [← List.append_nil (first :: more)]
  exact accepts_chain [] hfirst.not_new h fun start n object hn ht =>
    accepts_chainFrom_end (fun _ hv => hv) hn ht

lemma accepts_unary_op (h : Accepts names (recur .unary) signs follow R) :
    Accepts names (unary recur) (op.sign :: signs) follow
      fun t => ∃ a, t.form = .unary op a ∧ R a := by
  refine accepts_peek.after fun t ht => ?_
  rw [UnaryOp.ofToken?_of_denotes ht]
  refine accepts_advance.bind fun _ _ => ?_
  exact h.last fun a ha => accepts_make fun _ => ⟨a, rfl, ha⟩

/-! ## Operators -/

lemma accepts_operatorsFrom_end (h : ∀ v, follow v → Operator.ofToken? v = none) {level : Nat}
    (hn : 0 < n) {lhs : Tree} (hlhs : R lhs) :
    Accepts names (operatorsFrom recur start level n lhs) [] follow R := by
  obtain ⟨n, rfl⟩ : ∃ k, n = k + 1 := ⟨n - 1, by omega⟩
  refine accepts_peek.after fun t ht => ?_
  refine accepts_get.after fun s hs => ?_
  rw [h _ ht, hs, Bool.and_false]
  exact accepts_pure hlhs

lemma accepts_binary_one (hfollow : ∀ v, follow v → Operator.ofToken? v = none) (level : Nat)
    (h : Accepts names (recur .unary) signs follow R) :
    Accepts names (binary recur level) signs follow R := by
  refine accepts_peek.after fun start _ => ?_
  exact h.last fun lhs hlhs => .rounds fun n hn => accepts_operatorsFrom_end hfollow hn hlhs

lemma accepts_binary_two {level : Nat} (hfollow : ∀ v, follow v → Operator.ofToken? v = none)
    (hlevel : level ≤ o.level) (hlhs : Accepts names (recur .unary) signs (o.sign.Denotes names) R)
    (hrhs : Accepts names (recur (.binary o.rightLevel)) more follow S) :
    Accepts names (binary recur level) (signs ++ o.sign :: more) follow
      fun t => ∃ a b, t.form = o.form a b ∧ R a ∧ S b := by
  refine accepts_peek.after fun start _ => ?_
  refine hlhs.bind fun a ha => .rounds fun n hn => ?_
  obtain ⟨n, rfl⟩ : ∃ k, n = k + 2 := ⟨n - 2, by simp at hn; omega⟩
  refine accepts_peek.after fun t ht => ?_
  refine accepts_get.after fun s hs => ?_
  rw [Operator.ofToken?_of_denotes ht, hs, Bool.and_false, if_neg (by decide)]
  dsimp only
  rw [if_neg (by omega)]
  refine accepts_advance.bind fun _ _ => ?_
  refine hrhs.last fun b hb => ?_
  refine (accepts_make (R := fun t => ∃ a b, t.form = o.form a b ∧ R a ∧ S b)
    fun _ => ⟨a, b, rfl, ha, hb⟩).after fun t ht => ?_
  exact accepts_operatorsFrom_end hfollow (Nat.succ_pos n) ht

lemma accepts_conditional_one (hfollow : ¬ follow (.punct .question))
    (h : Accepts names (recur (.binary 1)) signs follow R) :
    Accepts names (conditional recur) signs follow R := by
  refine accepts_peek.after fun start _ => ?_
  refine h.last fun test htest => ?_
  refine (accepts_noMark hfollow).after ?_
  rintro _ rfl
  exact accepts_pure htest

lemma accepts_conditional_three {second third : List Sign}
    (htest : Accepts names (recur (.binary 1)) signs (· = .punct .question) R)
    (hsecond : Accepts names (recur .assignment) second Ends S)
    (hthird : Accepts names (recur .assignment) third follow T) :
    Accepts names (conditional recur)
      (signs ++ .mark .question :: (second ++ .mark .colon :: third)) follow
      fun t => ∃ a b c, t.form = .conditional a b c ∧ R a ∧ S b ∧ T c := by
  refine accepts_peek.after fun start _ => ?_
  refine htest.bind fun a ha => ?_
  refine (accepts_takeMark .question).bind fun o ho => ?_
  obtain ⟨_, rfl⟩ := Option.isSome_iff_exists.mp ho
  refine (Accepts.withNoIn (hsecond.mono ?_)).bind fun b hb => ?_
  · rintro v rfl
    decide
  refine (accepts_mark .colon).bind fun _ _ => ?_
  exact hthird.last fun c hc => accepts_make fun _ => ⟨a, b, c, rfl, ha, hb, hc⟩

lemma accepts_assignment_one (hfollow : ∀ v, follow v → AssignOp.ofToken? v = none)
    (h : Accepts names (conditional recur) signs follow R) :
    Accepts names (assignment recur) signs follow R := by
  refine accepts_peek.after fun start _ => ?_
  refine accepts_arrowAhead.after ?_
  rintro _ rfl
  refine h.last fun target htarget => accepts_peek.after fun t ht => ?_
  rw [hfollow _ ht]
  exact accepts_pure htarget

lemma accepts_assignment_two {assigner : Assigner}
    (htarget : Accepts names (conditional recur) signs (· = .punct assigner.mark)
      fun t => ∃ s, t.form = .identifier s ∧ R t)
    (hvalue : Accepts names (recur .assignment) value follow S) :
    Accepts names (assignment recur) (signs ++ .mark assigner.mark :: value) follow
      fun t => ∃ a b, t.form = .assign assigner.op a b ∧ R a ∧ S b := by
  refine accepts_peek.after fun start _ => ?_
  refine accepts_arrowAhead.after ?_
  rintro _ rfl
  refine htarget.bind fun target htarget =>
    accepts_peek.after fun t (ht : t.value = .punct assigner.mark) => ?_
  obtain ⟨s, hs, htarget⟩ := htarget
  rw [ht, assigner.ofToken?_mark]
  refine accepts_advance.bind fun _ _ => ?_
  rw [assignmentTarget, hs]
  refine (accepts_pure (R := (· = target)) rfl).after fun a ha => ?_
  subst ha
  exact hvalue.last fun b hb => accepts_make fun _ => ⟨a, b, rfl, htarget, hb⟩

/-! ## Lists in brackets -/

lemma accepts_element (h : Accepts names (recur .assignment) (parens signs) follow R) :
    Accepts names (element recur) (parens signs) follow R := by
  refine (accepts_noMark ?_).after fun o ho => ?_
  · exact fun h => by cases h
  · subst ho
    exact h

lemma accepts_itemSteps_nil {α : Type} {item : Parser (α × Follow)} (hn : 0 < n)
    {S : List α → Prop} (h : S []) :
    Accepts names (itemSteps close item n) [] (· = .punct close) S := by
  obtain ⟨n, rfl⟩ : ∃ k, n = k + 1 := ⟨n - 1, by omega⟩
  refine (accepts_nextIs _).after fun b hb => ?_
  obtain ⟨w, rfl, rfl⟩ := hb
  rw [decide_eq_true rfl, if_pos rfl]
  exact accepts_pure h

/-- An item of a list and what stands behind it. -/
lemma accepts_itemSteps_cons {α : Type} {item : Parser (α × Follow)} {rest : List Sign}
    {last : Bool} {S : α → Prop} {T : List α → Prop} (hclose : Ends (.punct close))
    (hne : close ≠ .comma)
    (hitem : Accepts names item (parens signs) Ends fun r => r.2 = .comma ∧ S r.1)
    (hlast : last = true → T [])
    (hrest : last = false → Accepts names (itemSteps close item n) rest (· = .punct close) T) :
    Accepts names (itemSteps close item (n + 1)) (parens signs ++ commaThen last rest)
      (· = .punct close) fun as => ∃ a as', as = a :: as' ∧ S a ∧ T as' := by
  have hparen : close ≠ .leftParen := by
    rintro rfl
    exact absurd hclose.spec.1 (by decide)
  refine (accepts_nextIs _).after fun b hb => ?_
  obtain ⟨w, hw, rfl⟩ := hb
  obtain rfl : w = .punct .leftParen := hw
  rw [decide_eq_false (by simpa using hparen.symm), if_neg (by decide)]
  cases last with
  | true =>
    refine (hitem.mono ?_).bind fun r hr => ?_
    · rintro v rfl
      exact hclose
    obtain ⟨a, follow⟩ := r
    obtain ⟨rfl, ha⟩ := hr
    have hnone : ¬ Next names (commaThen true rest) (· = .punct close) (.punct .comma) :=
      fun h => hne (TokenValue.punct.inj h).symm
    refine (accepts_noMark hnone).after ?_
    rintro _ rfl
    exact accepts_pure ⟨a, [], rfl, ha, hlast rfl⟩
  | false =>
    refine (hitem.mono ?_).bind fun r hr => ?_
    · rintro v rfl
      decide
    obtain ⟨a, follow⟩ := r
    obtain ⟨rfl, ha⟩ := hr
    refine (accepts_takeMark .comma).bind fun o ho => ?_
    obtain ⟨_, rfl⟩ := Option.isSome_iff_exists.mp ho
    exact (hrest rfl).last fun as' has => accepts_pure ⟨a, as', rfl, ha, has⟩

def ReadBy (names : Names) (recur : Goal → Parser Tree) (e : Expr) : Prop :=
  Accepts names (recur .assignment) (parens e.signs) Ends (e.Stands Tree.form names.text)

lemma accepts_argumentSteps {es : List Expr} (hes : ∀ e ∈ es, ReadBy names recur e)
    (hn : (Expr.argumentSigns es).length < n) :
    Accepts names (itemSteps .rightParen (do return (← element recur, .comma)) n)
      (Expr.argumentSigns es) (· = .punct .rightParen)
      (Expr.StandAll Tree.form names.text es) := by
  induction es generalizing n with
  | nil => exact accepts_itemSteps_nil hn trivial
  | cons e es ih =>
    obtain ⟨he, hes⟩ := List.forall_mem_cons.mp hes
    obtain ⟨n, rfl⟩ : ∃ k, n = k + 1 := ⟨n - 1, by omega⟩
    have hitem : Accepts names (do return (← element recur, Follow.comma)) (parens e.signs) Ends
        fun r => r.2 = .comma ∧ e.Stands Tree.form names.text r.1 := by
      exact (accepts_element he).last fun a ha => accepts_pure ⟨rfl, ha⟩
    refine (accepts_itemSteps_cons (by decide) (by decide) hitem ?_ fun hlast => ih hes ?_).imp
      ?_
    · intro hlast
      rw [List.isEmpty_iff.mp hlast]
      trivial
    · rw [Expr.argumentSigns, commaThen, hlast] at hn
      simp at hn
      omega
    · rintro as ⟨a, as', rfl, ha, has⟩
      exact ⟨ha, has⟩

lemma accepts_elementSteps (hes : ∀ e, some e ∈ es → ReadBy names recur e)
    (hn : (Expr.elementSigns es).length < n) :
    Accepts names (itemSteps .rightBracket (arrayElement recur) n)
      (Expr.elementSigns es) (· = .punct .rightBracket)
      (Expr.StandHoles Tree.form names.text es) := by
  induction es generalizing n with
  | nil => exact accepts_itemSteps_nil hn trivial
  | cons e es ih =>
    obtain ⟨n, rfl⟩ : ∃ k, n = k + 1 := ⟨n - 1, by omega⟩
    have hrest : ∀ e, some e ∈ es → ReadBy names recur e := fun e he =>
      hes e (List.mem_cons_of_mem _ he)
    cases e with
    | none =>
      refine (accepts_nextIs _).after fun b hb => ?_
      obtain ⟨w, hw, rfl⟩ := hb
      obtain rfl : w = .punct .comma := hw
      rw [decide_eq_false (by decide), if_neg (by decide)]
      have hhole : Accepts names (arrayElement recur) [.mark .comma]
          (Next names (Expr.elementSigns es) (· = .punct .rightBracket)) (· = (none, .item)) := by
        refine (accepts_takeMark .comma).bind fun o ho => ?_
        rw [if_pos ho]
        exact accepts_pure rfl
      refine hhole.bind fun r hr => ?_
      subst hr
      rw [Expr.elementSigns, List.length_cons] at hn
      exact (ih hrest (by omega)).last fun as has => accepts_pure has
    | some e =>
      have hitem : Accepts names (arrayElement recur) (parens e.signs) Ends fun r =>
          r.2 = .comma ∧ ∃ a, r.1 = some a ∧ e.Stands Tree.form names.text a := by
        refine (accepts_noMark (by exact fun h => by cases h)).after ?_
        rintro _ rfl
        exact (accepts_element (hes e List.mem_cons_self)).last fun a ha =>
          accepts_pure ⟨rfl, a, rfl, ha⟩
      refine (accepts_itemSteps_cons (S := fun o => ∃ a, o = some a ∧
        e.Stands Tree.form names.text a) (by decide) (by decide) hitem ?_
        fun hlast => ih hrest ?_).imp ?_
      · intro hlast
        rw [List.isEmpty_iff.mp hlast]
        trivial
      · rw [Expr.elementSigns, commaThen, hlast] at hn
        simp at hn
        omega
      · rintro as ⟨_, as', rfl, ⟨a, rfl, ha⟩, has⟩
        exact ⟨ha, has⟩

lemma accepts_arguments {es : List Expr} (hes : ∀ e ∈ es, ReadBy names recur e) :
    Accepts names (arguments recur)
      (.mark .leftParen :: (Expr.argumentSigns es ++ [.mark .rightParen])) follow
      (Expr.StandAll Tree.form names.text es) := by
  refine (accepts_mark .leftParen).bind fun _ _ => ?_
  refine (Accepts.withNoIn (.rounds fun n hn => accepts_argumentSteps hes hn)).bind fun as has => ?_
  exact (accepts_mark .rightParen).bind fun _ _ => accepts_pure has

lemma accepts_array (hes : ∀ e, some e ∈ es → ReadBy names recur e) :
    Accepts names (array recur)
      (.mark .leftBracket :: (Expr.elementSigns es ++ [.mark .rightBracket])) follow
      fun t => ∃ as, t.form = .array as ∧ Expr.StandHoles Tree.form names.text es as := by
  refine (accepts_mark .leftBracket).bind fun _ _ => ?_
  refine (Accepts.withNoIn (.rounds fun n hn => accepts_elementSteps hes hn)).bind fun as has => ?_
  exact (accepts_mark .rightBracket).bind fun _ _ => accepts_make fun _ => ⟨as, rfl, has⟩

/-! ## Expressions -/

/-- The signs are an expression, for a parser that has four levels for each of
them. -/
def Readable (names : Names) (signs : List Sign) (R : Tree → Prop) : Prop :=
  ∀ levels, 4 * signs.length ≤ levels → Accepts names (parse levels .assignment) signs Ends R

lemma length_parens (signs : List Sign) : (parens signs).length = signs.length + 2 := by
  simp [parens]

/-- In parentheses an expression is an operand. -/
lemma Readable.unary (h : Readable names signs R)
    (hlevels : 4 * (parens signs).length ≤ levels + 3) :
    Accepts names (parse levels .unary) (parens signs) (isLink · = false) R := by
  rw [length_parens] at hlevels
  obtain ⟨k, rfl⟩ : ∃ k, levels = k + 1 := ⟨levels - 1, by omega⟩
  exact accepts_unary_primary (.inl rfl) (accepts_parens (h k (by omega)))

lemma Readable.binary (h : Readable names signs R) (level : Nat)
    (hlevels : 4 * (parens signs).length ≤ levels + 2) (hlink : ∀ v, follow v → isLink v = false)
    (hoperator : ∀ v, follow v → Operator.ofToken? v = none) :
    Accepts names (parse levels (.binary level)) (parens signs) follow R := by
  have hlength := length_parens signs
  obtain ⟨k, rfl⟩ : ∃ k, levels = k + 1 := ⟨levels - 1, by omega⟩
  exact accepts_binary_one hoperator level ((h.unary (by omega)).mono hlink)

/-- What is an operand is an expression. -/
lemma readable_of_unary (h : ∀ levels, 4 * signs.length ≤ levels + 2 →
      Accepts names (parse levels .unary) signs (isLink · = false) R)
    (hne : signs ≠ []) : Readable names signs R := by
  intro levels hlevels
  have hpos := List.length_pos_of_ne_nil hne
  obtain ⟨k, rfl⟩ : ∃ k, levels = k + 2 := ⟨levels - 2, by omega⟩
  have hunary := (h k hlevels).mono fun v (hv : Ends v) => hv.spec.1
  exact accepts_assignment_one (fun v hv => hv.spec.2.2.1)
    (accepts_conditional_one (by decide) (accepts_binary_one (fun v hv => hv.spec.2.1) 1 hunary))

lemma Readable.parens (h : Readable names signs R) : Readable names (parens signs) R :=
  readable_of_unary (fun _ hlevels => h.unary (by omega)) (List.cons_ne_nil _ _)

/-- A leaf is an operand. -/
lemma readable_leaf (hopens : Opens sign)
    (h : ∀ recur, Accepts names (primary recur) [sign] (isLink · = false) R) :
    Readable names [sign] R := by
  refine readable_of_unary (fun levels hlevels => ?_) (List.cons_ne_nil _ _)
  obtain ⟨k, rfl⟩ : ∃ k, levels = k + 1 := ⟨levels - 1, by simp at hlevels; omega⟩
  exact accepts_unary_primary hopens (h (parse k))

lemma readable_unary (h : Readable names signs R) :
    Readable names (op.sign :: parens signs) fun t => ∃ a, t.form = .unary op a ∧ R a := by
  refine readable_of_unary (fun levels hlevels => ?_) (List.cons_ne_nil _ _)
  rw [List.length_cons] at hlevels
  obtain ⟨k, rfl⟩ : ∃ k, levels = k + 1 := ⟨levels - 1, by omega⟩
  exact accepts_unary_op (h.unary (by omega))

/-- An operand and one link. -/
lemma readable_link {links : List Sign} (h : Readable names signs S) (hne : links ≠ [])
    (hlink : ∀ k start object, 4 * links.length ≤ k → S object →
      Accepts names (link? (parse k) start object) links (isLink · = false) fun o =>
        ∃ t, o = some t ∧ R t) : Readable names (parens signs ++ links) R := by
  refine readable_of_unary (fun levels hlevels => ?_) (List.cons_ne_nil _ _)
  have hpos := List.length_pos_of_ne_nil hne
  rw [List.length_append, length_parens] at hlevels
  obtain ⟨k, rfl⟩ : ∃ k, levels = k + 1 := ⟨levels - 1, by omega⟩
  refine accepts_unary_chain (.inl rfl) (fun _ hv => hv) ?_
  refine accepts_chain links (Opens.not_new (.inl rfl)) (accepts_parens (h k (by omega))) ?_
  intro start n object hn hobject
  exact accepts_chainFrom_link (by omega) (fun _ hv => hv) (hlink k start object (by omega) hobject)

lemma isLink_of_denotes (h : o.sign.Denotes names v) : isLink v = false := by
  cases o with
  | binary op | logical op => cases op <;> cases h <;> rfl

lemma readable_binary (hlhs : Readable names signs R) (hrhs : Readable names more S) :
    Readable names (parens signs ++ o.sign :: parens more)
      fun t => ∃ a b, t.form = o.form a b ∧ R a ∧ S b := by
  intro levels hlevels
  simp only [List.length_append, List.length_cons] at hlevels
  obtain ⟨k, rfl⟩ : ∃ k, levels = k + 2 := ⟨levels - 2, by omega⟩
  have hleft : Accepts names (parse k .unary) (parens signs) (o.sign.Denotes names) R :=
    (hlhs.unary (by omega)).mono fun _ => isLink_of_denotes
  have hright : Accepts names (parse k (.binary o.rightLevel)) (parens more) Ends S :=
    hrhs.binary o.rightLevel (by omega) (fun _ hv => hv.spec.1)
      fun _ hv => hv.spec.2.1
  have hlevel : 1 ≤ o.level := by
    cases o with
    | binary op | logical op => cases op <;> decide
  exact accepts_assignment_one (fun v hv => hv.spec.2.2.1)
    (accepts_conditional_one (by decide)
      (accepts_binary_two (fun v hv => hv.spec.2.1) hlevel hleft hright))

lemma readable_conditional {second third : List Sign} (htest : Readable names signs R)
    (hsecond : Readable names second S) (hthird : Readable names third T) :
    Readable names
      (parens signs ++ .mark .question :: (parens second ++ .mark .colon :: parens third))
      fun t => ∃ a b c, t.form = .conditional a b c ∧ R a ∧ S b ∧ T c := by
  intro levels hlevels
  simp only [List.length_append, List.length_cons] at hlevels
  obtain ⟨k, rfl⟩ : ∃ k, levels = k + 1 := ⟨levels - 1, by omega⟩
  have htest' : Accepts names (parse k (.binary 1)) (parens signs) (· = .punct .question) R :=
    htest.binary 1 (by omega) (by rintro v rfl; rfl) (by rintro v rfl; rfl)
  exact accepts_assignment_one (fun v hv => hv.spec.2.2.1)
    (accepts_conditional_three htest' (hsecond.parens k (by omega))
      (hthird.parens k (by omega)))

lemma isLink_assigner (assigner : Assigner) : isLink (.punct assigner.mark) = false ∧
    Operator.ofToken? (.punct assigner.mark) = none ∧ assigner.mark ≠ .question := by
  obtain ⟨op, mark, spelled⟩ := assigner
  cases op with
  | plain => cases spelled; decide
  | arithmetic op | logical op => cases op <;> cases spelled <;> decide

lemma readable_assign (assigner : Assigner)
    (htarget : Readable names signs fun t => ∃ s, t.form = .identifier s ∧ R t)
    (hvalue : Readable names value S) :
    Readable names (parens signs ++ .mark assigner.mark :: parens value)
      fun t => ∃ a b, t.form = .assign assigner.op a b ∧ R a ∧ S b := by
  intro levels hlevels
  simp only [List.length_append, List.length_cons] at hlevels
  obtain ⟨k, rfl⟩ : ∃ k, levels = k + 1 := ⟨levels - 1, by omega⟩
  obtain ⟨hlink, hoperator, hquestion⟩ := isLink_assigner assigner
  refine accepts_assignment_two (accepts_conditional_one ?_ ?_)
    (hvalue.parens k (by omega))
  · exact fun h => hquestion (TokenValue.punct.inj h).symm
  · exact htarget.binary 1 (by omega) (by rintro v rfl; exact hlink)
      (by rintro v rfl; exact hoperator)

lemma text_of_get? {s : Symbol} {text : String} (h : names.get? s = some text) :
    names.text s = text := by
  rw [Names.text, h]
  rfl

lemma readable_name (x : Identifier) : Readable names [.name x] fun t =>
    ∃ s, t.form = .identifier s ∧ names.text s = String.ofList x.text := by
  refine readable_leaf trivial fun recur => accepts_peek.after fun t ht => ?_
  obtain ⟨s, hv, hs⟩ := ht
  rw [hv]
  exact accepts_leaf fun _ => ⟨s, rfl, text_of_get? hs⟩

lemma readable_numeral (n : Numeral) : Readable names [.numeral n] fun t =>
    ∃ s, t.form = .number s ∧ names.text s = String.ofList n.text := by
  refine readable_leaf trivial fun recur => accepts_peek.after fun t ht => ?_
  obtain ⟨s, hv, hs⟩ := ht
  rw [hv]
  exact accepts_leaf fun _ => ⟨s, rfl, text_of_get? hs⟩

lemma Readable.imp (h : Readable names signs R) (hRS : ∀ t, R t → S t) :
    Readable names signs S := fun levels hlevels => (h levels hlevels).imp hRS

lemma readable_member {property : Identifier} (h : Readable names signs R) :
    Readable names (parens signs ++
        [.mark (if optional then .questionDot else .dot), .name property])
      fun t => ∃ a s, t.form = .member a s optional ∧
        names.text s = String.ofList property.text ∧ R a := by
  refine readable_link h (List.cons_ne_nil _ _) fun k start object _ hobject => ?_
  refine (accepts_member_link start object property optional).imp ?_
  rintro _ ⟨t, rfl, s, ht, hs⟩
  exact ⟨t, rfl, object, s, ht, text_of_get? hs, hobject⟩

lemma readable_index {key : List Sign} (h : Readable names signs R) (hkey : Readable names key S) :
    Readable names (parens signs ++ (optionalMark optional ++ .mark .leftBracket ::
        (parens key ++ [.mark .rightBracket])))
      fun t => ∃ a b, t.form = .index a b optional ∧ R a ∧ S b := by
  refine readable_link h (by simp) fun k start object hk hobject => ?_
  simp only [List.length_append, List.length_cons] at hk
  have hinner : Accepts names (parse k .assignment) (parens key) (· = .punct .rightBracket) S :=
    (hkey.parens k (by omega)).mono (by rintro v rfl; decide)
  refine (accepts_index_link start object optional hinner).imp ?_
  rintro _ ⟨t, rfl, b, ht, hb⟩
  exact ⟨t, rfl, object, b, ht, hobject, hb⟩

lemma readBy_of_readable (h : Readable names e.signs (e.Stands Tree.form names.text)) {k : Nat}
    (hk : 4 * (parens e.signs).length ≤ k) : ReadBy names (parse k) e :=
  h.parens k hk

lemma argumentSigns_eq (es : List Expr) :
    Expr.argumentSigns es = Expr.elementSigns (es.map some) := by
  induction es with
  | nil => rfl
  | cons e es ih => rw [Expr.argumentSigns, ih, List.map_cons, Expr.elementSigns, List.isEmpty_map]

lemma length_le_elementSigns (h : some e ∈ es) :
    (parens e.signs).length ≤ (Expr.elementSigns es).length := by
  induction es with
  | nil => cases h
  | cons f es ih =>
    obtain rfl | h := List.mem_cons.mp h
    · rw [Expr.elementSigns, List.length_append]
      omega
    · have hne : es.isEmpty = false := by simpa using List.ne_nil_of_mem h
      have := ih h
      cases f with
      | none =>
        rw [Expr.elementSigns, List.length_cons]
        omega
      | some f =>
        rw [Expr.elementSigns, List.length_append]
        simp only [commaThen, hne, Bool.false_eq_true, if_false, List.length_cons]
        omega

lemma readable_call {es : List Expr} (h : Readable names signs R)
    (hes : ∀ e ∈ es, Readable names e.signs (e.Stands Tree.form names.text)) :
    Readable names (parens signs ++ (optionalMark optional ++ .mark .leftParen ::
        (Expr.argumentSigns es ++ [.mark .rightParen])))
      fun t => ∃ a as, t.form = .call a as optional ∧ R a ∧
        Expr.StandAll Tree.form names.text es as := by
  refine readable_link h (by simp) fun k start object hk hobject => ?_
  simp only [List.length_append, List.length_cons] at hk
  have hread : ∀ e ∈ es, ReadBy names (parse k) e := fun e he => by
    have := length_le_elementSigns (List.mem_map_of_mem he)
    rw [← argumentSigns_eq] at this
    exact readBy_of_readable (hes e he) (by omega)
  refine (accepts_call_link start object optional (accepts_arguments hread)).imp ?_
  rintro _ ⟨t, rfl, as, ht, has⟩
  exact ⟨t, rfl, object, as, ht, hobject, has⟩

lemma readable_array
    (hes : ∀ e, some e ∈ es → Readable names e.signs (e.Stands Tree.form names.text)) :
    Readable names (.mark .leftBracket :: (Expr.elementSigns es ++ [.mark .rightBracket]))
      fun t => ∃ as, t.form = .array as ∧ Expr.StandHoles Tree.form names.text es as := by
  refine readable_of_unary (fun levels hlevels => ?_) (List.cons_ne_nil _ _)
  simp only [List.length_append, List.length_cons] at hlevels
  obtain ⟨k, rfl⟩ : ∃ k, levels = k + 1 := ⟨levels - 1, by omega⟩
  have hread : ∀ e, some e ∈ es → ReadBy names (parse k) e := fun e he => by
    have := length_le_elementSigns he
    exact readBy_of_readable (hes e he) (by omega)
  refine accepts_unary_primary (.inr rfl) (accepts_peek.after fun t ht => ?_)
  obtain ht : t.value = .punct .leftBracket := ht
  rw [ht]
  exact accepts_array hread

mutual

/-- **The signs of an expression are read as the expression.** -/
theorem readable : (e : Expr) → Readable names e.signs (e.Stands Tree.form names.text)
  | .name x => readable_name x
  | .numeral n => readable_numeral n
  | .unary _ operand => readable_unary (readable operand)
  | .binary _ lhs rhs => readable_binary (readable lhs) (readable rhs)
  | .conditional test consequent alternative =>
    readable_conditional (readable test) (readable consequent) (readable alternative)
  | .assign assigner target value => by
    have htarget : Readable names [.name target] fun t => ∃ s, t.form = .identifier s ∧
        ∃ s, t.form = .identifier s ∧ names.text s = String.ofList target.text :=
      (readable_name target).imp fun t ⟨s, hs, htext⟩ => ⟨s, hs, s, hs, htext⟩
    refine (readable_assign assigner htarget (readable value)).imp ?_
    rintro t ⟨a, b, ht, ⟨s, hs, htext⟩, hb⟩
    exact ⟨a, b, s, ht, hs, htext, hb⟩
  | .member object _ _ => readable_member (readable object)
  | .index object key _ => readable_index (readable object) (readable key)
  | .call callee arguments _ => readable_call (readable callee) (readableAll arguments)
  | .array elements => readable_array (readableHoles elements)

theorem readableAll : (es : List Expr) →
    ∀ e ∈ es, Readable names e.signs (e.Stands Tree.form names.text)
  | [] => fun _ h => by cases h
  | e :: es => List.forall_mem_cons.mpr ⟨readable e, readableAll es⟩

theorem readableHoles : (es : List (Option Expr)) →
    ∀ e, some e ∈ es → Readable names e.signs (e.Stands Tree.form names.text)
  | [] => fun _ h => by cases h
  | none :: es => fun e h => readableHoles es e (by simpa using h)
  | some e :: es => fun f h => by
    obtain heq | h := List.mem_cons.mp h
    · cases heq
      exact readable e
    · exact readableHoles es f h

end

end Grammar

end ValueFlow
