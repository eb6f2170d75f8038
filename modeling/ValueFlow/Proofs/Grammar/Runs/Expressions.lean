import ValueFlow.Proofs.Grammar.Runs

/-!
# Running the rules of expressions

The rules for patterns, functions and expressions find constructs for their roles,
provided the goals they are built from do where they are called. A goal needs four
levels for each token ahead of it and one for each goal that it calls before it takes
a token: a binary expression calls for a unary one, which calls for a `new` expression.

Both sides run the same rule. Where a rule looks at a token, the proofs go through what the
tokens of both sides can be.
-/

namespace ValueFlow

namespace Grammar

open ValueFlow.Parser ValueFlow.Tree

/-- With `levels` levels the goals find their constructs wherever they are called with
few enough tokens ahead. -/
structure Ready (tokens : Tokens) (levels : Nat) (recur : Goal → Parser Tree) : Prop where
  statement  : ∀ i, 4 * (tokens.count - i) + 4 < levels →
                 Finds tokens .statement i (recur .statement)
  assignment : ∀ i, 4 * (tokens.count - i) + 3 < levels → Finds tokens .plain i (recur .assignment)
  binary     : ∀ i level, 4 * (tokens.count - i) + 2 < levels →
                 Finds tokens .plain i (recur (.binary level))
  unary      : ∀ i, 4 * (tokens.count - i) + 1 < levels → Finds tokens .plain i (recur .unary)
  construct  : ∀ i, 4 * (tokens.count - i) < levels → Finds tokens .plain i (recur .construct)
  target     : ∀ i, 4 * (tokens.count - i) < levels →
                 Finds tokens (.pattern .declares) i (recur .target)

variable {tokens : Tokens} {levels i : Nat} {recur : Goal → Parser Tree} {role : Role} {j k : Nat}
  {start' : Token} {ts ts' : List Token} {value : TokenValue} {receiver receiver' : Tree} {l : Nat}
  {key : PropKey Tree} {form : Form Tree} {op : AssignOp} {roles : List Role}

/-! ## Names and properties -/

lemma finds_binding_of (h : ∀ name, (Form.binding name : Form Tree).roles role = some []) :
    Finds tokens role i binding :=
  runs_peek fun _ _ => runs_identifier.bind fun _ name _ _ _ hij =>
    runs_make hij (h name) rfl ⟨rfl, rfl⟩ (.nil (Nat.le_of_lt hij))

lemma finds_binding : Finds tokens (.pattern .declares) i binding := finds_binding_of fun _ => rfl

/-- A name that is declared outside of a pattern. -/
lemma finds_name : Finds tokens .name i binding := finds_binding_of fun _ => rfl

def KeyReads (tokens : Tokens) (i j : Nat) (key : PropKey Tree) : Prop :=
  ∀ t, key = .computed t → t.Reads tokens .plain i j

lemma KeyReads.mono {i' j' : Nat} (h : KeyReads tokens i j key) (hij : i' ≤ i ∧ j ≤ j') :
    KeyReads tokens i' j' key :=
  fun t ht => (h t ht).mono hij

/-- The value of a property stands behind its key, but the text of a method starts with
the property. -/
lemma runs_property_of {part : Role} {key' : PropKey Tree} {value value' : Tree}
    {shorthand : Bool} (hik : i ≤ k) (hkl : k ≤ l) (hkey : KeyReads tokens k l key)
    (hvalue : FoundFrom tokens part (some k) l j value value')
    (hnamed : ∀ name, (Form.property (.named name) value shorthand).roles role = some [part])
    (hcomputed : ∀ t, (Form.property (.computed t) value shorthand).roles role =
      some [.plain, part]) :
    Runs tokens j (make (.property key value shorthand) (tokens.token k))
      (make (.property key' value' shorthand) start') (Found tokens role i) := by
  have hkj : k < j := Nat.lt_of_le_of_lt hkl hvalue.reads.lt
  refine runs_make_of hkj fun _ => ⟨?_, like_node ⟨rfl, hvalue.like.turns⟩⟩
  cases key with
  | named name =>
    exact .whole hik .refl (.inl rfl) hkj .refl rfl (hnamed name)
      (fun _ => Lead.noConfusion) (.cons hkl hvalue.reads (.nil .refl))
  | computed t =>
    exact .whole hik .refl (.inl rfl) hkj .refl rfl (hcomputed t)
      (fun _ => Lead.noConfusion) (.cons .refl (hkey t rfl).loose
        (.cons .refl hvalue.reads (.nil .refl)))

/-! ## Looking around -/

lemma afterDefault_of_dropWhile (hi : i ≤ tokens.count)
    (h : (((tokens.items.take i).reverse.dropWhile fun t =>
      t.value = .keyword .function || t.value = .keyword .async).head?.any
        (·.value = .keyword .default)) = true) : tokens.AfterDefault i := by
  induction i with
  | zero => cases h
  | succ i ih =>
    rw [Tokens.take_succ hi, List.reverse_append, List.reverse_singleton, List.singleton_append,
      List.dropWhile_cons] at h
    split at h
    · next hpassed =>
      obtain ⟨d, hd, hdefault, hbetween⟩ := ih (Nat.le_of_succ_le hi) h
      refine ⟨d, Nat.lt_succ_of_lt hd, hdefault, fun k hdk hk => ?_⟩
      rcases Nat.lt_succ_iff_lt_or_eq.mp hk with hk | rfl
      · exact hbetween k hdk hk
      · simpa using hpassed
    · exact ⟨i, Nat.lt_succ_self i, of_decide_eq_true h, by omega⟩

lemma runs_afterDefault {f g : Bool → Parser Tree} {Q : Nat → Tree → Tree → Prop}
    (hf : ∀ b, (b = true → tokens.AfterDefault i) → Runs tokens i (f b) (g b) Q) :
    Runs tokens i (afterDefault >>= f) (afterDefault >>= g) Q := by
  refine Runs.bind_here (fun s s' hs => .ok .refl hs ?_) hf
  refine ⟨rfl, ?_, fun h => afterDefault_of_dropWhile hs.le (hs.before ▸ h)⟩
  have hbefore := hs.alike.before
  generalize s.before = before, s'.before = before' at hbefore
  induction hbefore with
  | nil => rfl
  | cons ht _ ih =>
    rw [List.dropWhile_cons, List.dropWhile_cons, ht.like.decide_eq rfl, ht.like.decide_eq rfl]
    split
    · exact ih
    · exact ht.like.decide_eq rfl

lemma head?_like (h : List.Forall₂ Token.Like ts ts') (hvalue : value.symbol? = none) :
    (ts.head?.any fun t => t.value = value) = ts'.head?.any fun t => t.value = value := by
  cases h with
  | nil => rfl
  | cons ht => exact ht.decide_eq hvalue

lemma afterBrackets_like (h : List.Forall₂ Token.Like ts ts') (depth : Nat) :
    Option.Rel (List.Forall₂ Token.Like) (afterBrackets depth ts) (afterBrackets depth ts') := by
  induction h generalizing depth with
  | nil => exact .none
  | @cons t t' rest rest' ht hrest ih =>
    obtain ⟨_, _, hlike⟩ := ht.value
    unfold afterBrackets
    have hclose : Option.Rel (List.Forall₂ Token.Like)
        (if depth ≤ 1 then some rest else afterBrackets (depth - 1) rest)
        (if depth ≤ 1 then some rest' else afterBrackets (depth - 1) rest') := by
      split
      · exact .some hrest
      · exact ih _
    generalize t.value = v, t'.value = v' at hlike
    cases hlike with
    | punct mark =>
      cases mark with
      | leftParen | leftBracket | leftBrace => exact ih _
      | rightParen | rightBracket | rightBrace => exact hclose
      | _ => exact ih depth
    | _ => exact ih depth

lemma startsArrow_like (h : List.Forall₂ Token.Like ts ts') :
    startsArrow ts = startsArrow ts' := by
  cases h with
  | nil => rfl
  | @cons t t' rest rest' ht hrest =>
    have hafter := afterBrackets_like (.cons ht hrest) 0
    obtain ⟨_, _, hlike⟩ := ht.value
    dsimp only [startsArrow]
    generalize t.value = v, t'.value = v' at hlike
    generalize afterBrackets 0 (t :: rest) = after, afterBrackets 0 (t' :: rest') = after' at hafter
    cases hlike with
    | identifier => exact head?_like hrest rfl
    | punct mark =>
      cases mark with
      | leftParen =>
        cases hafter with
        | some h => exact head?_like h rfl
        | none => rfl
      | _ => rfl
    | _ => rfl

/-- An `async` arrow function is announced only where its `async` stands. -/
lemma runs_arrowAhead : Gives tokens i arrowAhead fun j r r' =>
    j = i ∧ r = r' ∧ (r = some true → (tokens.token i).value = .keyword .async) := by
  intro s s' hs
  have hrest := hs.alike.rest.imp fun _ _ ht => ht.like
  unfold arrowAhead
  rw [← startsArrow_like hrest, ← head?_like hrest rfl,
    ← startsArrow_like (List.forall₂_drop 1 hrest)]
  split
  · exact .ok .refl hs ⟨rfl, rfl, nofun⟩
  split
  · next hahead =>
    refine .ok .refl hs ⟨rfl, rfl, fun _ => ?_⟩
    rw [Bool.and_eq_true] at hahead
    obtain ⟨t, ht, hvalue⟩ := (Option.any_eq_true _ _).mp hahead.1
    have hnext := hs.next
    rw [List.headD_eq_head?_getD, ht] at hnext
    exact hnext ▸ of_decide_eq_true hvalue
  · exact .ok .refl hs ⟨rfl, rfl, nofun⟩

lemma runs_asyncMethodAhead : Gives tokens i asyncMethodAhead fun j b b' =>
    j = i ∧ b = b' ∧ (b = true → (tokens.token i).value = .keyword .async) := by
  refine runs_peekNext fun _ ht => runs_nextIs rfl fun b hb => runs_pure ⟨rfl, ?_, fun h => ?_⟩
  · simp only [ne_eq, decide_not]
    rw [ht.decide_eq rfl, ht.decide_eq rfl, ht.decide_eq rfl, ht.decide_eq rfl]
  · simp only [Bool.and_eq_true] at h
    exact hb.mp h.1.1.1.1

/-! ## Constructs -/

lemma runs_functionOf {early : Option Nat} {name name' : Option Tree} {params params' : List Tree}
    {body body' : Tree} {flags flags' : FunctionFlags} {m n q : Nat} (hil : i ≤ l) (hkl : k ≤ l)
    (hstart : k = l ∨ early = some k) (hname : AllRead tokens .name l m name.toList)
    (hparams : AllRead tokens (.pattern .declares) m n params) (hnq : n ≤ q)
    (hbody : body.Reads tokens (if flags.expressionBody then .plain else .block) q j)
    (hroles : (Form.function name params body flags).roles role =
      some (Form.function name params body flags).partRoles)
    (hfree : role = .statement → name = none → tokens.AfterDefault k) :
    Runs tokens j (make (.function name params body flags) (tokens.token k))
      (make (.function name' params' body' flags') start')
      (FoundFrom tokens role early i) := by
  have hlj : l < j := Nat.lt_of_le_of_lt (Nat.le_trans ((hname.parts.append hparams.parts).le
    MadeOf.le) hnq) hbody.lt
  have hparts : PartsRead tokens l j (Form.function name params body flags).partRoles
      (Form.function name params body flags).children :=
    (hname.parts.append hparams.parts).append (.cons hnq hbody (.nil .refl))
  refine runs_make_of (Nat.lt_of_le_of_lt hkl hlj) fun _ => ⟨?_, like_node ⟨rfl, rfl⟩⟩
  cases name with
  | none => exact .whole hil hkl hstart hlj .refl rfl hroles (fun hrole _ => hfree hrole rfl) hparts
  | some name => exact .whole hil hkl hstart hlj .refl rfl hroles (fun _ => Lead.noConfusion) hparts

lemma runs_leaf {form' : Form Tree} (hvalue : (tokens.token i).value = value)
    (hroles : form.roles role = some []) (hparts : form.children = []) (hlead : form.lead = .part)
    (hlike : form.Like form') (hend : value != .endOfFile) :
    Runs tokens i (leaf form) (leaf form') (Found tokens role i) :=
  runs_step hvalue hend fun _ _ _ => runs_make .refl hroles hlead
    hlike (hparts ▸ .nil (Nat.le_succ i))

/-- One more link reaches from the start of the chain to behind the token `i`. -/
def Links (tokens : Tokens) (k i j : Nat) (t t' : Tree) : Prop :=
  i < j ∧ Found tokens .plain k j t t'

lemma runs_indexIn {optional : Bool} {index : Parser Tree}
    (hvalue : (tokens.token i).value = value) (hend : value != .endOfFile)
    (hreceiver : receiver.Reads tokens .plain k i)
    (hindex : i < tokens.count → Finds tokens .plain (i + 1) index) :
    Runs tokens i (indexIn receiver optional index (tokens.token k))
      (indexIn receiver' optional index start') (Links tokens k i) := by
  have hki := hreceiver.lt
  refine runs_step hvalue hend fun hlt _ _ => (hindex hlt).bind fun j key _ hij hj hkey => ?_
  refine runs_mark fun _ _ _ => Runs.imp (runs_make (by omega) rfl rfl ⟨rfl, rfl⟩
    (.cons (by omega) hreceiver (.cons (by omega) hkey.reads (.nil (by omega)))))
    fun l t _ hjl _ ht => ⟨by omega, ht⟩

lemma runs_membersFrom (fuel : Nat) (hreceiver : Found tokens .plain k i receiver receiver')
    (hfuel : tokens.count - i < fuel) :
    Runs tokens i (membersFrom (tokens.token k) fuel receiver)
      (membersFrom start' fuel receiver') (Found tokens .plain k) := by
  have hki := hreceiver.reads.lt
  induction fuel generalizing i receiver receiver' with
  | zero => omega
  | succ fuel ih =>
    refine runs_ifTaken runs_takeMark? (fun hlt => runs_propertyName fun _ _ hlt => ?_)
      (runs_pure hreceiver)
    exact runs_make_bind (r := .plain) (by omega) rfl rfl ⟨rfl, rfl⟩
      (.cons (by omega) hreceiver.reads (.nil (by omega))) fun next next' hnext =>
        ih hnext (by omega) hnext.reads.lt

lemma ne_end_of_updateOf? {increment : Bool} (h : updateOf? value = some increment) :
    value ≠ .endOfFile := by
  rintro rfl
  cases h

lemma assignmentTarget_eq (op : AssignOp) (t : Token) (target : Tree) :
    assignmentTarget op t target =
      if target.form.aim = .place then pure target
      else if target.form.aim = .brackets ∧ op = .plain then asPattern target
      else failAt t .invalidTarget := by
  obtain ⟨span, form⟩ := target
  cases form <;> first | rfl | (cases op <;> rfl)

lemma roles_of_place (haim : form.aim = .place) (h : form.roles .plain = some roles) :
    form.roles (.assigned op) = some roles := by
  cases form with
  | identifier | member | index => exact h
  | _ => cases haim

lemma roles_of_brackets {t u : Tree} (haim : t.form.aim = .brackets)
    (hpattern : t.toPattern = .ok u) (h : u.form.roles (.pattern .assigns) = some roles) :
    u.form.roles (.assigned .plain) = some roles := by
  obtain ⟨span, form⟩ := t
  cases form with
  | array | object =>
    obtain ⟨_, -, hnode⟩ := bind_eq_ok hpattern
    cases hnode
    exact h
  | _ => cases haim

/-- What stands before an assignment operator becomes what is assigned to. -/
lemma runs_assignmentTarget {m : Nat} {target target' : Tree} {t' : Token}
    (h : Found tokens .plain k l target target') :
    Runs tokens i (assignmentTarget op (tokens.token m) target)
      (assignmentTarget op t' target') fun _ t _ => t.Reads tokens (.assigned op) k l := by
  rw [assignmentTarget_eq, assignmentTarget_eq, ← h.like.aim]
  refine .ite Iff.rfl (fun haim => runs_pure
    (h.reads.imp (fun _ => roles_of_place haim) Role.noConfusion))
    fun _ => .ite Iff.rfl (fun haim => ?_) fun _ => runs_failAt m _ rfl
  obtain ⟨haim, rfl⟩ := haim
  refine (runs_asPattern h).imp fun _ u _ _ _ hu => ?_
  obtain ⟨-, hpattern, hread⟩ := hu
  exact hread.imp (fun _ => roles_of_brackets haim hpattern) Role.noConfusion

variable (hrec : Ready tokens levels recur) (hlevels : 4 * (tokens.count - i) < levels)
include hrec hlevels

/-! ## Patterns -/

lemma finds_bindingElement :
    Finds tokens (.pattern .declares) i (bindingElement recur) := by
  refine runs_peek fun _ _ => (hrec.target i hlevels).bind fun j target _ hij hj htarget => ?_
  refine runs_ifTaken runs_takeMark? (fun hlt => ?_) (runs_pure htarget)
  refine (hrec.assignment (j + 1) (by omega)).bind fun k value _ hjk hk hvalue => ?_
  exact runs_make (by omega) rfl rfl ⟨rfl, rfl⟩
    (.cons (by omega) htarget.reads (.cons (by omega) hvalue.reads (.nil (by omega))))

lemma runs_propertyKey :
    Gives tokens i (propertyKey recur) fun j r r' =>
      i < j ∧ KeyReads tokens i j r.1 ∧ Option.Rel (fun _ _ => True) r.2 r'.2 ∧
        ∀ name t, r.2 = some (name, t) → r.1 = .named name ∧ t = tokens.token i := by
  refine runs_peek fun t' ⟨⟨_, _, hlike⟩, _⟩ => ?_
  have hname : Runs tokens i
      (do return ((.named (← propertyName) : PropKey Tree), (none : Option (Symbol × Token))))
      (do return ((.named (← propertyName) : PropKey Tree), (none : Option (Symbol × Token))))
      fun j r r' => i < j ∧ KeyReads tokens i j r.1 ∧ Option.Rel (fun _ _ => True) r.2 r'.2 ∧
        ∀ name t, r.2 = some (name, t) → r.1 = .named name ∧ t = tokens.token i :=
    runs_propertyName fun _ _ _ => runs_pure ⟨Nat.lt_succ_self i, nofun, .none, nofun⟩
  generalize hvalue : (tokens.token i).value = v, t'.value = v' at hlike
  cases hlike with
  | identifier =>
    refine runs_step hvalue rfl fun hlt _ _ =>
      runs_pure ⟨by omega, nofun, .some trivial, ?_⟩
    rintro _ _ ⟨⟩
    exact ⟨rfl, rfl⟩
  | punct mark =>
    cases mark with
    | leftBracket =>
      refine runs_step hvalue rfl fun hlt _ _ => ?_
      refine (hrec.assignment (i + 1) (by omega)).bind fun j key _ hij hj hkey => ?_
      refine runs_mark fun _ _ _ => runs_pure ⟨by omega, ?_, .none, nofun⟩
      rintro _ ⟨⟩
      exact hkey.reads.mono (by omega)
    | _ => exact hname
  | _ => exact hname

lemma runs_patternProperty :
    Gives tokens i (patternProperty recur) fun j r r' =>
      Found tokens (.field .declares) i j r.1 r'.1 ∧ r.2 = r'.2 := by
  refine runs_peek fun start' _ => runs_ifTaken runs_takeMark? (fun hlt => ?_) ?_
  · refine finds_binding.bind fun j name _ hij hj hname => ?_
    exact runs_make_bind (by omega) rfl rfl ⟨rfl, rfl⟩
      (.cons (by omega) hname.reads (.nil (by omega))) fun t _ ht => runs_pure ⟨ht, rfl⟩
  refine (runs_propertyKey hrec hlevels).bind ?_
  rintro k ⟨key, short⟩ ⟨key', short'⟩ - hk ⟨hik, hkey, hboth, hshort⟩
  have hproperty : ∀ l value value' shorthand, Found tokens (.pattern .declares) k l value value' →
      Runs tokens l
        (do return (← make (.property key value shorthand) (tokens.token i), Follow.comma))
        (do return (← make (.property key' value' shorthand) start', Follow.comma))
        fun j r r' => Found tokens (.field .declares) i j r.1 r'.1 ∧ r.2 = r'.2 :=
    fun l value value' shorthand hvalue => Runs.bind (runs_property_of .refl
      (Nat.le_of_lt hik) hkey hvalue.loose (fun _ => rfl) fun _ => rfl)
        fun m t _ _ _ ht => runs_pure ⟨ht, rfl⟩
  refine runs_ifTaken runs_takeMark? (fun hlt => ?_) ?_
  · refine (finds_bindingElement hrec (by omega)).bind fun l value _ hkl hl hvalue => ?_
    exact hproperty l value _ false (hvalue.mono (by omega))
  cases hboth with
  | none => exact runs_failHere rfl
  | @some short short' =>
    obtain ⟨name, t⟩ := short
    obtain ⟨name', t'⟩ := short'
    obtain ⟨rfl, rfl⟩ := hshort name t rfl
    -- the value of a shorthand stands where its key does
    have hshorthand : ∀ l value value', Found tokens (.pattern .declares) i l value value' →
        Runs tokens l
          (do return (← make (.property (.named name) value true) (tokens.token i), Follow.comma))
          (do return (← make (.property key' value' true) start', Follow.comma))
          fun j r r' => Found tokens (.field .declares) i j r.1 r'.1 ∧ r.2 = r'.2 :=
      fun l value value' hvalue => runs_make_bind hvalue.reads.lt rfl rfl
        ⟨rfl, hvalue.like.turns⟩ (.one hvalue.reads) fun t _ ht => runs_pure ⟨ht, rfl⟩
    refine runs_make_bind (r := .pattern .declares) hik rfl rfl ⟨rfl, rfl⟩
      (.nil (by omega)) fun value _ hvalue => ?_
    refine runs_ifTaken runs_takeMark? (fun hlt => ?_) (hshorthand k value _ hvalue)
    refine (hrec.assignment (k + 1) (by omega)).bind fun l default _ hkl hl hdefault => ?_
    exact runs_make_bind (r := .pattern .declares) (by omega) rfl rfl ⟨rfl, rfl⟩
      (.cons (by omega) hvalue.reads (.cons (by omega) hdefault.reads (.nil (by omega))))
      fun value _ hvalue => hshorthand l value _ hvalue

lemma runs_patternElement :
    Gives tokens i (patternElement recur)
      (Item (HoleReads tokens (.pattern .declares)) (Option.Rel Tree.Like) i) := by
  refine runs_ifTaken runs_takeMark? (fun _ => runs_pure ⟨Nat.lt_succ_self i,
    .nil (Nat.le_succ i), .none, rfl⟩) (runs_takeMark?.bind fun j dots _ _ _ hdots => ?_)
  cases hdots with
  | yes hlt =>
    refine (hrec.target (i + 1) (by omega)).bind fun k t _ hjk hk ht => ?_
    exact runs_make_bind (by omega) rfl rfl ⟨rfl, rfl⟩
      (.cons (by omega) ht.reads (.nil (by omega)))
      fun t _ ht => runs_pure ⟨ht.reads.lt, .one ht.reads, .some ht.like, rfl⟩
  | no =>
    refine (finds_bindingElement hrec hlevels).bind fun k t _ hik hk ht => ?_
    exact runs_pure ⟨hik, .one ht.reads, .some ht.like, rfl⟩

omit hlevels in
lemma finds_target (hlevels : 4 * (tokens.count - i) ≤ levels) :
    Finds tokens (.pattern .declares) i (target recur) := by
  refine runs_peek fun t' ⟨⟨_, _, hlike⟩, _⟩ => ?_
  generalize hvalue : (tokens.token i).value = v, t'.value = v' at hlike
  cases hlike with
  | punct mark =>
    cases mark with
    | leftBracket =>
      refine runs_step hvalue rfl fun hlt _ _ => ?_
      refine (runs_holesUpTo fun j hij hj => runs_patternElement hrec (by omega)).bind
        fun j es _ hij hj hes => runs_mark fun _ _ _ => ?_
      exact runs_make (by omega) rfl rfl ⟨rfl, rfl⟩ (hes.1.parts.mono (by omega))
    | leftBrace =>
      refine runs_step hvalue rfl fun hlt _ _ => ?_
      refine (runs_treesUpTo fun j hij hj => runs_patternProperty hrec (by omega)).bind
        fun j ps _ hij hj hps => runs_mark fun _ _ _ => ?_
      exact runs_make (by omega) rfl rfl ⟨rfl, rfl⟩ (AllRead.parts (hps.1.mono (by omega)))
    | _ => exact finds_binding
  | _ => exact finds_binding

/-! ## Functions -/

lemma finds_block :
    Finds tokens .block i (block recur) := by
  refine runs_mark fun hlt _ _ => Runs.bind (runs_repeatWhile (fun j _ => ?_) fun j hij hj =>
    hrec.statement j (by omega)) fun j body _ hij hj hbody => runs_mark fun _ _ _ => ?_
  · exact runs_nextIs rfl fun _ _ => runs_atEnd fun _ => runs_pure rfl
  · exact runs_open (by omega) rfl rfl ⟨rfl, rfl⟩ (hbody.parts.mono (by omega))

lemma runs_param :
    Gives tokens i (param recur) fun j r r' =>
      Found tokens (.pattern .declares) i j r.1 r'.1 ∧ r.2 = r'.2 := by
  refine runs_takeMark?.bind fun j dots _ _ _ hdots => ?_
  cases hdots with
  | yes hlt =>
    refine (hrec.target (i + 1) (by omega)).bind fun k t _ hjk hk ht => ?_
    exact runs_make_bind (by omega) rfl rfl ⟨rfl, rfl⟩
      (.cons (by omega) ht.reads (.nil (by omega))) fun t _ ht => runs_pure ⟨ht, rfl⟩
  | no => exact (finds_bindingElement hrec hlevels).bind fun k t _ _ _ ht => runs_pure ⟨ht, rfl⟩

lemma runs_params :
    Gives tokens i (params recur) fun j ts _ =>
      i < j ∧ AllRead tokens (.pattern .declares) i j ts := by
  refine runs_mark fun hlt _ _ => Runs.bind (runs_treesUpTo fun j hij hj =>
    runs_param hrec (by omega)) fun j ts _ hij hj hts => runs_mark fun _ _ _ => ?_
  exact runs_pure ⟨by omega, hts.1.mono (by omega)⟩

/-- A function starts at its `async`, which is taken already, or at `function`. -/
lemma runs_function (isAsync isDeclaration : Bool)
    (hroles : ∀ name params body flags, (Form.function name params body flags).roles role =
      some (Form.function (α := Tree) name params body flags).partRoles)
    (hdeclared : role = .statement → isDeclaration = true)
    (hstart : i = if isAsync then k + 1 else k)
    (hasync : isAsync = true → (tokens.token k).value = .keyword .async) :
    Gives tokens i (function recur isAsync isDeclaration)
      (Found tokens role k) := by
  unfold function
  extract_lets rest
  have hrest : ∀ start', Runs tokens i (rest (tokens.token k)) (rest start')
      (Found tokens role k) := by
    intro start'
    have hki : k ≤ i := by split at hstart <;> omega
    refine runs_keyword fun hlt _ hfunction => runs_takeMark?.bind fun j star _ hij hj hstar => ?_
    refine runs_peek fun t' ⟨⟨_, _, hlike⟩, _⟩ => ?_
    extract_lets withName withName'
    have hwithName : ∀ l (name name' : Option Tree), j ≤ l → l ≤ tokens.count →
        (name = none → l = j) → MaybeFound tokens .name j l name name' →
        Runs tokens l (withName name) (withName' name') (Found tokens role k) := by
      intro l name name' hjl hl hnone hname
      refine runs_afterDefault fun default hdefault => .ite (by rw [hname.isNone])
        (fun _ => runs_failHere_bind rfl) fun hallowed => ?_
      refine (runs_params hrec (by omega)).bind fun m params _ _ hm ⟨hlm, hparams⟩ => ?_
      refine (finds_block hrec (by omega)).bind fun n body _ hmn hn hbody => ?_
      refine runs_functionOf .refl .refl (.inl rfl) (hname.reads.mono (by omega))
        hparams .refl hbody.reads (hroles ..) fun hrole hnameless => ?_
      subst hnameless
      rw [hdeclared hrole] at hallowed
      obtain ⟨d, hd, hdefault, hbetween⟩ := hdefault (by simpa using hallowed)
      -- no token of the function itself is `default`
      obtain rfl := hnone rfl
      have hbefore : d < k := by
        by_contra hge
        rcases Nat.lt_trichotomy d i with hdi | rfl | hdi
        · split at hstart
          · next h =>
            obtain rfl : d = k := by omega
            cases (hasync h).symm.trans hdefault
          · omega
        · cases hfunction.symm.trans hdefault
        · cases hstar with
          | yes _ hstar =>
            obtain rfl : d = i + 1 := by omega
            cases hstar.symm.trans hdefault
          | no => omega
      exact ⟨d, hbefore, hdefault, fun n hdn hnk => hbetween n hdn (by omega)⟩
    have hnone := hwithName j none none .refl hj (fun _ => rfl) (maybeFound_none .refl)
    generalize hvalue : (tokens.token j).value = v, t'.value = v' at hlike
    cases hlike with
    | identifier =>
      refine Runs.bind (Q := fun l name name' => name ≠ none ∧ MaybeFound tokens .name j l name name')
        (.map (Runs.imp finds_name fun _ _ _ _ _ ht => ⟨Option.some_ne_none _, .one ht.reads, rfl⟩))
        fun l name _ hjl hl ⟨hsome, hname⟩ => ?_
      exact hwithName l name _ hjl hl (fun hnone => absurd hnone hsome) hname
    | _ => exact hnone
  refine .ite Iff.rfl (fun hasync => ?_) fun hasync => ?_
  · rw [if_pos hasync] at hstart
    have hk : i - 1 = k := by omega
    exact runs_previous (by omega) fun start' _ => hk.symm ▸ hrest start'
  · rw [if_neg hasync] at hstart
    exact runs_peek fun start' _ => hstart.symm ▸ hrest start'

lemma finds_arrow (isAsync : Bool)
    (hasync : isAsync = true → (tokens.token i).value = .keyword .async) :
    Finds tokens .plain i (arrow recur isAsync) := by
  refine runs_peek fun _ _ => ?_
  extract_lets body rest body' rest'
  have hbody : ∀ j params params', i < j → j ≤ tokens.count →
      AllRead tokens (.pattern .declares) i j params →
      Runs tokens j (body params) (body' params') (Found tokens .plain i) := by
    intro j params params' hij hj hparams
    refine runs_mark fun hlt _ _ => runs_nextIs rfl fun _ _ => .ite Iff.rfl (fun _ => ?_) fun _ => ?_
    · refine (finds_block hrec (by omega)).bind fun k body _ hjk hk hbody => ?_
      exact runs_functionOf .refl .refl (.inl rfl) (.nil .refl) hparams
        (by omega) hbody.reads rfl Role.noConfusion
    · refine (hrec.assignment (j + 1) (by omega)).bind fun k body _ hjk hk hbody => ?_
      exact runs_functionOf .refl .refl (.inl rfl) (.nil .refl) hparams
        (by omega) hbody.reads rfl Role.noConfusion
  have hrest : ∀ j, i ≤ j → j ≤ tokens.count →
      Runs tokens j (rest ()) (rest' ()) (Found tokens .plain i) := by
    intro j hij hj
    have hparams := (runs_params hrec (i := j) (by omega)).bind fun k ts ts' _ hk ⟨hjk, hts⟩ =>
      hbody k ts ts' (by omega) hk (hts.mono (by omega))
    refine runs_peek fun t' ⟨⟨_, _, hlike⟩, _⟩ => ?_
    generalize (tokens.token j).value = v, t'.value = v' at hlike
    cases hlike with
    | identifier =>
      refine finds_binding.bind fun k t t' hjk hk ht => ?_
      exact hbody k [t] [t'] (by omega) hk (.one (ht.reads.mono (by omega)))
    | _ => exact hparams
  refine .of_le fun hi => .ite Iff.rfl (fun h => ?_) fun _ => hrest i .refl hi
  exact runs_step (hasync h) rfl fun hlt _ _ => hrest (i + 1) (by omega) hlt

/-! ## Lists in brackets -/

omit hlevels in
lemma finds_element (hlevels : 4 * (tokens.count - i) + 3 < levels) :
    Finds tokens .plain i (element recur) := by
  refine runs_takeMark?.bind fun j dots _ _ _ hdots => ?_
  cases hdots with
  | yes hlt =>
    refine (hrec.assignment (i + 1) (by omega)).bind fun k t _ hjk hk ht => ?_
    exact runs_make (by omega) rfl rfl ⟨rfl, ht.like.turns⟩
      (.cons (by omega) ht.reads (.nil (by omega)))
  | no => exact hrec.assignment i hlevels

lemma runs_arguments :
    Gives tokens i (arguments recur) fun j ts _ =>
      i < j ∧ AllRead tokens .plain i j ts := by
  refine runs_mark fun hlt _ _ => Runs.bind (runs_commaItems fun j hij hj =>
    finds_element hrec (by omega)).withNoIn fun j ts _ hij hj hts => runs_mark fun _ _ _ => ?_
  exact runs_pure ⟨by omega, hts.1.mono (by omega)⟩

omit hlevels in
lemma runs_arrayElement (hlevels : 4 * (tokens.count - i) + 3 < levels) :
    Gives tokens i (arrayElement recur)
      (Item (HoleReads tokens .plain) (Option.Rel Tree.Like) i) := by
  refine runs_ifTaken runs_takeMark? (fun _ => runs_pure ⟨Nat.lt_succ_self i,
    .nil (Nat.le_succ i), .none, rfl⟩) ?_
  exact (finds_element hrec hlevels).bind fun k t _ hik hk ht =>
    runs_pure ⟨hik, .one ht.reads, .some ht.like, rfl⟩

lemma finds_array :
    Finds tokens .plain i (array recur) := by
  refine runs_mark fun hlt _ _ => Runs.bind (runs_holesUpTo fun j hij hj =>
    runs_arrayElement hrec (by omega)).withNoIn fun j es _ hij hj hes => runs_mark fun _ _ _ => ?_
  exact runs_make (by omega) rfl rfl ⟨rfl, all_turns_holes hes.2⟩ (hes.1.parts.mono (by omega))

lemma finds_property :
    Finds tokens .entry i (property recur) := by
  refine runs_peek fun start' _ => runs_takeMark?.bind fun j dots _ _ hj hdots => ?_
  cases hdots with
  | yes hlt =>
    refine (hrec.assignment (i + 1) (by omega)).bind fun k t _ hjk hk ht => ?_
    exact runs_make (by omega) rfl rfl ⟨rfl, ht.like.turns⟩
      (.cons (by omega) ht.reads (.nil (by omega)))
  | no =>
    refine runs_asyncMethodAhead.bind_here fun isAsync hasync => ?_
    extract_lets rest rest'
    have hrest : ∀ j, i ≤ j → j ≤ tokens.count →
        Runs tokens j (rest ()) (rest' ()) (Found tokens .entry i) := by
      intro j hij hj
      refine (runs_propertyKey hrec (by omega)).bind ?_
      rintro k ⟨key, short⟩ ⟨key', short'⟩ - hk ⟨hjk, hkey, hboth, hshort⟩
      have hproperty : ∀ l value value' shorthand,
          FoundFrom tokens .plain (some i) k l value value' →
          Runs tokens l (make (.property key value shorthand) (tokens.token i))
            (make (.property key' value' shorthand) start') (Found tokens .entry i) :=
        fun l value value' shorthand hvalue => runs_property_of .refl (by omega)
          (hkey.mono ⟨hij, Nat.le_refl k⟩) hvalue (fun _ => rfl) fun _ => rfl
      refine runs_nextIs rfl fun _ _ => .ite Iff.rfl (fun _ => ?_) fun _ => ?_
      · refine (runs_params hrec (by omega)).bind fun l params _ _ hl ⟨hkl, hparams⟩ => ?_
        refine (finds_block hrec (by omega)).bind fun m body _ hlm hm hbody => ?_
        -- the text of a method starts at its key
        exact Runs.bind (runs_functionOf .refl (by omega) (.inr rfl) (.nil .refl)
          hparams .refl hbody.reads rfl Role.noConfusion)
          fun n value _ _ _ hvalue => hproperty n value _ false hvalue
      refine runs_ifTaken runs_takeMark? (fun hlt => ?_) ?_
      · refine (hrec.assignment (k + 1) (by omega)).bind fun l value _ hkl hl hvalue => ?_
        exact hproperty l value _ false (hvalue.mono (by omega)).loose
      cases hboth with
      | none => exact runs_failHere rfl
      | @some short short' =>
        obtain ⟨name, t⟩ := short
        obtain ⟨name', t'⟩ := short'
        obtain ⟨rfl, rfl⟩ := hshort name t rfl
        have hshorthand : ∀ l value value', Found tokens .plain i l value value' →
            Runs tokens l (make (.property (.named name) value true) (tokens.token i))
              (make (.property key' value' true) start') (Found tokens .entry i) :=
          fun l value value' hvalue => runs_make hvalue.reads.lt rfl rfl
            ⟨rfl, hvalue.like.turns⟩ (.one hvalue.reads)
        have hle := Nat.le_of_lt hjk
        -- a name is an expression, and can be assigned to
        refine Runs.bind (Q := fun l t t' => Found tokens .plain j l t t' ∧
            t.Reads tokens (.assigned .plain) j l)
          (runs_make_of hjk fun _ =>
            ⟨⟨reads_whole rfl .refl hjk .refl rfl (fun _ => Lead.noConfusion)
              (.nil hle),
              like_node ⟨rfl, rfl⟩⟩,
              reads_whole rfl .refl hjk .refl rfl (fun _ => Lead.noConfusion)
              (.nil hle)⟩)
          fun l value _ hkl hl ⟨hvalue, htarget⟩ => ?_
        refine runs_ifTaken runs_takeMark? (fun hlt => ?_)
          (hshorthand l value _ (hvalue.mono (by omega)))
        refine (hrec.assignment (l + 1) (by omega)).bind fun m default _ hlm hm hdefault => ?_
        exact runs_make_bind (r := .plain) (by omega) rfl rfl ⟨rfl, rfl⟩
          (.cons (by omega) htarget (.cons (by omega) hdefault.reads (.nil (by omega))))
          fun value _ hvalue => hshorthand m value _ (hvalue.mono (by omega))
    refine .ite Iff.rfl (fun h => ?_) fun _ => hrest i .refl hj
    exact runs_step (hasync h) rfl fun hlt _ _ => hrest (i + 1) (by omega) hlt

lemma finds_object :
    Finds tokens .plain i (object recur) := by
  refine runs_mark fun hlt _ _ => Runs.bind (runs_commaItems fun j hij hj =>
    finds_property hrec (by omega)).withNoIn fun j ps _ hij hj hps => runs_mark fun _ _ _ => ?_
  exact runs_make (by omega) rfl rfl ⟨rfl, all_turns hps.2⟩ (AllRead.parts (hps.1.mono (by omega)))

/-! ## Primary expressions -/

lemma runs_substitutions (fuel : Nat) (hij : i < j) (hfuel : tokens.count - j < fuel) :
    Gives tokens j (substitutions recur fuel) fun k parts _ =>
      AllRead tokens .plain j k (parts.map (·.1)) := by
  induction fuel generalizing j with
  | zero => omega
  | succ fuel ih =>
    refine .of_le fun hj => ?_
    refine (hrec.assignment j (by omega)).bind fun k expr _ hjk hk hexpr => ?_
    -- what comes next is the text after the expression, or the last token again
    refine runs_advance_of_pos (by omega) fun l t t' hkl hl ⟨⟨_, _, hlike⟩, _⟩ => ?_
    have hopen : Runs (β := List (Tree × Symbol)) tokens l
        (do failAt (← previous) .openSubstitution) (do failAt (← previous) .openSubstitution)
        fun m (parts : List (Tree × Symbol)) _ => AllRead tokens .plain j m (parts.map (·.1)) :=
      runs_previous (by omega) fun _ _ => runs_failAt _ _ rfl
    generalize t.value = v, t'.value = v' at hlike
    cases hlike with
    | template part =>
      cases part with
      | middle =>
        refine (ih (by omega) (by omega)).bind fun m parts _ hlm _ hparts => runs_pure ?_
        exact .cons .refl hexpr.reads (hparts.mono ⟨hkl, Nat.le_refl m⟩)
      | tail => exact runs_pure (.cons .refl hexpr.reads (.nil hkl))
      | _ => exact hopen
    | _ => exact hopen

lemma runs_template {head head' : Symbol}
    (hvalue : (tokens.token i).value = .template .head head) :
    Runs tokens i (template recur head) (template recur head') (Found tokens .plain i) := by
  refine runs_step hvalue rfl fun hlt _ _ => runs_rounds fun fuel hfuel => ?_
  refine (runs_substitutions hrec hlevels fuel .refl hfuel).bind
    fun j parts _ hij hj hparts => ?_
  exact runs_make (by omega) rfl rfl ⟨rfl, rfl⟩ (hparts.parts.mono (by omega))

/-- The first token decides which rule reads an expression. -/
lemma finds_primary :
    Finds tokens .plain i (primary recur) := by
  refine runs_peek fun t' ⟨⟨_, _, hlike⟩, _⟩ => ?_
  generalize hvalue : (tokens.token i).value = v, t'.value = v' at hlike
  cases hlike with
  | identifier | number | string =>
    exact runs_leaf hvalue rfl rfl rfl ⟨rfl, rfl⟩ rfl
  | template part =>
    cases part with
    | whole => exact runs_leaf hvalue rfl rfl rfl ⟨rfl, rfl⟩ rfl
    | head => exact runs_template hrec hlevels hvalue
    | _ => exact runs_failAt i _ rfl
  | keyword word =>
    cases word with
    | trueKw | falseKw | null | undefined | this =>
      exact runs_leaf hvalue rfl rfl rfl ⟨rfl, rfl⟩ rfl
    | function =>
      exact runs_function hrec hlevels false false (fun _ _ _ _ => rfl) Role.noConfusion rfl nofun
    | async =>
      refine runs_peekNext fun _ hnext => .ite (hnext.eq_iff rfl) (fun _ => ?_)
        fun _ => runs_failAt i _ rfl
      exact runs_step hvalue rfl fun hlt _ _ =>
        runs_function hrec (by omega) true false (fun _ _ _ _ => rfl) Role.noConfusion rfl
          fun _ => hvalue
    | _ => exact runs_failAt i _ rfl
  | punct mark =>
    cases mark with
    | leftParen =>
      refine runs_step hvalue rfl fun hlt _ _ => ?_
      refine Runs.bind (hrec.assignment (i + 1) (by omega)).withNoIn fun j t _ hij hj ht => ?_
      exact runs_mark fun _ _ _ => runs_pure (ht.mono (by omega))
    | leftBracket => exact finds_array hrec hlevels
    | leftBrace => exact finds_object hrec hlevels
    | _ => exact runs_failAt i _ rfl
  | endOfFile => exact runs_failAt i _ rfl

/-! ## Chains -/

/-- A link is a member, an index or a call, or there is none. -/
lemma runs_link? (hreceiver : receiver.Reads tokens .plain k i) :
    Runs tokens i (link? recur (tokens.token k) receiver) (link? recur start' receiver')
      fun j => Option.Rel (Links tokens k i j) := by
  have hki := hreceiver.lt
  have hsome : ∀ j (p q : Parser Tree), Runs tokens j p q (Links tokens k i) →
      Runs tokens j (some <$> p) (some <$> q) fun j => Option.Rel (Links tokens k i j) :=
    fun j p q hp => .map (hp.imp fun _ _ _ _ _ => .some)
  have hmember : ∀ j name name' optional, i < j → Runs tokens j
      (make (.member receiver name optional) (tokens.token k))
      (make (.member receiver' name' optional) start') (Links tokens k i) :=
    fun j name name' optional hij => Runs.imp (runs_make (by omega) rfl rfl
      ⟨rfl, rfl⟩ (.cons (by omega) hreceiver (.nil (by omega)))) fun l t _ hjl _ ht => ⟨by omega, ht⟩
  have hcall : ∀ j args args' optional, i < j → AllRead tokens .plain i j args → Runs tokens j
      (make (.call receiver args optional) (tokens.token k))
      (make (.call receiver' args' optional) start') (Links tokens k i) :=
    fun j args args' optional hij hargs => Runs.imp (runs_make (by omega) rfl rfl
      ⟨rfl, rfl⟩ (.cons .refl hreceiver hargs.parts))
      fun l t _ hjl _ ht => ⟨by omega, ht⟩
  refine runs_peek fun t' ⟨⟨_, _, hlike⟩, _⟩ => ?_
  generalize hvalue : (tokens.token i).value = v, t'.value = v' at hlike
  cases hlike with
  | punct mark =>
    cases mark with
    | dot =>
      refine runs_step hvalue rfl fun hlt _ _ =>
        runs_propertyName fun name name' _ => ?_
      exact hsome _ _ _ (hmember _ name name' false (by omega))
    | questionDot =>
      refine runs_step hvalue rfl fun hlt _ _ => ?_
      -- behind `?.` come arguments, an index or a name
      refine runs_peek fun t' ⟨⟨_, _, hlike⟩, _⟩ => ?_
      generalize hnext : (tokens.token (i + 1)).value = v, t'.value = v' at hlike
      cases hlike with
      | punct mark =>
        cases mark with
        | leftParen =>
          refine (runs_arguments hrec (by omega)).bind fun j args args' _ _ ⟨hij, hargs⟩ => ?_
          exact hsome j _ _ (hcall j args args' true (by omega) (hargs.mono (by omega)))
        | leftBracket =>
          refine hsome (i + 1) _ _ (Runs.imp
            (runs_indexIn hnext rfl (hreceiver.mono (by omega)) fun hlt =>
            hrec.assignment (i + 2) (by omega)) fun j t _ _ _ ht => ⟨by omega, ht.2⟩)
        | _ => exact runs_propertyName fun name name' _ =>
            hsome _ _ _ (hmember _ name name' true (by omega))
      | _ => exact runs_propertyName fun name name' _ =>
          hsome _ _ _ (hmember _ name name' true (by omega))
    | leftBracket =>
      exact hsome i _ _ (runs_indexIn hvalue rfl hreceiver fun hlt =>
        Runs.withNoIn (hrec.assignment (i + 1) (by omega)))
    | leftParen =>
      refine (runs_arguments hrec hlevels).bind fun j args args' _ _ ⟨hij, hargs⟩ => ?_
      exact hsome j _ _ (hcall j args args' false hij hargs)
    | _ => exact runs_pure .none
  | _ => exact runs_pure .none

lemma runs_chainFrom (fuel : Nat) (hreceiver : Found tokens .plain k i receiver receiver')
    (hfuel : tokens.count - i < fuel) :
    Runs tokens i (chainFrom recur (tokens.token k) fuel receiver)
      (chainFrom recur start' fuel receiver') (Found tokens .plain k) := by
  induction fuel generalizing i receiver receiver' with
  | zero => omega
  | succ fuel ih =>
    refine (runs_link? hrec hlevels hreceiver.reads).bind fun j link link' hij hj hlink => ?_
    cases hlink with
    | none => exact runs_pure (hreceiver.mono (by omega))
    | some hnext => exact ih (by have := hnext.1; omega) hnext.2 (by have := hnext.1; omega)

lemma finds_chain :
    Finds tokens .plain i (chain recur) := by
  refine runs_peek fun start' hstart => ?_
  extract_lets rest rest'
  have hrest : ∀ j receiver receiver', i < j → j ≤ tokens.count →
      Found tokens .plain i j receiver receiver' →
      Runs tokens j (rest receiver) (rest' receiver') (Found tokens .plain i) :=
    fun j receiver receiver' hij hj h => runs_rounds fun fuel hfuel =>
      runs_chainFrom hrec (by omega) fuel h hfuel
  exact .ite (hstart.eq_iff rfl) (fun _ => (hrec.construct i hlevels).bind hrest)
    fun _ => (finds_primary hrec hlevels).bind hrest

omit hlevels in
lemma finds_construct (hlevels : 4 * (tokens.count - i) ≤ levels) :
    Finds tokens .plain i (construct recur) := by
  refine runs_keyword fun hlt start' _ => runs_peek fun first' hfirst => ?_
  extract_lets rest rest'
  have hrest : ∀ j callee callee', i + 1 < j → j ≤ tokens.count →
      Found tokens .plain (i + 1) j callee callee' →
      Runs tokens j (rest callee) (rest' callee') (Found tokens .plain i) := by
    intro j callee callee' hij hj hcallee
    refine runs_rounds fun fuel hfuel => ?_
    refine (runs_membersFrom fuel hcallee hfuel).bind fun l callee callee' hjl hl hcallee => ?_
    have hnew : ∀ m args args', l ≤ m → AllRead tokens .plain l m args →
        Runs tokens m (make (.new callee args) (tokens.token i)) (make (.new callee' args') start')
          (Found tokens .plain i) := fun m args args' hlm hargs =>
      runs_make (by omega) rfl rfl ⟨rfl, rfl⟩ (.cons (by omega) hcallee.reads hargs.parts)
    refine runs_nextIs rfl fun _ _ => .ite Iff.rfl (fun _ => ?_) fun _ =>
      hnew l [] [] .refl (.nil .refl)
    exact (runs_arguments hrec (by omega)).bind fun m args args' hlm _ ⟨_, hargs⟩ =>
      hnew m args args' hlm hargs
  exact .ite (hfirst.eq_iff rfl) (fun _ => (hrec.construct (i + 1) (by omega)).bind hrest)
    fun _ => (finds_primary hrec (by omega)).bind hrest

/-! ## Operators -/

lemma finds_trailing :
    Finds tokens .plain i (trailing recur) := by
  refine runs_peek fun _ _ => (finds_chain hrec hlevels).bind fun j operand _ hij hj hoperand => ?_
  refine runs_peek fun _ hnext => ?_
  rw [← hnext.congr updateOf? fun _ _ _ => ⟨rfl, rfl, rfl, rfl⟩, ← hnext.newline]
  split
  · next hupdate =>
    refine .ite Iff.rfl (fun _ => runs_pure hoperand) fun _ => ?_
    exact runs_advance (ne_end_of_updateOf? hupdate) fun hlt _ _ =>
      runs_make (by omega) rfl rfl ⟨rfl, rfl⟩ (.cons (by omega) hoperand.reads (.nil (by omega)))
  · exact runs_pure hoperand

lemma finds_unary :
    Finds tokens .plain i (unary recur) := by
  -- an operator in front takes a token
  have hoperand : ∀ (form : Tree → Form Tree) (start' : Token),
      (∀ t, (form t).roles .plain = some [.plain]) → (∀ t, (form t).lead = .part) →
      (∀ t t', (form t).Like (form t')) → (∀ t, (form t).children = [t]) → i < tokens.count →
      Runs tokens (i + 1) (do make (form (← recur .unary)) (tokens.token i))
        (do make (form (← recur .unary)) start') (Found tokens .plain i) := by
    intro form start' hroles hlead hlike hparts hlt
    refine (hrec.unary (i + 1) (by omega)).bind fun j t t' hij hj ht => ?_
    exact runs_make (by omega) (hroles t) (hlead t) (hlike t t')
      (hparts t ▸ .cons (by omega) ht.reads (.nil (by omega)))
  refine runs_peek fun start' hstart => ?_
  rw [← hstart.congr UnaryOp.ofToken? fun _ _ _ => ⟨rfl, rfl, rfl, rfl⟩,
    ← hstart.congr updateOf? fun _ _ _ => ⟨rfl, rfl, rfl, rfl⟩]
  split
  · next op hop =>
    refine runs_advance (fun hend => ?_) fun hlt _ _ => hoperand (.unary op) start' (fun _ => rfl)
      (fun _ => rfl) (fun _ _ => ⟨rfl, rfl⟩) (fun _ => rfl) hlt
    rw [hend] at hop
    cases hop
  split
  · next increment hupdate =>
    exact runs_advance (ne_end_of_updateOf? hupdate) fun hlt _ _ => hoperand
      (.update increment true) start' (fun _ => rfl) (fun _ => rfl) (fun _ _ => ⟨rfl, rfl⟩)
      (fun _ => rfl) hlt
  refine .ite (hstart.eq_iff rfl) (fun hvalue => ?_) fun _ => finds_trailing hrec hlevels
  exact runs_step hvalue rfl fun hlt _ _ => hoperand .await start'
    (fun _ => rfl) (fun _ => rfl) (fun _ _ => ⟨rfl, rfl⟩) (fun _ => rfl) hlt

lemma runs_operatorsFrom {level : Nat} (fuel : Nat) {lhs lhs' : Tree}
    (hlhs : Found tokens .plain k i lhs lhs') (hfuel : tokens.count - i < fuel) :
    Runs tokens i (operatorsFrom recur (tokens.token k) level fuel lhs)
      (operatorsFrom recur start' level fuel lhs') (Found tokens .plain k) := by
  have hki := hlhs.reads.lt
  induction fuel generalizing i lhs lhs' with
  | zero => omega
  | succ fuel ih =>
    refine runs_peek fun _ ht => runs_look (k := id) (l := id) (fun s s' hs => ?_) (fun _ => rfl)
      fun _ => rfl
    have hnoIn : (id s).noIn = (id s').noIn := hs.alike.noIn
    rw [← ht.congr Operator.ofToken? fun _ _ _ => ⟨rfl, rfl, rfl, rfl⟩, ht.decide_eq rfl, hnoIn]
    refine .ite Iff.rfl (fun _ => runs_pure hlhs) fun _ => ?_
    split
    · exact runs_pure hlhs
    · next o ho =>
      refine .ite Iff.rfl (fun _ => runs_pure hlhs) fun _ => runs_advance (fun hend => ?_)
        fun hlt _ _ => ?_
      · rw [hend] at ho
        cases ho
      refine (hrec.binary (i + 1) _ (by omega)).bind fun j rhs _ hij hj hrhs => ?_
      have hparts : PartsRead tokens k j [.plain, .plain] [lhs, rhs] :=
        .cons (by omega) hlhs.reads (.cons (by omega) hrhs.reads (.nil (by omega)))
      refine Runs.bind (Q := Found tokens .plain k) ?_ fun l t _ hjl _ ht =>
        ih (by omega) ht (by omega) ht.reads.lt
      cases o <;> exact runs_make (by omega) rfl rfl ⟨rfl, rfl⟩ hparts

omit hlevels in
lemma finds_binary (level : Nat) (hlevels : 4 * (tokens.count - i) + 2 ≤ levels) :
    Finds tokens .plain i (binary recur level) :=
  runs_peek fun _ _ => (hrec.unary i (by omega)).bind fun _ _ _ _ _ hlhs =>
    runs_rounds fun fuel hfuel => runs_operatorsFrom hrec (by omega) fuel hlhs hfuel

omit hlevels in
lemma finds_conditional (hlevels : 4 * (tokens.count - i) + 3 ≤ levels) :
    Finds tokens .plain i (conditional recur) := by
  refine runs_peek fun _ _ => (hrec.binary i 1 (by omega)).bind fun j test _ hij hj htest => ?_
  refine runs_takeMark?.bind fun k question _ hjk hk hquestion => ?_
  cases hquestion with
  | no => exact runs_pure htest
  | yes =>
    refine Finds.bind (Runs.withNoIn (hrec.assignment (j + 1) (by omega)))
      fun l consequent _ hkl hl hconsequent => runs_mark fun hlt _ _ => ?_
    refine (hrec.assignment (l + 1) (by omega)).bind fun m alternative _ hlm hm halternative => ?_
    exact runs_make (by omega) rfl rfl ⟨rfl, rfl⟩
      (.cons (by omega) htest.reads (.cons (by omega) hconsequent.reads
        (.cons (by omega) halternative.reads (.nil (by omega)))))

omit hlevels in
lemma finds_assignment (hlevels : 4 * (tokens.count - i) + 3 ≤ levels) :
    Finds tokens .plain i (assignment recur) := by
  refine runs_peek fun _ _ => runs_arrowAhead.bind_here fun ahead hahead => ?_
  split
  · next isAsync => exact finds_arrow hrec (by omega) isAsync fun h => hahead (h ▸ rfl)
  refine (finds_conditional hrec hlevels).bind fun j target _ hij hj htarget => ?_
  refine runs_peek fun _ hnext => ?_
  rw [← hnext.congr AssignOp.ofToken? fun _ _ _ => ⟨rfl, rfl, rfl, rfl⟩]
  split
  · exact runs_pure htarget
  · next op hop =>
    refine runs_advance (fun hend => ?_) fun hlt _ _ => ?_
    · rw [hend] at hop
      cases hop
    refine (runs_assignmentTarget htarget).bind fun k target _ hjk hk htarget => ?_
    refine (hrec.assignment k (by omega)).bind fun l value _ hkl hl hvalue => ?_
    refine runs_make (by omega) rfl rfl ?_
      (.cons (by omega) htarget (.cons (by omega) hvalue.reads (.nil (by omega))))
    cases op <;> exact ⟨rfl, rfl⟩

end Grammar

end ValueFlow
