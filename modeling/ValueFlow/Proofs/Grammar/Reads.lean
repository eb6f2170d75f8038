import ValueFlow.Proofs.Ast.Copies

/-!
# What a parser reads

A tree that is read from tokens has a place among them and parts that suit it.

`MadeOf` has both, and `MadeOf.toPattern` keeps them when an expression
turns out to be a pattern.
-/

namespace ValueFlow

variable {α β : Type}

/-! ## Roles -/

/-- What the leaves of a pattern are. -/
inductive Mode
  /-- They introduce variables. -/
  | declares
  | assigns
  deriving DecidableEq

/-- What a construct is for. -/
inductive Role
  | module
  /-- An expression, or a spread. -/
  | plain
  /-- A part of an object: a property, or a spread. -/
  | entry
  | statement
  | block
  /-- What is done with an error. -/
  | handler
  /-- One of the variables of a declaration. -/
  | declarator
  | imported
  | exported
  /-- A name that is introduced outside of a pattern. -/
  | name
  /-- What stands first in the head of a `for` statement. -/
  | init
  /-- The target of an assignment. -/
  | assigned (op : AssignOp)
  | pattern (mode : Mode)
  /-- A part of an object pattern, which can be a property. -/
  | field (mode : Mode)
  /-- What stands before `of` or `in` in the head of a loop. -/
  | head

/-- What comes first in a construct. -/
inductive Lead
  | part
  /-- A token of its own, as before every statement inside of another construct. -/
  | mark
  | nameless

def Lead.tokens : Lead → Nat
  | mark => 1
  | part | nameless => 0

namespace Form

variable {α : Type}

def isStatement : Form α → Bool
  | block _ | empty | varDecl .. | function .. | returnStmt _ | ifStmt .. | whileStmt ..
  | forStmt .. | forEach .. | tryStmt .. | throwStmt _ | breakStmt | continueStmt | exprStmt _
  | importDecl .. | exportDecl _ | exportDefault _ | exportNamed .. => true
  | _ => false

def isExpression : Form α → Bool
  | function .. | identifier _ | number _ | string _ | template .. | bool _ | null | undefined
  | this | object _ | property .. | array _ | spread _ | call .. | new .. | member .. | index ..
  | binary .. | logical .. | conditional .. | unary .. | update .. | assign .. | await _ => true
  | _ => false

def isProperty : Form α → Bool
  | property .. => true
  | _ => false

def isVarDecl : Form α → Bool
  | varDecl .. => true
  | _ => false

/-- Whether the construct is one for the role, if no pattern is. -/
def suits (form : Form α) : Role → Bool
  | .plain => form.isExpression && !form.isProperty
  | .entry => form.isExpression
  | .statement => form.isStatement
  | .init => form.isExpression && !form.isProperty || form.isVarDecl
  | .module => match form with | module _ => true | _ => false
  | .block => match form with | block _ => true | _ => false
  | .handler => match form with | catchClause .. => true | _ => false
  | .declarator => match form with | declarator .. => true | _ => false
  | .imported => match form with | importSpecifier .. => true | _ => false
  | .exported => match form with | exportSpecifier .. => true | _ => false
  | .name => match form with | binding _ => true | _ => false
  | .assigned _ | .pattern _ | .field _ | .head => false

def partRoles (form : Form α) : List Role :=
  match form with
  | module body | block body => body.map fun _ => .statement
  | varDecl _ declarators => declarators.map fun _ => .declarator
  | declarator _ init => .pattern .declares :: init.toList.map fun _ => .plain
  | function name params _ flags =>
    name.toList.map (fun _ => .name) ++ params.map (fun _ => .pattern .declares) ++
      [if flags.expressionBody then .plain else .block]
  | ifStmt _ _ alternative => .plain :: .statement :: alternative.toList.map fun _ => .statement
  | whileStmt .. => [.plain, .statement]
  | forStmt init test step _ =>
    init.toList.map (fun _ => .init) ++ test.toList.map (fun _ => .plain) ++
      step.toList.map (fun _ => .plain) ++ [.statement]
  | forEach .. => [.head, .plain, .statement]
  | tryStmt _ handler finalizer =>
    .block :: (handler.toList.map (fun _ => .handler) ++ finalizer.toList.map fun _ => .block)
  | catchClause param _ => param.toList.map (fun _ => .pattern .declares) ++ [.block]
  | importDecl specifiers _ => specifiers.map fun _ => .imported
  | importSpecifier .. => [.name]
  | exportDecl _ => [.statement]
  | exportNamed specifiers _ => specifiers.map fun _ => .exported
  | assign op .. => [.assigned op, .plain]
  | object properties => properties.map fun _ => .entry
  | _ => form.children.map fun _ => .plain

def patternRoles (mode : Mode) (form : Form α) : Option (List Role) :=
  match form with
  | binding _ => if mode = .declares then some [] else none
  | identifier _ => if mode = .assigns then some [] else none
  | member .. => if mode = .assigns then some [.plain] else none
  | index .. => if mode = .assigns then some [.plain, .plain] else none
  | objectPattern properties => some (properties.map fun _ => .field mode)
  | arrayPattern _ | rest _ => some (form.children.map fun _ => .pattern mode)
  | property (.named _) .. => some [.pattern mode]
  | property (.computed _) .. => some [.plain, .pattern mode]
  | assignPattern .. => some [.pattern mode, .plain]
  | _ => none

/-- The roles of the parts of a construct, or none if it does not suit its own. -/
def roles (role : Role) (form : Form α) : Option (List Role) :=
  match role with
  | .pattern mode => if form.isProperty then none else form.patternRoles mode
  | .field mode => form.patternRoles mode
  | .assigned op =>
    match form with
    | identifier _ | member .. | index .. => form.patternRoles .assigns
    | objectPattern _ | arrayPattern _ => if op = .plain then form.patternRoles .assigns else none
    | _ => none
  | .head =>
    if form.isVarDecl then some form.partRoles
    else if form.isProperty then none
    else form.patternRoles .assigns
  | role => if form.suits role then some form.partRoles else none

lemma children_map {β : Type} (f : α → β) (form : Form α) :
    (form.map f).children = form.children.map f := by
  cases form with
  | property key value shorthand => cases key <;> rfl
  | array elements | arrayPattern elements =>
    simp only [map, children, List.filterMap_map, List.map_filterMap]
    rfl
  | _ => simp [map, children, Option.toList_map]

section Shape

variable (form : Form α)

lemma map_children_shape (role : Role) :
    (form.shape.children.map fun _ => role) = form.children.map fun _ => role := by
  rw [shape, children_map, List.map_map]
  rfl

lemma suits_shape (role : Role) : form.shape.suits role = form.suits role := by
  cases role <;> cases form <;> rfl

lemma isVarDecl_shape : form.shape.isVarDecl = form.isVarDecl := by cases form <;> rfl

@[simp] lemma isProperty_shape : form.shape.isProperty = form.isProperty := by cases form <;> rfl

lemma partRoles_shape : form.shape.partRoles = form.partRoles := by
  have hparts := form.map_children_shape .plain
  cases form with
  | module | block | varDecl | importDecl | exportNamed | object => exact List.map_map
  | declarator target init => cases init <;> rfl
  | function name params body flags => cases name <;> simp [shape, map, partRoles]
  | ifStmt test consequent alternative => cases alternative <;> rfl
  | forStmt init test step body => cases init <;> cases test <;> cases step <;> rfl
  | tryStmt body handler finalizer => cases handler <;> cases finalizer <;> rfl
  | catchClause param body => cases param <;> rfl
  | _ => first | rfl | exact hparts

lemma patternRoles_shape (mode : Mode) :
    form.shape.patternRoles mode = form.patternRoles mode := by
  have hparts := form.map_children_shape (.pattern mode)
  cases form with
  | property key value shorthand => cases key <;> rfl
  | objectPattern => exact congrArg some List.map_map
  | _ => first | rfl | exact congrArg some hparts

lemma roles_shape (role : Role) : form.shape.roles role = form.roles role := by
  have hplain : (if form.shape.suits role then some form.shape.partRoles else none) =
      if form.suits role then some form.partRoles else none := by
    rw [suits_shape, partRoles_shape]
  have hpattern := form.patternRoles_shape .assigns
  cases role with
  | pattern mode => rw [roles, roles, isProperty_shape, patternRoles_shape]
  | field mode => exact form.patternRoles_shape mode
  | assigned op => cases form <;> first | exact hpattern | exact if_congr Iff.rfl hpattern rfl | rfl
  | head => rw [roles, roles, isVarDecl_shape, partRoles_shape, isProperty_shape, hpattern]
  | _ => exact hplain

end Shape

lemma roles_of_assigned {form : Form α} {op : AssignOp} {roles : List Role}
    (h : form.roles (.assigned op) = some roles) :
    form.roles (.pattern .assigns) = some roles := by
  cases form <;> first | exact h | exact (Option.ite_none_right_eq_some.mp h).2 | cases h

/-- A pattern of places that exist can be the head of a loop. -/
lemma roles_head {form : Form α} {roles : List Role}
    (h : form.roles (.pattern .assigns) = some roles) : form.roles .head = some roles := by
  cases form <;> first | exact h | cases h

lemma roles_of_block {form : Form α} {roles : List Role} (h : form.roles .block = some roles) :
    form.roles .statement = some roles := by
  cases form <;> first | exact h | cases h

/-- An expression can stand first in the head of a loop. -/
lemma roles_init {form : Form α} {roles : List Role} (h : form.roles .plain = some roles) :
    form.roles .init = some roles := by
  cases form <;> first | exact h | cases h

lemma roles_plain_iff {form : Form α} {roles : List Role} :
    form.roles .plain = some roles ↔ form.roles .entry = some roles ∧ form.isProperty = false := by
  cases form <;> simp [Form.roles, suits, isExpression, isProperty]

lemma roles_pattern_iff {form : Form α} {mode : Mode} {roles : List Role} :
    form.roles (.pattern mode) = some roles ↔
      form.roles (.field mode) = some roles ∧ form.isProperty = false := by
  cases hform : form.isProperty <;> simp [Form.roles, hform]

/-- How a construct starts, where it matters. -/
def lead : Form α → Lead
  | block _ | ifStmt .. | whileStmt .. | forStmt .. | forEach .. | exportDecl _ => .mark
  | function none .. => .nameless
  | _ => .part

lemma lead_shape (form : Form α) : form.shape.lead = form.lead := by
  cases form with
  | function name => cases name <;> rfl
  | _ => rfl

end Form

/-- The construct suits its role, and so do all those below it theirs. -/
inductive Fits {α : Type} (look : α → Form α) : Role → α → Prop
  | whole {role : Role} {x : α} {roles : List Role} (hroles : (look x).roles role = some roles)
      (hparts : List.Forall₂ (Fits look) roles (look x).children) : Fits look role x

lemma fits_pattern_iff {look : α → Form α} {mode : Mode} {x : α} :
    Fits look (.pattern mode) x ↔ Fits look (.field mode) x ∧ (look x).isProperty = false := by
  constructor
  · rintro ⟨hroles, hparts⟩
    obtain ⟨hroles, hkind⟩ := Form.roles_pattern_iff.mp hroles
    exact ⟨.whole hroles hparts, hkind⟩
  · rintro ⟨⟨hroles, hparts⟩, hkind⟩
    exact .whole (Form.roles_pattern_iff.mpr ⟨hroles, hkind⟩) hparts

lemma forall₂_map_const {R : Role → α → Prop} {role : Role} {xs : List α} (h : ∀ x ∈ xs, R role x) :
    List.Forall₂ R (xs.map fun _ => role) xs :=
  List.forall₂_map_left_iff.mpr (List.forall₂_same.mpr h)

/-- What holds of a part in whatever role it has. -/
lemma forall_mem_of_forall₂ {R : β → α → Prop} {p : α → Prop} {roles : List β} {xs : List α}
    (h : List.Forall₂ R roles xs) (hp : ∀ role x, R role x → p x) : ∀ x ∈ xs, p x := fun x hx =>
  let ⟨role, _, hR⟩ := exists_mem_of_forall₂ h hx
  hp role x hR

lemma forall₂_of_append {R : α → β → Prop} {as as' : List α} {bs bs' : List β}
    (h : List.Forall₂ R (as ++ as') (bs ++ bs')) (hlen : as.length = bs.length) :
    List.Forall₂ R as bs ∧ List.Forall₂ R as' bs' := by
  have hleft := List.forall₂_take_append _ bs bs' h
  have hright := List.forall₂_drop_append _ bs bs' h
  rw [List.take_left' hlen] at hleft
  rw [List.drop_left' hlen] at hright
  exact ⟨hleft, hright⟩

/-! ## Places -/

namespace Tokens

variable (tokens : Tokens)

def token (i : Nat) : Token := tokens.items.getD i tokens.finish

def span (k l : Nat) : Span :=
  ⟨(tokens.token k).line, (tokens.token k).start,
    max (tokens.token (l - 1)).stop (tokens.token k).stop⟩

/-- The last token before `k` that cannot be the beginning of a function is `default`. -/
def AfterDefault (k : Nat) : Prop :=
  ∃ d < k, (tokens.token d).value = .keyword .default ∧ ∀ i, d < i → i < k →
    (tokens.token i).value = .keyword .function ∨ (tokens.token i).value = .keyword .async

end Tokens

/-- Things that follow each other between the tokens `i` and `j`. -/
inductive InOrder {α : Type} (R : Nat → Nat → α → Prop) : Nat → Nat → List α → Prop
  | nil {i j : Nat} (hij : i ≤ j) : InOrder R i j []
  | cons {i j k l : Nat} {x : α} {xs : List α} (hik : i ≤ k) (hx : R k l x)
      (hxs : InOrder R l j xs) : InOrder R i j (x :: xs)

namespace InOrder

variable {α : Type} {R : Nat → Nat → α → Prop} {i j i' j' : Nat} {xs ys : List α}

lemma mono (h : InOrder R i j xs) (hij : i' ≤ i ∧ j ≤ j') : InOrder R i' j' xs := by
  induction h generalizing i' with
  | nil h => exact .nil (by omega)
  | cons hik hx _ ih => exact .cons (by omega) hx (ih ⟨Nat.le_refl _, hij.2⟩)

lemma append {k : Nat} (h : InOrder R i k xs) (h' : InOrder R k j ys) :
    InOrder R i j (xs ++ ys) := by
  induction h with
  | nil h => exact h'.mono ⟨h, Nat.le_refl j⟩
  | cons hik hx _ ih => exact .cons hik hx (ih h')

lemma one (h : R i j x) : InOrder R i j [x] := .cons .refl h (.nil .refl)

lemma le (h : InOrder R i j xs) (hR : ∀ k l x, R k l x → k ≤ l) : i ≤ j := by
  induction h with
  | nil h => exact h
  | cons hik hx _ ih => exact Nat.le_trans hik (Nat.le_trans (hR _ _ _ hx) ih)

end InOrder

/-- Things with the given roles that follow each other between the tokens `i` and `j`,
where the text of each may start at the token `early` instead. -/
inductive InRoles {α : Type} (R : Role → Option Nat → Nat → Nat → α → Prop) :
    Nat → Nat → Option Nat → List Role → List α → Prop
  | nil {i j : Nat} {early : Option Nat} (hij : i ≤ j) : InRoles R i j early [] []
  | cons {i j k l : Nat} {early : Option Nat} {role : Role} {roles : List Role} {x : α}
      {xs : List α} (hik : i ≤ k) (hx : R role early k l x) (hxs : InRoles R l j early roles xs) :
      InRoles R i j early (role :: roles) (x :: xs)

namespace InRoles

variable {R : Role → Option Nat → Nat → Nat → α → Prop} {early early' : Option Nat}
  {i j i' j' : Nat} {roles roles' : List Role} {xs xs' : List α}

lemma mono (h : InRoles R i j early roles xs) (hij : i' ≤ i ∧ j ≤ j') :
    InRoles R i' j' early roles xs := by
  induction h generalizing i' with
  | nil h => exact .nil (by omega)
  | cons hik hx _ ih => exact .cons (by omega) hx (ih ⟨Nat.le_refl _, hij.2⟩)

lemma append {k : Nat} (h : InRoles R i k early roles xs) (h' : InRoles R k j early roles' xs') :
    InRoles R i j early (roles ++ roles') (xs ++ xs') := by
  induction h with
  | nil h => exact h'.mono ⟨h, Nat.le_refl j⟩
  | cons hik hx _ ih => exact .cons hik hx (ih h')

lemma one {role : Role} {x : α} (h : R role early i j x) : InRoles R i j early [role] [x] :=
  .cons .refl h (.nil .refl)

lemma le (h : InRoles R i j early roles xs) (hR : ∀ role e k l x, R role e k l x → k ≤ l) :
    i ≤ j := by
  induction h with
  | nil h => exact h
  | cons hik hx _ ih => exact Nat.le_trans hik (Nat.le_trans (hR _ _ _ _ _ hx) ih)

/-- Where each of the things is. -/
lemma forall₂ (h : InRoles R i j early roles xs) (hR : ∀ role e k l x, R role e k l x → k ≤ l) :
    List.Forall₂ (fun role x => ∃ k l, i ≤ k ∧ l ≤ j ∧ R role early k l x) roles xs := by
  induction h with
  | nil => exact .nil
  | cons hik hx hxs ih =>
    refine .cons ⟨_, _, hik, hxs.le hR, hx⟩ (ih.imp fun role y ⟨k, l, hk, hl, hy⟩ => ?_)
    exact ⟨k, l, Nat.le_trans hik (Nat.le_trans (hR _ _ _ _ _ hx) hk), hl, hy⟩

lemma exists_of_mem (h : InRoles R i j early roles xs)
    (hR : ∀ role e k l x, R role e k l x → k ≤ l) {x : α} (hx : x ∈ xs) :
    ∃ role k l, i ≤ k ∧ l ≤ j ∧ R role early k l x := by
  obtain ⟨role, -, hread⟩ := exists_mem_of_forall₂ (h.forall₂ hR) hx
  exact ⟨role, hread⟩

/-- The order goes over to what the things are related to. -/
lemma relate {S : Role → Option Nat → Nat → Nat → β → Prop} {ρ : Role → Role → Prop}
    {C : α → β → Prop} {ys : List β} (h : InRoles R i j early roles xs)
    (hroles : List.Forall₂ ρ roles roles') (hC : List.Forall₂ C xs ys)
    (hS : ∀ {role role'}, ρ role role' → ∀ {x y}, x ∈ xs → C x y →
      ∀ {k l}, R role early k l x → S role' early' k l y) : InRoles S i j early' roles' ys := by
  induction h generalizing roles' ys with
  | nil h =>
    cases hroles
    cases hC
    exact .nil h
  | cons hik hx _ ih =>
    obtain _ | ⟨hrole, hroles⟩ := hroles
    obtain _ | ⟨hxy, hC⟩ := hC
    exact .cons hik (hS hrole List.mem_cons_self hxy hx)
      (ih hroles hC fun hrole _ _ hx => hS hrole (List.mem_cons_of_mem _ hx))

lemma imp {S : Role → Option Nat → Nat → Nat → α → Prop} (h : InRoles R i j early roles xs)
    (hS : ∀ role k l x, R role early k l x → S role early' k l x) :
    InRoles S i j early' roles xs :=
  h.relate (List.forall₂_same.mpr fun _ _ => Eq.refl _) (List.forall₂_same.mpr fun _ _ => Eq.refl _)
    fun hrole _ _ _ hxy _ _ hx => hrole ▸ hxy ▸ hS _ _ _ _ hx

end InRoles

/-- The construct is made of tokens from `i` up to `j` and suits its role, and so do its
parts one after the other. Its text starts at its first token, or at the token `early`: the
text of a method starts before its key, which is no part of it. A function statement without
a name stands where `free` says so. -/
inductive MadeOf {α : Type} (look : α → Form α) (span : α → Span) (place : Nat → Nat → Span)
    (free : Nat → Prop) : Role → Option Nat → Nat → Nat → α → Prop
  | whole {role : Role} {early : Option Nat} {i j k l m : Nat} {x : α} {roles : List Role}
      (him : i ≤ m) (hkm : k ≤ m) (hstart : k = m ∨ early = some k) (hml : m < l) (hlj : l ≤ j)
      (hspan : span x = place k l) (hroles : (look x).roles role = some roles)
      (hname : role = .statement → (look x).lead = .nameless → free k)
      (hparts : InRoles (MadeOf look span place free) (m + (look x).lead.tokens) l
        (bif (look x).isProperty then some k else none) roles (look x).children) :
      MadeOf look span place free role early i j x

namespace MadeOf

variable {look : α → Form α} {span : α → Span} {place : Nat → Nat → Span} {free : Nat → Prop}
  {role role' : Role} {early : Option Nat} {i j i' j' : Nat} {x : α}

lemma lt (h : MadeOf look span place free role early i j x) : i < j := by
  obtain ⟨him, -, -, hml, hlj, -⟩ := h
  omega

lemma le : ∀ role early i j x, MadeOf look span place free role early i j x → i ≤ j :=
  fun _ _ _ _ _ h => Nat.le_of_lt h.lt

lemma mono (h : MadeOf look span place free role early i j x) (hij : i' ≤ i ∧ j ≤ j') :
    MadeOf look span place free role early i' j' x := by
  obtain ⟨him, hkm, hstart, hml, hlj, hspan, hroles, hname, hparts⟩ := h
  exact .whole (Nat.le_trans hij.1 him) hkm hstart hml (Nat.le_trans hlj hij.2) hspan hroles hname
    hparts

/-- What starts at its first token. -/
lemma loose (h : MadeOf look span place free role none i j x) :
    MadeOf look span place free role early i j x := by
  obtain ⟨him, hkm, rfl | hstart, hml, hlj, hspan, hroles, hname, hparts⟩ := h
  · exact .whole him hkm (.inl rfl) hml hlj hspan hroles hname hparts
  · cases hstart

lemma imp (h : MadeOf look span place free role early i j x)
    (hroles : ∀ roles, (look x).roles role = some roles → (look x).roles role' = some roles)
    (hrole : role' ≠ .statement) : MadeOf look span place free role' early i j x := by
  obtain ⟨him, hkm, hstart, hml, hlj, hspan, hpart, -, hparts⟩ := h
  exact .whole him hkm hstart hml hlj hspan (hroles _ hpart) (fun h => absurd h hrole) hparts

lemma of_block (h : MadeOf look span place free .block early i j x) :
    MadeOf look span place free .statement early i j x := by
  obtain ⟨him, hkm, hstart, hml, hlj, hspan, hroles, -, hparts⟩ := h
  refine .whole him hkm hstart hml hlj hspan (Form.roles_of_block hroles) (fun _ hlead => ?_) hparts
  cases hform : look x <;> rw [hform] at hroles hlead <;> first | cases hlead | cases hroles

/-- The text of a construct is that of some tokens. -/
lemma exists_span (h : MadeOf look span place free role early i j x) :
    ∃ k l, (i ≤ k ∨ early = some k) ∧ k < l ∧ l ≤ j ∧ span x = place k l := by
  obtain ⟨him, hkm, hstart, hml, hlj, hspan, -⟩ := h
  refine ⟨_, _, hstart.imp_left fun h => h ▸ him, Nat.lt_of_le_of_lt hkm hml, hlj, hspan⟩

/-- The parts of a construct are read inside of it. -/
lemma exists_part (h : MadeOf look span place free role early i j x) {y : α}
    (hy : y ∈ (look x).children) : ∃ k l, l ≤ j ∧ span x = place k l ∧
      ∃ role' early' k' l', MadeOf look span place free role' early' k' l' y ∧ k ≤ k' ∧ l' ≤ l ∧
        ∀ e, early' = some e → e = k := by
  obtain ⟨-, hkm, -, -, hlj, hspan, -, -, hparts⟩ := h
  obtain ⟨role', k', l', hk', hl', hread⟩ := hparts.exists_of_mem MadeOf.le hy
  refine ⟨_, _, hlj, hspan, role', _, k', l', hread, by omega, hl', fun e he => ?_⟩
  cases hkind : (look x).isProperty <;> rw [hkind] at he <;> cases he
  rfl

mutual

/-- What is read suits its role. -/
theorem fits {role : Role} {early : Option Nat} {i j : Nat} {x : α} :
    MadeOf look span place free role early i j x → Fits look role x
  | .whole _ _ _ _ _ _ hroles _ hparts => .whole hroles (fits_parts hparts)

theorem fits_parts {early : Option Nat} {i j : Nat} {roles : List Role} {xs : List α} :
    InRoles (MadeOf look span place free) i j early roles xs → List.Forall₂ (Fits look) roles xs
  | .nil _ => .nil
  | .cons _ hx hxs => .cons (fits hx) (fits_parts hxs)

end

end MadeOf

namespace Tree

abbrev ReadsFrom (tokens : Tokens) (role : Role) (early : Option Nat) (i j : Nat) (t : Tree) :
    Prop :=
  MadeOf form span tokens.span tokens.AfterDefault role early i j t

abbrev Reads (tokens : Tokens) (role : Role) (i j : Nat) (t : Tree) : Prop :=
  t.ReadsFrom tokens role none i j

variable {tokens : Tokens} {role : Role} {early : Option Nat} {i j : Nat} {t u : Tree}
  {ts : List Tree}

/-! ## Parts -/

/-- Constructs with the given roles that follow each other. -/
abbrev PartsRead (tokens : Tokens) (i j : Nat) : List Role → List Tree → Prop :=
  InRoles (ReadsFrom tokens) i j none

abbrev AllRead (tokens : Tokens) (role : Role) : Nat → Nat → List Tree → Prop :=
  InOrder (Reads tokens role)

lemma AllRead.parts (h : AllRead tokens role i j ts) :
    PartsRead tokens i j (ts.map fun _ => role) ts := by
  induction h with
  | nil h => exact .nil h
  | cons hik ht _ ih => exact .cons hik ht ih

lemma AllRead.filterMap {holes : List (Option Tree)}
    (h : InOrder (fun k l hole => AllRead tokens role k l hole.toList) i j holes) :
    AllRead tokens role i j (holes.filterMap id) := by
  induction h with
  | nil h => exact .nil h
  | @cons i j k l hole holes hik hx _ ih =>
    cases hole with
    | none => exact ih.mono ⟨Nat.le_trans hik (hx.le fun _ _ _ h => Nat.le_of_lt h.lt), Nat.le_refl _⟩
    | some t => exact (hx.mono ⟨hik, Nat.le_refl _⟩).append ih

/-- A construct that starts at the token `k`. -/
lemma reads_whole {k l : Nat} {roles : List Role} (hspan : t.span = tokens.span k l)
    (hik : i ≤ k) (hkl : k < l) (hlj : l ≤ j) (hroles : t.form.roles role = some roles)
    (hname : role = .statement → t.form.lead = .nameless → tokens.AfterDefault k)
    (hparts : PartsRead tokens (k + t.form.lead.tokens) l roles t.form.children) :
    t.Reads tokens role i j :=
  .whole hik .refl (.inl rfl) hkl hlj hspan hroles hname (hparts.imp fun _ _ _ _ h => h.loose)

/-! ## Expressions read again as patterns -/

lemma bind_eq_ok {ε α β : Type} {x : Except ε α} {f : α → Except ε β} {b : β}
    (h : x >>= f = .ok b) : ∃ a, x = .ok a ∧ f a = .ok b := by
  cases x with
  | error e => cases h
  | ok a => exact ⟨a, rfl, h⟩

lemma forall₂_of_listToPatterns {us : List Tree} (h : listToPatterns ts = .ok us) :
    List.Forall₂ (fun t u => t.toPattern = .ok u) ts us := by
  induction ts generalizing us with
  | nil =>
    cases h
    exact .nil
  | cons t ts ih =>
    obtain ⟨v, hv, h⟩ := bind_eq_ok h
    obtain ⟨vs, hvs, h⟩ := bind_eq_ok h
    cases h
    exact .cons hv (ih hvs)

lemma forall₂_of_holesToPatterns {hs ks : List (Option Tree)} (h : holesToPatterns hs = .ok ks) :
    List.Forall₂ (fun t u => t.toPattern = .ok u) (hs.filterMap id) (ks.filterMap id) := by
  induction hs generalizing ks with
  | nil =>
    cases h
    exact .nil
  | cons hole hs ih =>
    cases hole with
    | none =>
      obtain ⟨vs, hvs, h⟩ := bind_eq_ok h
      cases h
      have hlater := ih hvs
      exact hlater
    | some t =>
      obtain ⟨v, hv, h⟩ := bind_eq_ok h
      obtain ⟨vs, hvs, h⟩ := bind_eq_ok h
      cases h
      exact .cons hv (ih hvs)

/-- What an expression, or a part of an object, becomes when it is read again as a
pattern. -/
structure Turns (tokens : Tokens) (t u : Tree) : Prop where
  kind  : u.form.isProperty = t.form.isProperty
  reads : ∀ {early i j}, t.ReadsFrom tokens .entry early i j →
            u.ReadsFrom tokens (.field .assigns) early i j

lemma Turns.plain (h : Turns tokens t u) (ht : t.ReadsFrom tokens .plain early i j) :
    u.ReadsFrom tokens (.pattern .assigns) early i j := by
  have hkind : t.form.isProperty = false := by
    obtain ⟨-, -, -, -, -, -, hroles, -⟩ := ht
    exact (Form.roles_plain_iff.mp hroles).2
  have hread := h.reads (ht.imp (fun _ h => (Form.roles_plain_iff.mp h).1) Role.noConfusion)
  exact hread.imp (fun _ h' => Form.roles_pattern_iff.mpr ⟨h', h.kind.trans hkind⟩)
    Role.noConfusion

/-- Parts that are read again one by one. -/
lemma turns_parts {us : List Tree} (ih : ∀ t ∈ ts, ∀ {u}, t.toPattern = .ok u → Turns tokens t u)
    (h : List.Forall₂ (fun t u => t.toPattern = .ok u) ts us) :
    List.Forall₂ (Turns tokens) ts us := by
  induction h with
  | nil => exact .nil
  | cons hu _ ihs =>
    obtain ⟨ih, ihlater⟩ := List.forall_mem_cons.mp ih
    exact .cons (ih hu) (ihs ihlater)

/-- A construct that becomes another one in its place. -/
lemma Turns.node {span : Span} {form form' : Form Tree} {roles roles' : List Role}
    (hlead : form'.lead.tokens = form.lead.tokens) (hkind : form'.isProperty = form.isProperty)
    (hroles : form.roles .entry = some roles)
    (hroles' : form'.roles (.field .assigns) = some roles')
    (hparts : ∀ {early i j}, InRoles (ReadsFrom tokens) i j early roles form.children →
      InRoles (ReadsFrom tokens) i j early roles' form'.children) :
    Turns tokens (.node span form) (.node span form') where
  kind := hkind
  reads h := by
    obtain ⟨him, hkm, hstart, hml, hlj, hspan, heq, -, hread⟩ := h
    cases hroles.symm.trans heq
    refine .whole him hkm hstart hml hlj hspan hroles' Role.noConfusion ?_
    dsimp only [Tree.form] at hread ⊢
    rw [hlead, hkind]
    exact hparts hread

/-- A list or an object, all of whose parts are read again. -/
lemma Turns.all {span : Span} {form form' : Form Tree} {role role' : Role}
    (hlead : form'.lead.tokens = form.lead.tokens) (hkind : form'.isProperty = form.isProperty)
    (hroles : form.roles .entry = some (form.children.map fun _ => role))
    (hroles' : form'.roles (.field .assigns) = some (form'.children.map fun _ => role'))
    (hturn : ∀ {t u : Tree} {early i j}, Turns tokens t u →
      t.ReadsFrom tokens role early i j → u.ReadsFrom tokens role' early i j)
    (hparts : List.Forall₂ (Turns tokens) form.children form'.children) :
    Turns tokens (.node span form) (.node span form') := by
  refine Turns.node hlead hkind hroles hroles' fun h => h.relate
    (ρ := fun r r' => r = role ∧ r' = role') ?_ hparts ?_
  · exact List.forall₂_map_left_iff.mpr (List.forall₂_map_right_iff.mpr
      (hparts.imp fun _ _ _ => ⟨rfl, rfl⟩))
  · rintro _ _ ⟨rfl, rfl⟩ t u - hturns k l hread
    exact hturn hturns hread

/-- By the recursion of `toPattern`. -/
lemma turns_toPattern (h : t.toPattern = .ok u) : Turns tokens t u := by
  induction t using induction_on_parts generalizing u with
  | whole t ih =>
    obtain ⟨span, form⟩ := t
    unfold Tree.toPattern at h
    split at h
    · cases h
      exact .node rfl rfl rfl rfl id
    · cases h
      exact .node rfl rfl rfl rfl id
    · cases h
      exact .node rfl rfl rfl rfl id
    · obtain ⟨ks, hks, h⟩ := bind_eq_ok h
      cases h
      exact .all rfl rfl rfl rfl Turns.plain (turns_parts ih (forall₂_of_holesToPatterns hks))
    · obtain ⟨us, hus, h⟩ := bind_eq_ok h
      cases h
      exact .all rfl rfl rfl rfl (fun h => h.reads) (turns_parts ih (forall₂_of_listToPatterns hus))
    · next key value shorthand =>
      obtain ⟨v, hv, h⟩ := bind_eq_ok h
      cases h
      cases key with
      | named name =>
        exact .all rfl rfl rfl rfl Turns.plain (.cons (ih value List.mem_cons_self hv) .nil)
      | computed key =>
        have hvalue := ih value (List.mem_pair.mpr (.inr rfl)) hv
        refine .node rfl rfl rfl rfl fun hparts => ?_
        obtain _ | ⟨hik, hkey, hparts⟩ := hparts
        obtain _ | ⟨hkl, hread, hparts⟩ := hparts
        cases hparts with
        | nil hlj => exact .cons hik hkey (.cons hkl (hvalue.plain hread) (.nil hlj))
    · obtain ⟨v, hv, h⟩ := bind_eq_ok h
      cases h
      exact .all rfl rfl rfl rfl Turns.plain (.cons (ih _ List.mem_cons_self hv) .nil)
    · cases h
      refine .node rfl rfl rfl rfl fun hparts => ?_
      obtain _ | ⟨hik, htarget, hparts⟩ := hparts
      exact .cons hik (htarget.imp (fun _ => Form.roles_of_assigned) Role.noConfusion) hparts
    · cases h

end Tree

/-- Reading an expression again as a pattern leaves it in its place, and its leaves
are what can be assigned to. -/
lemma MadeOf.toPattern {tokens : Tokens} {i j : Nat} {t u : Tree} (ht : t.Reads tokens .plain i j)
    (h : t.toPattern = .ok u) : u.Reads tokens (.pattern .assigns) i j :=
  (Tree.turns_toPattern h).plain ht

end ValueFlow
