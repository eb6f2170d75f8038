import Mathlib.Data.List.Forall2
import ValueFlow.Grammar.Operators
import ValueFlow.Proofs.Token.Respacing

/-!
# Printed expressions

Expressions as trees of their own, without symbols, numbers of nodes and places,
and their texts with every part in parentheses.
-/

namespace ValueFlow

open Scan

/-! ## Signs -/

structure Identifier where
  first : Char
  rest  : List Char
  start : isNameStart first = true
  parts : ∀ c ∈ rest, isNamePart c = true
  free  : Keyword.ofText? (String.ofList (first :: rest)) = none

def Identifier.text (x : Identifier) : List Char := x.first :: x.rest

/-- A decimal integer. -/
structure Numeral where
  first  : Char
  rest   : List Char
  digits : ∀ c ∈ first :: rest, c.isDigit = true

def Numeral.text (n : Numeral) : List Char := n.first :: n.rest

/-- A token of a printed text. -/
inductive Sign
  | name (x : Identifier)
  | numeral (n : Numeral)
  | keyword (word : Keyword)
  | mark (p : Punctuator)

namespace Sign

def text : Sign → List Char
  | name x => x.text
  | numeral n => n.text
  | keyword word => word.text.toList
  | mark p => p.text.toList

def lexeme : Sign → Lexeme
  | name x => .identifier x.text
  | numeral n => .number n.text
  | keyword word => .keyword word
  | mark p => .punct p

def piece (s : Sign) : Piece := ⟨[], s.text, s.lexeme⟩

def Denotes (names : Names) : Sign → TokenValue → Prop
  | name x, v => ∃ s, v = .identifier s ∧ names.get? s = some (String.ofList x.text)
  | numeral n, v => ∃ s, v = .number s ∧ names.get? s = some (String.ofList n.text)
  | keyword word, v => v = .keyword word
  | mark p, v => v = .punct p

end Sign

/-! ## Operators -/

def UnaryOp.sign : UnaryOp → Sign
  | not => .mark .bang
  | neg => .mark .minus
  | plus => .mark .plus
  | bitNot => .mark .tilde
  | typeof => .keyword .typeof
  | void => .keyword .void
  | delete => .keyword .delete

def BinaryOp.sign : BinaryOp → Sign
  | add => .mark .plus
  | sub => .mark .minus
  | mul => .mark .star
  | div => .mark .slash
  | mod => .mark .percent
  | exp => .mark .starStar
  | eq => .mark .eqEq
  | notEq => .mark .bangEq
  | strictEq => .mark .eqEqEq
  | strictNotEq => .mark .bangEqEq
  | less => .mark .less
  | greater => .mark .greater
  | lessEq => .mark .lessEq
  | greaterEq => .mark .greaterEq
  | isIn => .keyword .inKw
  | isInstance => .keyword .instanceof
  | bitAnd => .mark .amp
  | bitOr => .mark .pipe
  | bitXor => .mark .caret
  | shiftLeft => .mark .shiftLeft
  | shiftRight => .mark .shiftRight
  | shiftRightUnsigned => .mark .shiftRightUnsigned

def LogicalOp.sign : LogicalOp → Sign
  | and => .mark .ampAmp
  | or => .mark .pipePipe
  | nullish => .mark .questionQuestion

def Operator.sign : Operator → Sign
  | binary op => op.sign
  | logical op => op.sign

/-- The mark of an assignment operator. Comparisons have none. -/
def AssignOp.mark? : AssignOp → Option Punctuator
  | plain => some .assign
  | arithmetic .add => some .plusAssign
  | arithmetic .sub => some .minusAssign
  | arithmetic .mul => some .starAssign
  | arithmetic .div => some .slashAssign
  | arithmetic .mod => some .percentAssign
  | arithmetic .exp => some .starStarAssign
  | arithmetic .bitAnd => some .ampAssign
  | arithmetic .bitOr => some .pipeAssign
  | arithmetic .bitXor => some .caretAssign
  | arithmetic .shiftLeft => some .shiftLeftAssign
  | arithmetic .shiftRight => some .shiftRightAssign
  | arithmetic .shiftRightUnsigned => some .shiftRightUnsignedAssign
  | logical .and => some .ampAmpAssign
  | logical .or => some .pipePipeAssign
  | logical .nullish => some .questionQuestionAssign
  | arithmetic _ => none

structure Assigner where
  op      : AssignOp
  mark    : Punctuator
  spelled : op.mark? = some mark

/-! ## Expressions -/

/-- Expressions. The elements of an array may be missing, and what a chain goes
on with may stand behind `?.`. -/
inductive Expr
  | name (x : Identifier)
  | numeral (n : Numeral)
  | unary (op : UnaryOp) (operand : Expr)
  | binary (op : Operator) (lhs rhs : Expr)
  | conditional (test consequent alternative : Expr)
  | assign (assigner : Assigner) (target : Identifier) (value : Expr)
  | member (object : Expr) (property : Identifier) (optional : Bool)
  | index (object key : Expr) (optional : Bool)
  | call (callee : Expr) (arguments : List Expr) (optional : Bool)
  | array (elements : List (Option Expr))

def parens (signs : List Sign) : List Sign := .mark .leftParen :: (signs ++ [.mark .rightParen])

/-- What stands behind an item of a list: a comma and the rest, unless it is the
last one. -/
def commaThen (last : Bool) (rest : List Sign) : List Sign :=
  if last then [] else .mark .comma :: rest

/-- The sign before an index or a call that is made only on a value. -/
def optionalMark (optional : Bool) : List Sign := if optional then [.mark .questionDot] else []

namespace Expr

mutual

def signs : Expr → List Sign
  | name x => [.name x]
  | numeral n => [.numeral n]
  | unary op operand => op.sign :: parens operand.signs
  | binary op lhs rhs => parens lhs.signs ++ op.sign :: parens rhs.signs
  | conditional test consequent alternative =>
    parens test.signs ++ .mark .question ::
      (parens consequent.signs ++ .mark .colon :: parens alternative.signs)
  | assign assigner target value =>
    parens [.name target] ++ .mark assigner.mark :: parens value.signs
  | member object property optional =>
    parens object.signs ++ [.mark (if optional then .questionDot else .dot), .name property]
  | index object key optional =>
    parens object.signs ++ (optionalMark optional ++ .mark .leftBracket ::
      (parens key.signs ++ [.mark .rightBracket]))
  | call callee arguments optional =>
    parens callee.signs ++ (optionalMark optional ++ .mark .leftParen ::
      (argumentSigns arguments ++ [.mark .rightParen]))
  | array elements => .mark .leftBracket :: (elementSigns elements ++ [.mark .rightBracket])

def argumentSigns : List Expr → List Sign
  | [] => []
  | e :: es => parens e.signs ++ commaThen es.isEmpty (argumentSigns es)

/-- A comma stands for a missing element. -/
def elementSigns : List (Option Expr) → List Sign
  | [] => []
  | none :: es => .mark .comma :: elementSigns es
  | some e :: es => parens e.signs ++ commaThen es.isEmpty (elementSigns es)

end

def statementSigns (e : Expr) (wrapped : Bool) : List Sign :=
  (if wrapped then parens e.signs else e.signs) ++ [.mark .semicolon]

def source (e : Expr) (wrapped : Bool) : String :=
  String.ofList ((e.statementSigns wrapped).flatMap Sign.text)

example : (binary (.logical .nullish)
    (.call (.name ⟨'f', [], by decide, by simp, by decide⟩)
      [.name ⟨'x', [], by decide, by simp, by decide⟩, .numeral ⟨'1', [], by simp⟩] false)
    (.array [none, some (.name ⟨'x', [], by decide, by simp, by decide⟩)])).source false =
    "((f)((x),(1)))??([,(x)]);" := by
  decide

section Stands

variable {α : Type} (form : α → Form α) (text : Symbol → String)

mutual

/-- The construct `n` is the expression, whatever its number and its place. -/
def Stands : Expr → α → Prop
  | name x, n => ∃ s, form n = .identifier s ∧ text s = String.ofList x.text
  | numeral k, n => ∃ s, form n = .number s ∧ text s = String.ofList k.text
  | unary op operand, n => ∃ a, form n = .unary op a ∧ operand.Stands a
  | binary op lhs rhs, n => ∃ a b, form n = op.form a b ∧ lhs.Stands a ∧ rhs.Stands b
  | conditional test consequent alternative, n => ∃ a b c, form n = .conditional a b c ∧
      test.Stands a ∧ consequent.Stands b ∧ alternative.Stands c
  | assign assigner target value, n => ∃ a b s, form n = .assign assigner.op a b ∧
      form a = .identifier s ∧ text s = String.ofList target.text ∧ value.Stands b
  | member object property optional, n => ∃ a s, form n = .member a s optional ∧
      text s = String.ofList property.text ∧ object.Stands a
  | index object key optional, n => ∃ a b, form n = .index a b optional ∧
      object.Stands a ∧ key.Stands b
  | call callee arguments optional, n => ∃ a as, form n = .call a as optional ∧
      callee.Stands a ∧ StandAll arguments as
  | array elements, n => ∃ as, form n = .array as ∧ StandHoles elements as

def StandAll : List Expr → List α → Prop
  | [], [] => True
  | e :: es, a :: as => e.Stands a ∧ StandAll es as
  | _, _ => False

def StandHoles : List (Option Expr) → List (Option α) → Prop
  | [], [] => True
  | none :: es, none :: as => StandHoles es as
  | some e :: es, some a :: as => e.Stands a ∧ StandHoles es as
  | _, _ => False

end

end Stands

end Expr

/-! ## Reading signs -/

lemma Scan.starts_append {test : Char → Bool} {a r : List Char}
    (h : a.head?.any test = true) : Starts test (a ++ r) := by
  cases a with
  | nil => cases h
  | cons c a => exact starts_cons.mpr h

namespace Sign

lemma contains_of_test {test : Char → Bool} {c : Char} {cs : List Char} (hc : test c = true)
    (hcs : cs.all (!test ·) = true) : cs.contains c = false := by
  rw [Bool.eq_false_iff, Ne, List.contains_iff_mem]
  intro hmem
  simpa [hc] using List.all_eq_true.mp hcs c hmem

/-- Brackets and separators. -/
def brackets : List Punctuator :=
  [.leftParen, .rightParen, .leftBracket, .rightBracket, .comma, .colon, .semicolon]

/-- An integer is one number. -/
lemma numberLength_digits {w : List Char} (h : ∀ c ∈ w, c.isDigit = true) :
    numberLength w = w.length := by
  have hbased : ¬ isBased w = true := by
    rw [isBased_iff]
    rintro ⟨mark, rest, rfl, hmark⟩
    have hdigit : mark.isDigit = true := h mark (by simp)
    rw [isBaseMark, contains_of_test hdigit (by decide)] at hmark
    cases hmark
  have htake : w.takeWhile (fun c => c.isDigit || c = '_' || c = '.') = w :=
    List.takeWhile_eq_self_iff.mpr fun c hc => by simp [h c hc]
  have hplain : plainNumberLength w = w.length := by
    rw [plainNumberLength_eq, if_neg hbased, plainNumberLength.decimalLength, htake,
      List.drop_length]
    rfl
  rw [numberLength, hplain, List.drop_length]

lemma exists_keyword_eq (word : Keyword) : ∃ c w, word.text.toList = c :: w ∧
    isNameStart c = true ∧ (∀ d ∈ w, isNamePart d = true) ∧
    Lexeme.ofWord word.text.toList = .keyword word := by
  cases word <;> exact ⟨_, _, rfl, by decide, List.all_eq_true.mp (by decide), rfl⟩

lemma reads (s : Sign) {r : List Char} (hr : Starts isParting r) :
    Reads [] s.text r s.lexeme [] := by
  have hname : Starts (fun d => !isNamePart d) r :=
    hr.mono fun c hc => by simp [(Parting.of_isParting hc).name]
  have hdigit : Starts (fun c => !c.isDigit) r :=
    hr.mono fun c hc => by simp [(Parting.of_isParting hc).digit]
  cases s with
  | name x =>
    have hword : Lexeme.ofWord x.text = .identifier x.text := by
      rw [Lexeme.ofWord, Identifier.text, x.free]
    rw [text, lexeme, ← hword]
    exact .word x.start x.parts hname
  | numeral n =>
    have hown : numberLength (n.text ++ []) = n.text.length := by
      rw [List.append_nil]
      exact numberLength_digits n.digits
    exact .number (.inl (n.digits _ List.mem_cons_self)) (numberLength_parted hown hr)
      (hr.mono fun c hc => by simp [(Parting.of_isParting hc).alpha])
  | keyword word =>
    obtain ⟨c, w, htext, hc, hw, hword⟩ := exists_keyword_eq word
    rw [text, lexeme, ← hword, htext]
    exact .word hc hw hname
  | mark p =>
    have hjoint : Starts (fun c => !isJoint c) r :=
      hr.mono fun c hc => by simp [(Parting.of_isParting hc).joint]
    by_cases hopen : p = .leftBrace
    · subst hopen
      exact .openBrace
    by_cases hclose : p = .rightBrace
    · subst hclose
      exact .outerBrace
    · exact .mark (punctuator?_text_append p hjoint hdigit) hopen hclose
        (fun _ => hr.mono fun c hc => by
          simp [(Parting.of_isParting hc).slash, (Parting.of_isParting hc).star])
        fun _ => hdigit

/-- Nothing goes on with a bracket or a separator. -/
lemma reads_bracket {p : Punctuator} (hp : p ∈ brackets) (r : List Char) :
    Reads [] p.text.toList r (.punct p) [] := by
  have hslash : p ≠ .slash := by rintro rfl; exact absurd hp (by decide)
  have hdot : p ≠ .dot := by rintro rfl; exact absurd hp (by decide)
  refine .mark ?_ ?_ ?_ (fun h => absurd h hslash) fun h => absurd h hdot
  · revert hp
    cases p <;> first | (exact fun _ => rfl) | (intro hp; exact absurd hp (by decide))
  · rintro rfl
    exact absurd hp (by decide)
  · rintro rfl
    exact absurd hp (by decide)

/-- The point of a member stands before its name. -/
lemma reads_point {p : Punctuator} (hp : p = .questionDot ∨ p = .dot) (x : Identifier)
    (r : List Char) : Reads [] p.text.toList (x.text ++ r) (.punct p) [] := by
  have hjoint : Starts (fun c => !isJoint c) (x.text ++ r) :=
    starts_cons.mpr (by rw [isJoint, contains_of_test x.start (by decide)]; rfl)
  have hdigit : Starts (fun c => !c.isDigit) (x.text ++ r) :=
    starts_cons.mpr (by simp [isDigit_of_isNameStart x.start])
  have hread := punctuator?_text_append p hjoint hdigit
  rcases hp with rfl | rfl
  · exact .mark hread (by decide) (by decide) nofun fun _ => hdigit
  · exact .mark hread (by decide) (by decide) nofun fun _ => hdigit

end Sign

/-! ## Cutting printed texts -/

/-- The text of signs that stand close to each other. -/
def signText (signs : List Sign) : List Char := signs.flatMap Sign.text

@[simp] lemma signText_cons (s : Sign) (signs : List Sign) :
    signText (s :: signs) = s.text ++ signText signs := rfl

@[simp] lemma signText_append (signs more : List Sign) :
    signText (signs ++ more) = signText signs ++ signText more := List.flatMap_append

def Solid (signs : List Sign) : Prop := ∀ (r rest : List Char) (ps : List Piece),
  Cuts [] r ps rest → Cuts [] (signText signs ++ r) (signs.map Sign.piece ++ ps) rest

/-- The signs are cut off a text that parts them from what comes. -/
def Firm (signs : List Sign) : Prop := ∀ (r rest : List Char) (ps : List Piece),
  Starts isParting r → Cuts [] r ps rest →
    Cuts [] (signText signs ++ r) (signs.map Sign.piece ++ ps) rest

variable {signs : List Sign} {more : List Sign}

lemma Solid.firm (h : Solid signs) : Firm signs :=
  fun r rest ps _ hcuts => h r rest ps hcuts

lemma firm_one (s : Sign) : Firm [s] := by
  intro r rest ps hr hcuts
  rw [signText_cons, List.append_assoc]
  exact .read .nil (s.reads hr) hcuts

lemma solid_bracket (p : Punctuator) (hp : p ∈ Sign.brackets) : Solid [.mark p] := by
  intro r rest ps hcuts
  rw [signText_cons, List.append_assoc]
  exact .read .nil (Sign.reads_bracket hp r) hcuts

lemma firm_point {p : Punctuator} (hp : p = .questionDot ∨ p = .dot) (x : Identifier) :
    Firm [.mark p, .name x] := by
  intro r rest ps hr hcuts
  rw [signText_cons, List.append_assoc]
  refine .read .nil ?_ (firm_one (.name x) r rest ps hr hcuts)
  rw [signText_cons, List.append_assoc]
  exact Sign.reads_point hp x r

lemma solid_nil : Solid [] := fun _ _ _ h => h

lemma Solid.append (h : Solid signs) (hmore : Solid more) :
    Solid (signs ++ more) := by
  intro r rest ps hcuts
  rw [signText_append, List.append_assoc, List.map_append, List.append_assoc]
  exact h _ _ _ (hmore r rest ps hcuts)

lemma Solid.append_firm (h : Solid signs) (hmore : Firm more) :
    Firm (signs ++ more) := by
  intro r rest ps hr hcuts
  rw [signText_append, List.append_assoc, List.map_append, List.append_assoc]
  exact h _ _ _ (hmore r rest ps hr hcuts)

lemma Firm.append (h : Firm signs) (hmore : Solid more)
    (hstart : (signText more).head?.any isParting = true) : Solid (signs ++ more) := by
  intro r rest ps hcuts
  rw [signText_append, List.append_assoc, List.map_append, List.append_assoc]
  exact h _ _ _ (starts_append hstart) (hmore r rest ps hcuts)

lemma Firm.parens (h : Firm signs) : Solid (parens signs) :=
  (solid_bracket .leftParen (by decide)).append
    (h.append (solid_bracket .rightParen (by decide)) rfl)

lemma solid_optionalMark (optional : Bool) (h : Solid signs)
    (hstart : (signText signs).head?.any isParting = true) :
    Solid (optionalMark optional ++ signs) := by
  cases optional with
  | false => exact h
  | true => exact (firm_one _).append h hstart

lemma Solid.commaThen (h : Solid signs) {last : Bool} :
    Solid (commaThen last signs) := by
  cases last with
  | true => exact solid_nil
  | false => exact (solid_bracket .comma (by decide)).append h

lemma Solid.between (h : Solid signs) {p q : Punctuator}
    (hp : p ∈ Sign.brackets) (hq : q ∈ Sign.brackets) :
    Solid (.mark p :: (signs ++ [.mark q])) :=
  (solid_bracket p hp).append (h.append (solid_bracket q hq))

/-- A sign before a part in parentheses. -/
lemma Firm.behind (h : Firm signs) (s : Sign) :
    Solid (s :: ValueFlow.parens signs) :=
  (firm_one s).append h.parens rfl

namespace Expr

mutual

/-- The signs of an expression are cut off its text. -/
theorem firm_signs : (e : Expr) → Firm e.signs
  | name x => firm_one (.name x)
  | numeral n => firm_one (.numeral n)
  | unary op operand => ((firm_signs operand).behind op.sign).firm
  | binary op lhs rhs => ((firm_signs lhs).parens.append ((firm_signs rhs).behind op.sign)).firm
  | conditional test consequent alternative => by
    have hlast := (firm_signs alternative).behind (.mark .colon)
    have hrest := ((firm_signs consequent).behind (.mark .question)).append hlast
    exact ((firm_signs test).parens.append hrest).firm
  | assign assigner target value =>
    ((firm_one (.name target)).parens.append ((firm_signs value).behind (.mark assigner.mark))).firm
  | member object property optional =>
    (firm_signs object).parens.append_firm (firm_point (by cases optional <;> decide) property)
  | index object key optional => by
    have hkey : Solid (.mark .leftBracket :: (parens key.signs ++ [.mark .rightBracket])) :=
      (firm_signs key).parens.between (by decide) (by decide)
    exact ((firm_signs object).parens.append (solid_optionalMark optional hkey rfl)).firm
  | call callee arguments optional => by
    have hlist : Solid (.mark .leftParen :: (argumentSigns arguments ++ [.mark .rightParen])) :=
      (solid_argumentSigns arguments).between (by decide) (by decide)
    exact ((firm_signs callee).parens.append (solid_optionalMark optional hlist rfl)).firm
  | array elements => ((solid_elementSigns elements).between (by decide) (by decide)).firm

theorem solid_argumentSigns : (es : List Expr) → Solid (argumentSigns es)
  | [] => solid_nil
  | e :: es => (firm_signs e).parens.append (solid_argumentSigns es).commaThen

theorem solid_elementSigns : (es : List (Option Expr)) → Solid (elementSigns es)
  | [] => solid_nil
  | none :: es => (solid_bracket .comma (by decide)).append (solid_elementSigns es)
  | some e :: es => (firm_signs e).parens.append (solid_elementSigns es).commaThen

end

end Expr

/-! ## Scanning printed texts -/

lemma Scan.ascii_of_isNamePart {c : Char} (h : isNamePart c = true) : c.toNat < 128 := by
  unfold isNamePart Char.isAlphanum Char.isAlpha Char.isUpper Char.isLower at h
  simp only [Char.isDigit, UInt32.le_iff_toNat_le, Bool.or_eq_true, Bool.and_eq_true,
    decide_eq_true_eq, ge_iff_le] at h
  have hval : c.toNat = c.val.toNat := rfl
  rcases h with (((h | h) | h) | rfl) | rfl
  · exact Nat.lt_of_le_of_lt h.2 (by decide)
  · exact Nat.lt_of_le_of_lt h.2 (by decide)
  · exact Nat.lt_of_le_of_lt h.2 (by decide)
  · decide
  · decide

lemma Sign.ascii_text (s : Sign) : ∀ c ∈ s.text, c.toNat < 128 := by
  have hpart : ∀ c, isNamePart c = true → c.toNat < 128 := fun _ => ascii_of_isNamePart
  cases s with
  | name x =>
    exact List.forall_mem_cons.mpr ⟨hpart _ (isNamePart_of_isNameStart x.start),
      fun c hc => hpart c (x.parts c hc)⟩
  | numeral n =>
    intro c hc
    refine hpart c ?_
    simp [isNamePart, Char.isAlphanum, n.digits c hc]
  | keyword word =>
    have hall : word.text.toList.all (·.toNat < 128) = true := by cases word <;> decide
    exact fun c hc => of_decide_eq_true (List.all_eq_true.mp hall c hc)
  | mark p =>
    have hall : p.text.toList.all (·.toNat < 128) = true := by cases p <;> decide
    exact fun c hc => of_decide_eq_true (List.all_eq_true.mp hall c hc)

namespace Sign

/-- What a sign denotes stays the same in a longer table. -/
lemma Denotes.extend {names names' : Names} {s : Sign} {v : TokenValue}
    (h : s.Denotes names v) (hext : Numbering.Extends names names') : s.Denotes names' v := by
  cases s with
  | name | numeral =>
    obtain ⟨k, hv, hk⟩ := h
    exact ⟨k, hv, hext _ _ hk⟩
  | keyword | mark => exact h

lemma denotes_enter (names : Names) (s : Sign) :
    s.Denotes (s.lexeme.enter names).2 (s.lexeme.enter names).1 := by
  cases s with
  | name | numeral => exact ⟨_, rfl, Numbering.get?_number names _⟩
  | keyword | mark => rfl

lemma denotes_enterAll (names : Names) (signs : List Sign) :
    List.Forall₂ (Denotes (Lexeme.enterAll names (signs.map lexeme)).2) signs
      (Lexeme.enterAll names (signs.map lexeme)).1 := by
  induction signs generalizing names with
  | nil => exact .nil
  | cons s signs ih =>
    exact .cons ((denotes_enter names s).extend (Lexeme.extends_enterAll _ _)) (ih _)

def Spell (names : Names) (signs : List Sign) (tokens : List Token) : Prop :=
  List.Forall₂ (fun s t => s.Denotes names t.value) signs tokens

end Sign

/-- Signs that are cut off every text are scanned. -/
lemma Solid.scan_eq (h : Solid signs) (names : Names) :
    ∃ tokens names', scan (String.ofList (signText signs)) names = (.ok tokens, names') ∧
      Sign.Spell names' signs tokens.items ∧ tokens.finish.value = .endOfFile := by
  have hcuts := h [] [] [] (.done .nil)
  simp only [List.append_nil] at hcuts
  have hvalues := layOut_values [] (signs.map Sign.piece) 0 1 names
  have hlexemes : (signs.map Sign.piece).map (·.lexeme) = signs.map Sign.lexeme := by
    simp [Sign.piece]
  rw [hlexemes] at hvalues
  have hascii : (String.ofList (signText signs)).toList.all (·.toNat < 128) = true := by
    rw [String.toList_ofList, List.all_eq_true]
    intro c hc
    obtain ⟨s, -, hc⟩ := List.mem_flatMap.mp hc
    exact decide_eq_true (s.ascii_text c hc)
  have hspell := Sign.denotes_enterAll names signs
  rw [← hvalues, List.forall₂_map_right_iff] at hspell
  rw [← String.toList_ofList (l := signText signs)] at hcuts
  exact ⟨_, _, scan_eq_ok_iff.mpr ⟨hascii, _, _, hcuts, rfl⟩, hspell, layOut_finish ..⟩

/-- **A printed expression is scanned into its signs.** -/
theorem Expr.scan_source (e : Expr) (wrapped : Bool) (names : Names) :
    ∃ tokens names', scan (e.source wrapped) names = (.ok tokens, names') ∧
      Sign.Spell names' (e.statementSigns wrapped) tokens.items ∧
      tokens.finish.value = .endOfFile := by
  refine Solid.scan_eq ?_ names
  have hend : Solid [.mark .semicolon] := solid_bracket _ (by decide)
  cases wrapped with
  | false => exact e.firm_signs.append hend rfl
  | true => exact e.firm_signs.parens.append hend

end ValueFlow
