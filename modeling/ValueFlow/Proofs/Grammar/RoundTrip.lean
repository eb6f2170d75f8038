import ValueFlow.Proofs.Built
import ValueFlow.Proofs.Grammar.Reading

/-!
# Printing and parsing

An expression that is printed with all its parts in parentheses, with a semicolon
behind it, is a module of one statement, which holds the expression again.

The text is scanned into the signs of the expression (`Expr.scan_source`), and the
rules of the grammar read these as the expression (`Grammar.readable`). What is
left is the statement around it, and the way from the tree to nodes.
-/

namespace ValueFlow

open ValueFlow.Parser
open Sign (Next)

variable {names : Names} {signs : List Sign} {follow : TokenValue → Prop} {R : Tree → Prop}

namespace Grammar

/-! ## Statements -/

/-- What an expression starts with. -/
def Begins (sign : Sign) : Prop := Opens sign ∨ ∃ op : UnaryOp, sign = op.sign

lemma accepts_semicolon : Accepts names semicolon [.mark .semicolon] follow fun _ => True := by
  refine (accepts_takeMark .semicolon).bind fun o ho => ?_
  rw [if_pos ho]
  exact accepts_pure trivial

/-- What starts as an expression is an expression statement. -/
lemma accepts_statement {recur : Goal → Parser Tree} {first : Sign} {more : List Sign}
    (hfirst : Begins first)
    (h : Accepts names (recur .assignment) (first :: more) Ends R) :
    Accepts names (statement recur) (first :: more ++ [.mark .semicolon]) follow
      fun t => ∃ a, t.form = .exprStmt a ∧ R a := by
  have hexpr : Accepts names (exprStatement recur) (first :: more ++ [.mark .semicolon]) follow
      fun t => ∃ a, t.form = .exprStmt a ∧ R a := by
    refine accepts_peek.after fun start _ => ?_
    refine (h.mono ?_).bind fun a ha => ?_
    · rintro v rfl
      decide
    · exact accepts_semicolon.bind fun _ _ => accepts_make fun _ => ⟨a, rfl, ha⟩
  refine accepts_peek.after fun t ht => ?_
  obtain hopens | ⟨op, rfl⟩ := hfirst
  · cases first with
    | name | numeral =>
      obtain ⟨s, hv, -⟩ := ht
      rw [hv]
      exact hexpr
    | mark p =>
      obtain ht : t.value = .punct p := ht
      rw [ht]
      rcases hopens with rfl | rfl
      · exact hexpr
      · exact hexpr
    | keyword => exact hopens.elim
  · cases op with
    | not | neg | plus | bitNot =>
      obtain ht : t.value = .punct _ := ht
      rw [ht]
      exact hexpr
    | typeof | void | delete =>
      obtain ht : t.value = .keyword _ := ht
      rw [ht]
      exact hexpr

lemma moduleBody_eq {s : ParserState} (length : Nat) {levels : Nat} (hs : s.Faces names s.rest)
    (hspell : Sign.Spell names signs s.rest) (hne : signs ≠ [])
    (hfinish : s.finish.value = .endOfFile)
    (h : Accepts names (parse levels .statement) signs (· = .endOfFile) R) :
    ∃ tree t, moduleBody length levels s = .ok tree (s.behind s.rest []) ∧
      tree.form = .module [t] ∧ R t := by
  have hrest : s.rest ≠ [] := by
    intro hnil
    rw [hnil] at hspell
    cases hspell
    exact hne rfl
  obtain ⟨t, ht, hR⟩ := h s s.rest [] (by rwa [List.append_nil]) hspell hfinish
  let go : Parser Bool := do return !(← atEnd)
  have hgo : go s = .ok true s := by
    show EStateM.Result.ok (!s.rest.isEmpty) s = _
    rw [List.isEmpty_eq_false_iff.mpr hrest]
    rfl
  -- the loop makes one round and stops behind the statement
  have hstop : ∀ k, whileSteps go (parse levels .statement) (k + 1) (s.behind s.rest []) =
      .ok [] (s.behind s.rest []) := fun k => rfl
  have hloop : ∀ k, whileSteps go (parse levels .statement) (k + 2) s =
      .ok [t] (s.behind s.rest []) := by
    intro k
    rw [whileSteps, bind_eq hgo, if_pos rfl, bind_eq ht, bind_eq (hstop k)]
    rfl
  obtain ⟨k, hk⟩ : ∃ k, s.rest.length + 1 = k + 2 :=
    ⟨s.rest.length - 1, by have := List.length_pos_of_ne_nil hrest; omega⟩
  have hbody : repeatWhile go (parse levels .statement) s = .ok [t] (s.behind s.rest []) := by
    have hrounds : rounds s = .ok (k + 2) s := congrArg (EStateM.Result.ok · s) hk
    rw [repeatWhile, bind_eq hrounds, hloop]
  refine ⟨.node ⟨(s.rest.headD s.finish).line, 0, length⟩ (.module [t]), t, ?_, rfl, hR⟩
  have hpeek : peek s = .ok (s.rest.headD s.finish) s := rfl
  rw [moduleBody, bind_eq hpeek, bind_eq hbody]
  rfl

end Grammar

lemma Sign.Spell.ne_arrow {ts : List Token} (h : Sign.Spell names signs ts)
    (hsigns : Sign.mark .arrow ∉ signs) {t : Token} (ht : t ∈ ts) : t.value ≠ .punct .arrow := by
  induction h with
  | nil => cases ht
  | @cons s u signs ts hs h ih =>
    obtain ⟨hne, hsigns⟩ := List.ne_and_not_mem_of_not_mem_cons hsigns
    obtain rfl | ht := List.mem_cons.mp ht
    · intro hv
      rw [hv] at hs
      cases s with
      | name | numeral =>
        obtain ⟨_, hs, -⟩ := hs
        cases hs
      | keyword => cases hs
      | mark p =>
        cases hs
        exact hne rfl
    · exact ih hsigns ht

namespace Expr

mutual

theorem arrow_not_mem_signs : (e : Expr) → Sign.mark .arrow ∉ e.signs
  | name _ | numeral _ => by simp [signs]
  | unary op operand => by
    have hop : Sign.mark .arrow ≠ op.sign := by cases op <;> simp [UnaryOp.sign]
    simp [signs, parens, hop, arrow_not_mem_signs operand]
  | binary op lhs rhs => by
    have hop : Sign.mark .arrow ≠ op.sign := by
      cases op with
      | binary op => cases op <;> simp [Operator.sign, BinaryOp.sign]
      | logical op => cases op <;> simp [Operator.sign, LogicalOp.sign]
    simp [signs, parens, hop, arrow_not_mem_signs lhs, arrow_not_mem_signs rhs]
  | conditional test consequent alternative => by
    simp [signs, parens, arrow_not_mem_signs test, arrow_not_mem_signs consequent,
      arrow_not_mem_signs alternative]
  | assign assigner target value => by
    have hmark : Punctuator.arrow ≠ assigner.mark := by
      intro h
      have := assigner.ofToken?_mark
      rw [← h] at this
      cases this
    simp [signs, hmark, parens, arrow_not_mem_signs value]
  | member object property optional => by
    cases optional <;> simp [signs, parens, arrow_not_mem_signs object]
  | index object key optional => by
    cases optional <;>
      simp [signs, parens, optionalMark, arrow_not_mem_signs object, arrow_not_mem_signs key]
  | call callee arguments optional => by
    cases optional <;> simp [signs, parens, optionalMark, arrow_not_mem_signs callee,
      arrow_not_mem_argumentSigns arguments]
  | array elements => by simp [signs, arrow_not_mem_elementSigns elements]

theorem arrow_not_mem_argumentSigns : (es : List Expr) → Sign.mark .arrow ∉ argumentSigns es
  | [] => by simp [argumentSigns]
  | e :: es => by
    cases hlast : es.isEmpty <;> simp [argumentSigns, parens, commaThen, hlast,
      arrow_not_mem_signs e, arrow_not_mem_argumentSigns es]

theorem arrow_not_mem_elementSigns :
    (es : List (Option Expr)) → Sign.mark .arrow ∉ elementSigns es
  | [] => by simp [elementSigns]
  | none :: es => by simp [elementSigns, arrow_not_mem_elementSigns es]
  | some e :: es => by
    cases hlast : es.isEmpty <;> simp [elementSigns, parens, commaThen, hlast,
      arrow_not_mem_signs e, arrow_not_mem_elementSigns es]

end

lemma arrow_not_mem_statementSigns (e : Expr) (wrapped : Bool) :
    Sign.mark .arrow ∉ e.statementSigns wrapped := by
  cases wrapped <;> simp [statementSigns, parens, e.arrow_not_mem_signs]

lemma exists_begins (e : Expr) : ∃ first more, e.signs = first :: more ∧
    Grammar.Begins first := by
  cases e with
  | name | numeral => exact ⟨_, _, rfl, .inl trivial⟩
  | unary op => exact ⟨_, _, rfl, .inr ⟨op, rfl⟩⟩
  | array => exact ⟨_, _, rfl, .inl (.inr rfl)⟩
  | binary | conditional | assign | member | index | call => exact ⟨_, _, rfl, .inl (.inl rfl)⟩

end Expr

/-! ## From trees to nodes -/

namespace Form

variable {α β : Type} {form : Form α}

/-- What the shape of a construct says about it, if it is an expression, the statement of
one or a module. -/
def Shaped (form : Form α) : Form Unit → Prop
  | identifier s => form = identifier s
  | number s => form = number s
  | unary op _ => ∃ a, form = unary op a
  | binary op _ _ => ∃ a b, form = binary op a b
  | logical op _ _ => ∃ a b, form = logical op a b
  | conditional _ _ _ => ∃ a b c, form = conditional a b c
  | assign op _ _ => ∃ a b, form = assign op a b
  | member _ s optional => ∃ a, form = member a s optional
  | index _ _ optional => ∃ a b, form = index a b optional
  | call _ _ optional => ∃ a as, form = call a as optional
  | array holes => ∃ as, form = array as ∧ as.map (Option.map fun _ => ()) = holes
  | exprStmt _ => ∃ a, form = exprStmt a
  | module _ => ∃ body, form = module body
  | _ => True

lemma shaped_shape (form : Form α) : form.Shaped form.shape := by
  cases form with
  | identifier | number => exact rfl
  | unary | member | exprStmt | module => exact ⟨_, rfl⟩
  | binary | logical | assign | index | call => exact ⟨_, _, rfl⟩
  | conditional => exact ⟨_, _, _, rfl⟩
  | array => exact ⟨_, rfl, rfl⟩
  | _ => trivial

lemma exists_operator {o : Operator} {a b : β} (h : form.Shaped (o.form a b).shape) :
    ∃ a b, form = o.form a b := by
  cases o with
  | binary | logical => exact h

end Form

lemma Operator.children_form {α : Type} (o : Operator) (a b : α) :
    (o.form a b).children = [a, b] := by
  cases o <;> rfl

lemma Tree.Copied.spec {nodes : Array Node} {home : ModuleId} {t : Tree} {n : NodeId}
    (h : t.Copied nodes home n) {form : Form Tree} (ht : t.form = form) :
    (Arena.row nodes n).form.Shaped form.shape ∧
      List.Forall₂ (Copied nodes home) form.children (Arena.row nodes n).form.children := by
  subst ht
  cases h with
  | whole _ _ _ hshape hparts => exact ⟨hshape ▸ Form.shaped_shape _, hparts⟩

namespace Expr

variable {nodes : Array Node} {home : ModuleId} {text : Symbol → String}

/-- The construct of a row. -/
abbrev formIn (nodes : Array Node) (n : NodeId) : Form NodeId := (Arena.row nodes n).form

mutual

theorem stands_of_copied : (e : Expr) → (t : Tree) → (n : NodeId) → e.Stands Tree.form text t →
    t.Copied nodes home n → e.Stands (formIn nodes) text n
  | name x, t, n, h, hc | numeral k, t, n, h, hc => by
    obtain ⟨s, ht, hs⟩ := h
    obtain ⟨hshape, -⟩ := hc.spec ht
    exact ⟨s, hshape, hs⟩
  | unary op operand, t, n, h, hc => by
    obtain ⟨a, ht, ha⟩ := h
    obtain ⟨⟨a', hn⟩, hparts⟩ := hc.spec ht
    rw [hn] at hparts
    obtain ⟨hca, -⟩ := List.forall₂_cons.mp hparts
    exact ⟨a', hn, stands_of_copied operand a a' ha hca⟩
  | binary op lhs rhs, t, n, h, hc => by
    obtain ⟨a, b, ht, ha, hb⟩ := h
    obtain ⟨hshape, hparts⟩ := hc.spec ht
    obtain ⟨a', b', hn⟩ := Form.exists_operator hshape
    rw [hn, Operator.children_form, Operator.children_form] at hparts
    obtain ⟨hca, hparts⟩ := List.forall₂_cons.mp hparts
    obtain ⟨hcb, -⟩ := List.forall₂_cons.mp hparts
    exact ⟨a', b', hn, stands_of_copied lhs a a' ha hca, stands_of_copied rhs b b' hb hcb⟩
  | conditional test consequent alternative, t, n, h, hc => by
    obtain ⟨a, b, c, ht, ha, hb, hc'⟩ := h
    obtain ⟨⟨a', b', c', hn⟩, hparts⟩ := hc.spec ht
    rw [hn] at hparts
    obtain ⟨hca, hparts⟩ := List.forall₂_cons.mp hparts
    obtain ⟨hcb, hparts⟩ := List.forall₂_cons.mp hparts
    obtain ⟨hcc, -⟩ := List.forall₂_cons.mp hparts
    exact ⟨a', b', c', hn, stands_of_copied test a a' ha hca,
      stands_of_copied consequent b b' hb hcb, stands_of_copied alternative c c' hc' hcc⟩
  | assign assigner target value, t, n, h, hc => by
    obtain ⟨a, b, s, ht, hs, htext, hb⟩ := h
    obtain ⟨⟨a', b', hn⟩, hparts⟩ := hc.spec ht
    rw [hn] at hparts
    obtain ⟨hca, hparts⟩ := List.forall₂_cons.mp hparts
    obtain ⟨hcb, -⟩ := List.forall₂_cons.mp hparts
    exact ⟨a', b', s, hn, (hca.spec hs).1, htext, stands_of_copied value b b' hb hcb⟩
  | member object property optional, t, n, h, hc => by
    obtain ⟨a, s, ht, hs, ha⟩ := h
    obtain ⟨⟨a', hn⟩, hparts⟩ := hc.spec ht
    rw [hn] at hparts
    obtain ⟨hca, -⟩ := List.forall₂_cons.mp hparts
    exact ⟨a', s, hn, hs, stands_of_copied object a a' ha hca⟩
  | index object key optional, t, n, h, hc => by
    obtain ⟨a, b, ht, ha, hb⟩ := h
    obtain ⟨⟨a', b', hn⟩, hparts⟩ := hc.spec ht
    rw [hn] at hparts
    obtain ⟨hca, hparts⟩ := List.forall₂_cons.mp hparts
    obtain ⟨hcb, -⟩ := List.forall₂_cons.mp hparts
    exact ⟨a', b', hn, stands_of_copied object a a' ha hca, stands_of_copied key b b' hb hcb⟩
  | call callee arguments optional, t, n, h, hc => by
    obtain ⟨a, as, ht, ha, has⟩ := h
    obtain ⟨⟨a', as', hn⟩, hparts⟩ := hc.spec ht
    rw [hn] at hparts
    obtain ⟨hca, hparts⟩ := List.forall₂_cons.mp hparts
    exact ⟨a', as', hn, stands_of_copied callee a a' ha hca,
      standAll_of_copied arguments as as' has hparts⟩
  | array elements, t, n, h, hc => by
    obtain ⟨as, ht, has⟩ := h
    obtain ⟨⟨as', hn, hholes⟩, hparts⟩ := hc.spec ht
    rw [hn] at hparts
    exact ⟨as', hn, standHoles_of_copied elements as as' has hholes hparts⟩

theorem standAll_of_copied : (es : List Expr) → (ts : List Tree) → (ns : List NodeId) →
    StandAll Tree.form text es ts → List.Forall₂ (Tree.Copied nodes home) ts ns →
    StandAll (formIn nodes) text es ns
  | [], ts, ns, h, hc => by
    cases ts with
    | nil =>
      cases hc
      trivial
    | cons => exact h.elim
  | e :: es, ts, ns, h, hc => by
    cases ts with
    | nil => exact h.elim
    | cons t ts =>
      cases hc with
      | @cons _ n _ ns hc hcs =>
        exact ⟨stands_of_copied e t n h.1 hc, standAll_of_copied es ts ns h.2 hcs⟩

theorem standHoles_of_copied : (es : List (Option Expr)) → (ts : List (Option Tree)) →
    (ns : List (Option NodeId)) → StandHoles Tree.form text es ts →
    ns.map (Option.map fun _ => ()) = ts.map (Option.map fun _ => ()) →
    List.Forall₂ (Tree.Copied nodes home) (ts.filterMap id) (ns.filterMap id) →
    StandHoles (formIn nodes) text es ns
  | [], ts, ns, h, hholes, hc => by
    cases ts with
    | nil =>
      obtain rfl : ns = [] := by simpa using hholes
      trivial
    | cons => exact h.elim
  | none :: es, ts, ns, h, hholes, hc => by
    match ts, ns with
    | none :: ts, none :: ns => exact standHoles_of_copied es ts ns h (List.cons.inj hholes).2 hc
    | none :: _, some _ :: _ | none :: _, [] => simp at hholes
    | some _ :: _, _ | [], _ => exact h.elim
  | some e :: es, ts, ns, h, hholes, hc => by
    match ts, ns with
    | some t :: ts, some n :: ns =>
      obtain ⟨hct, hc⟩ := List.forall₂_cons.mp hc
      exact ⟨stands_of_copied e t n h.1 hct,
        standHoles_of_copied es ts ns h.2 (List.cons.inj hholes).2 hc⟩
    | some _ :: _, none :: _ | some _ :: _, [] => simp at hholes
    | none :: _, _ | [], _ => exact h.elim

end

/-! ## Programs -/

lemma accepts_statementSigns (e : Expr) (wrapped : Bool) {levels : Nat}
    (hlevels : 4 * (e.statementSigns wrapped).length ≤ levels) :
    Accepts names (Grammar.parse levels .statement) (e.statementSigns wrapped) follow
      fun t => ∃ a, t.form = .exprStmt a ∧ e.Stands Tree.form names.text a := by
  obtain ⟨first, more, hsigns, hfirst, hread⟩ : ∃ first more,
      (if wrapped then parens e.signs else e.signs) = first :: more ∧ Grammar.Begins first ∧
      Grammar.Readable names (first :: more) (e.Stands Tree.form names.text) := by
    have hread : Grammar.Readable names e.signs (e.Stands Tree.form names.text) :=
      Grammar.readable e
    cases wrapped with
    | false =>
      obtain ⟨first, more, hsigns, hfirst⟩ := e.exists_begins
      exact ⟨first, more, hsigns, hfirst, hsigns ▸ hread⟩
    | true => exact ⟨_, _, rfl, .inl (.inl rfl), hread.parens⟩
  rw [statementSigns, hsigns] at hlevels ⊢
  rw [List.length_append, List.length_singleton] at hlevels
  obtain ⟨k, rfl⟩ : ∃ k, levels = k + 1 := ⟨levels - 1, by omega⟩
  exact Grammar.accepts_statement hfirst (hread k (by omega))

lemma parseModule_statementSigns (e : Expr) (wrapped : Bool) {tokens : Tokens} (length : Nat)
    (hspell : Sign.Spell names (e.statementSigns wrapped) tokens.items)
    (hfinish : tokens.finish.value = .endOfFile) :
    ∃ tree t a, parseModule length tokens names = (.ok tree, names) ∧ tree.form = .module [t] ∧
      t.form = .exprStmt a ∧ e.Stands Tree.form names.text a := by
  let s : ParserState := ⟨[], tokens.items, tokens.finish, false, names⟩
  have hfaces : s.Faces names s.rest :=
    ⟨rfl, rfl, rfl, fun t ht => hspell.ne_arrow (e.arrow_not_mem_statementSigns wrapped) ht⟩
  have hne : e.statementSigns wrapped ≠ [] := by simp [statementSigns]
  have hlevels : 4 * (e.statementSigns wrapped).length ≤ Grammar.levels tokens.items := by
    rw [hspell.length_eq, Grammar.levels]
    omega
  obtain ⟨tree, t, hparse, htree, a, ht, ha⟩ := Grammar.moduleBody_eq length hfaces hspell hne
    hfinish (e.accepts_statementSigns wrapped hlevels)
  refine ⟨tree, t, a, ?_, htree, ht, ha⟩
  unfold parseModule
  dsimp only
  rw [show Grammar.moduleBody length (Grammar.levels tokens.items)
    ⟨[], tokens.items, tokens.finish, false, names⟩ = _ from hparse]
  rfl

end Expr

/-- **Print, then parse.** The text of an expression, whether or not it is in
parentheses as a whole, builds a program of one module with one statement, and
this statement holds the expression. -/
theorem round_trip (path : String) (e : Expr) (wrapped : Bool) :
    ∃ p statement n, Program.build [(path, e.source wrapped)] = .ok p ∧
      p.arena.modules.size = 1 ∧
      p.arena.form (p.arena.modules.getD 0 default).root = .module [statement] ∧
      p.arena.form statement = .exprStmt n ∧ e.Stands p.arena.form p.text n := by
  obtain ⟨tokens, names, hscan, hspell, hfinish⟩ := e.scan_source wrapped Numbering.empty
  obtain ⟨tree, t, a, hparse, htree, ht, ha⟩ := e.parseModule_statementSigns wrapped
    (e.source wrapped).utf8ByteSize hspell hfinish
  obtain ⟨root, hmodules, hcopied⟩ :=
    Arena.copied_addModule Arena.empty path (e.source wrapped) tree
  let code : Codebase := ⟨Arena.empty.addModule path (e.source wrapped) tree, names,
    [(Path.normalize path, 0)]⟩
  have hadd : Codebase.empty.addModule path (e.source wrapped) = (.ok (), code) := by
    unfold Codebase.addModule
    rw [show scan (e.source wrapped) Codebase.empty.names = _ from hscan]
    dsimp only
    rw [hparse]
    rfl
  have hbuild : Program.build [(path, e.source wrapped)] = .ok ⟨code, .ofCodebase code⟩ := by
    simp only [Program.build, Codebase.load, List.foldl_cons, List.foldl_nil, hadd]
  -- the module, its statement and the expression are copied one in another
  obtain ⟨⟨body, hroot⟩, hparts⟩ := hcopied.spec htree
  rw [hroot] at hparts
  obtain ⟨statement, _, hstatement, hnil, rfl⟩ := List.forall₂_cons_left_iff.mp hparts
  cases hnil
  obtain ⟨⟨n, hn⟩, hparts⟩ := hstatement.spec ht
  rw [hn] at hparts
  obtain ⟨hexpr, -⟩ := List.forall₂_cons.mp hparts
  refine ⟨⟨code, .ofCodebase code⟩, statement, n, hbuild, ?_, ?_, hn,
    e.stands_of_copied a n ha hexpr⟩
  · show (Arena.empty.addModule path (e.source wrapped) tree).modules.size = 1
    rw [hmodules]
    rfl
  · show Arena.form _ ((Arena.empty.addModule path (e.source wrapped) tree).modules.getD 0
      default).root = _
    rw [hmodules]
    exact hroot

end ValueFlow
