import ValueFlow.Proofs.Ast.Spans

/-!
# Function statements

A function that is a statement has a name, unless the parser takes it for the
value of an `export default`. It does so by the tokens before the function alone,
so that the word `default` may also be the end of the statement before.
-/

namespace ValueFlow

namespace Form

variable {α : Type} {form : Form α} {x : α}

def statements : Form α → List α
  | module body | block body => body
  | ifStmt _ consequent alternative => consequent :: alternative.toList
  | whileStmt _ body | forStmt _ _ _ body | forEach _ _ _ body | exportDecl body => [body]
  | _ => []

lemma mem_children_of_statements (hx : x ∈ form.statements) : x ∈ form.children := by
  cases form <;> first | exact hx | simp_all [statements, children]

lemma partRoles_of_statements {role : Role} {roles : List Role}
    (hroles : form.roles role = some roles) (hx : x ∈ form.statements) : form.partRoles = roles := by
  cases form with
  | module | block | ifStmt | whileStmt | forStmt | forEach | exportDecl =>
    cases role <;> cases hroles <;> rfl
  | _ => cases hx

lemma statement_of_forall₂ {R : Role → α → Prop}
    (h : List.Forall₂ R form.partRoles form.children) (hx : x ∈ form.statements) :
    R .statement x := by
  cases form with
  | module body | block body => exact List.forall₂_same.mp (List.forall₂_map_left_iff.mp h) x hx
  | ifStmt test consequent alternative =>
    obtain _ | ⟨-, _ | ⟨hthen, helse⟩⟩ := h
    obtain rfl | hx := List.mem_cons.mp hx
    · exact hthen
    · exact List.forall₂_same.mp (List.forall₂_map_left_iff.mp helse) x hx
  | forStmt init test step body =>
    obtain _ | ⟨h, -⟩ := (forall₂_of_append h (by simp)).2
    exact List.mem_singleton.mp hx ▸ h
  | whileStmt | forEach | exportDecl =>
    cases List.mem_singleton.mp hx
    simp_all [partRoles, children]
  | _ => cases hx

end Form

lemma Arena.ReadIn.statement {a : Arena} {tokens : Tokens} {length : Nat} {n c : NodeId}
    (h : a.ReadIn tokens length n) (hc : c ∈ (a.form n).statements) :
    ∃ early i j, j ≤ tokens.count ∧ a.ReadsFrom tokens .statement early i j c := by
  obtain ⟨body, -, hform, hparts⟩ | ⟨_, _, _, _, hj, hread⟩ := h
  · rw [hform] at hc
    have hparts : List.Forall₂ _ (Form.module body).partRoles _ := hparts.forall₂ MadeOf.le
    obtain ⟨i, j, -, hj, hread⟩ := Form.statement_of_forall₂ hparts hc
    exact ⟨none, i, j, hj, hread⟩
  · obtain ⟨-, -, -, -, hlj, -, hroles, -, hparts⟩ := hread
    cases Form.partRoles_of_statements hroles hc
    obtain ⟨i, k, -, hk, hread⟩ := Form.statement_of_forall₂ (hparts.forall₂ MadeOf.le) hc
    exact ⟨_, i, k, by omega, hread⟩

/-- **Function statements are named.** A function that is a statement of a program has a name,
unless only `async` and `function` stand between the word `default` and its parameters. -/
theorem Program.function_statement_named {sources : Sources} {p : Program}
    (h : build sources = .ok p) {parent n : NodeId} {name : Option NodeId} {params : List NodeId}
    {body : NodeId} {flags : FunctionFlags} (hn : n ∈ (p.arena.form parent).statements)
    (hform : p.arena.form n = .function name params body flags) :
    name.isSome = true ∨ ∃ path source tokens names k,
      sources[(p.arena.node n).home]? = some (path, source) ∧
      scan source Numbering.empty = (.ok tokens, names) ∧ k < tokens.count ∧
      (p.arena.node n).span.start = (tokens.token k).start ∧ tokens.AfterDefault k := by
  cases name with
  | some name => exact .inl rfl
  | none =>
    have hholds := holds_of_build h
    have hpart : n ∈ p.arena.children parent := Form.mem_children_of_statements hn
    obtain ⟨path, source, tokens, names, hsource, -, hscan, hread⟩ :=
      hholds.readIn (Arena.lt_size_of_mem hpart)
    obtain ⟨_, _, _, hj, him, hkm, -, hml, hlj, hspan, -, hname, -⟩ := hread.statement hn
    refine .inr ⟨path, source, tokens, names, _, hholds.home_of_part hpart ▸ hsource, hscan,
      ?_, congrArg Span.start hspan, hname rfl (congrArg Form.lead hform)⟩
    omega

def afterProperty : Sources := [("main", "a.default\nfunction () \x7b\x7d")]

theorem Program.function_statement_named_afterProperty :
    ∃ p, build afterProperty = .ok p ∧ 4 ∈ (p.arena.form 5).statements ∧
      p.arena.form 4 = .function none [] 3 ⟨false, false, false, false⟩ ∧
      ∃ path source tokens names k, afterProperty[(p.arena.node 4).home]? = some (path, source) ∧
        scan source Numbering.empty = (.ok tokens, names) ∧ k < tokens.count ∧
        (p.arena.node 4).span.start = (tokens.token k).start ∧ tokens.AfterDefault k := by
  obtain ⟨p, hbuild, hn, hform⟩ := exists_of_test afterProperty (fun p =>
    4 ∈ (p.arena.form 5).statements ∧
    p.arena.form 4 = .function none [] 3 ⟨false, false, false, false⟩) (by decide +kernel)
  exact ⟨p, hbuild, hn, hform, (function_statement_named hbuild hn hform).resolve_left nofun⟩

/-- It is a statement of the module, not the value of an `export default`. -/
theorem Program.nameless_statement_accepted :
    ∃ p, build afterProperty = .ok p ∧ p.arena.form 5 = .module [2, 4] ∧
      p.arena.form 4 = .function none [] 3 ⟨false, false, false, false⟩ ∧
      p.arena.parent? 4 = some 5 :=
  exists_of_test _ _ (by decide +kernel)

end ValueFlow
