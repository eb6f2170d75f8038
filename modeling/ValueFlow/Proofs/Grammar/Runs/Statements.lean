import ValueFlow.Proofs.Grammar.Runs.Expressions

/-!
# Running the rules of statements

The rules for statements, imports and exports find constructs for their roles, and so
every goal does with enough levels (`Grammar.ready_parse`). The levels that a module is
given are enough: it is read or it is at fault (`Grammar.runs_moduleBody`), whatever the
table of names is.
-/

namespace ValueFlow

namespace Grammar

open ValueFlow.Parser ValueFlow.Tree

variable {tokens : Tokens} {levels i : Nat} {recur : Goal → Parser Tree}

/-! ## Imports and exports -/

lemma finds_namedImport : Finds tokens .imported i namedImport := by
  refine runs_peek fun _ _ => runs_propertyName_nameOf fun name name' text hlt => ?_
  extract_lets kind rest kind' rest'
  have hrest : ∀ j t t', i < j → Found tokens .name i j t t' →
      Runs tokens j (rest t) (rest' t') (Found tokens .imported i) := fun j t t' hij ht =>
    runs_make hij rfl rfl ⟨rfl, rfl⟩ (.one ht.reads)
  refine runs_nextIsWord fun b hb => .ite Iff.rfl (fun h => runs_advance (hb h) fun hlt _ _ => ?_)
    fun _ => ?_
  · exact finds_name.bind fun j t _ hij _ ht => hrest j t _ (by omega) (ht.mono (by omega))
  · exact runs_make_bind .refl rfl rfl ⟨rfl, rfl⟩
      (.nil (Nat.le_succ i)) fun t _ ht => hrest (i + 1) t _ .refl ht

lemma runs_importList : Gives tokens i importList fun j ts _ =>
    i < j ∧ AllRead tokens .imported i j ts := by
  refine runs_takeMark?.bind fun j star _ _ _ hstar => ?_
  cases hstar with
  | yes hlt =>
    refine runs_word.bind fun k _ _ _ _ hjk => finds_name.bind fun l t _ hkl _ ht => ?_
    exact runs_make_bind (by omega) rfl rfl ⟨rfl, rfl⟩
      (.cons (by omega) ht.reads (.nil .refl))
      fun t _ ht => runs_pure ⟨ht.reads.lt, .one ht.reads⟩
  | no =>
    refine runs_mark fun hlt _ _ => Runs.bind (runs_commaItems fun _ _ _ => finds_namedImport)
      fun k ts _ hik _ hts => runs_mark fun _ _ _ => ?_
    exact runs_pure ⟨by omega, hts.1.mono (by omega)⟩

lemma runs_importSpecifiers : Gives tokens i importSpecifiers fun j ts _ =>
    i < j ∧ AllRead tokens .imported i j ts := by
  refine runs_peek fun t' ⟨⟨_, _, hlike⟩, _⟩ => ?_
  generalize (tokens.token i).value = v, t'.value = v' at hlike
  cases hlike with
  | identifier =>
    refine finds_name.bind fun j t _ hij _ ht => ?_
    refine runs_make_bind (r := .imported) hij rfl rfl ⟨rfl, rfl⟩ (.one ht.reads) fun t _ ht => ?_
    refine runs_ifTaken runs_takeMark? (fun _ => ?_) (runs_pure ⟨hij, .one ht.reads⟩)
    refine runs_importList.bind fun k ts _ _ _ ⟨hjk, hts⟩ => ?_
    exact runs_pure ⟨by omega, .cons .refl ht.reads (hts.mono (by omega))⟩
  | _ => exact runs_importList

lemma runs_moduleSource : Gives tokens i moduleSource fun j _ _ => i < j :=
  runs_word.bind fun _ _ _ _ _ hij => runs_stringLiteral.imp
    fun _ _ _ _ _ hjk => Nat.lt_trans hij hjk

lemma finds_importStatement : Finds tokens .statement i importStatement := by
  refine runs_keyword fun hlt start' _ => runs_peek fun t' ⟨⟨_, _, hlike⟩, _⟩ => ?_
  have hfrom : Runs tokens (i + 1)
      (do
        let specifiers ← importSpecifiers
        let source ← moduleSource
        semicolon
        make (.importDecl specifiers source) (tokens.token i))
      (do
        let specifiers ← importSpecifiers
        let source ← moduleSource
        semicolon
        make (.importDecl specifiers source) start') (Found tokens .statement i) := by
    refine runs_importSpecifiers.bind fun j ts _ _ _ ⟨hij, hts⟩ => ?_
    refine runs_moduleSource.bind fun k source _ _ _ hjk =>
      runs_semicolon.bind fun l _ _ hkl _ _ => ?_
    exact runs_make (by omega) rfl rfl ⟨rfl, rfl⟩ (hts.parts.mono (by omega))
  generalize hvalue : (tokens.token (i + 1)).value = v, t'.value = v' at hlike
  cases hlike with
  | string =>
    refine runs_step hvalue rfl fun hlt _ _ =>
      runs_semicolon.bind fun j _ _ hij _ _ => ?_
    exact runs_make (by omega) rfl rfl ⟨rfl, rfl⟩ (.nil (by omega))
  | _ => exact hfrom

lemma finds_namedExport : Finds tokens .exported i namedExport := by
  refine runs_peek fun _ _ => runs_propertyName fun name name' hlt => ?_
  refine runs_make_bind (r := .plain) .refl rfl rfl ⟨rfl, rfl⟩
    (.nil (by omega)) fun used _ hused => ?_
  extract_lets rest rest'
  have hrest : ∀ j exported exported', i < j → Runs tokens j (rest exported) (rest' exported')
      (Found tokens .exported i) := fun j exported exported' hij =>
    runs_make (by omega) rfl rfl ⟨rfl, rfl⟩ (.cons .refl hused.reads (.nil hij))
  refine runs_nextIsWord fun b hb => .ite Iff.rfl (fun h => runs_advance (hb h) fun hlt _ _ => ?_)
    fun _ => hrest (i + 1) name name' .refl
  exact runs_propertyName fun exported exported' _ => hrest _ exported exported' (by omega)

lemma finds_jump {form : Form Tree} {value : TokenValue}
    (hvalue : (tokens.token i).value = value) (hroles : form.roles .statement = some [])
    (hparts : form.children = []) (hlead : form.lead = .part)
    (hend : value != .endOfFile) :
    Finds tokens .statement i (jump form) := by
  refine runs_step hvalue hend fun hlt _ _ => ?_
  extract_lets rest rest'
  have hrest : ∀ j, i < j → Runs tokens j (rest ()) (rest' ()) (Found tokens .statement i) :=
    fun j hij => runs_semicolon.bind fun k _ _ hjk _ _ =>
      runs_make (by omega) hroles hlead ⟨rfl, rfl⟩ (hparts ▸ .nil (by omega))
  refine runs_atStatementEnd fun b => .ite Iff.rfl (fun _ => ?_) fun _ => hrest (i + 1) (by omega)
  exact runs_identifier.bind fun j _ _ _ _ hij => hrest j (by omega)

/-! ## Statements -/

section Rules

variable (hrec : Ready tokens levels recur) {kind : DeclKind} {value : TokenValue} {start' : Token}
  {k : Nat}
  (hlevels : 4 * (tokens.count - i) < levels)
include hrec hlevels

lemma finds_declarator :
    Finds tokens .declarator i (declarator recur) := by
  refine runs_peek fun _ _ => (hrec.target i hlevels).bind fun j target _ hij hj htarget => ?_
  refine runs_optional (fun k init _ hjk _ hinit => ?_) runs_takeMark?
    fun hlt => hrec.assignment (j + 1) (by omega)
  exact runs_make (by omega) rfl rfl ⟨rfl, rfl⟩ (.cons .refl htarget.reads hinit.reads.parts)

lemma runs_moreDeclarators :
    Gives tokens i (moreDeclarators recur) fun j ts _ =>
      AllRead tokens .declarator i j ts := by
  refine runs_repeatWhile (fun _ _ => runs_takeMark?.bind fun _ _ _ _ _ ht => runs_pure ?_)
    fun j hij hj => finds_declarator hrec (by omega)
  cases ht with
  | yes | no => rfl

lemma finds_condition :
    Finds tokens .plain i (condition recur) :=
  runs_mark fun _ _ _ => (hrec.assignment (i + 1) (by omega)).bind fun _ _ _ _ _ ht =>
    runs_mark fun _ _ _ => runs_pure (ht.mono (by omega))

section Keyword

variable (hvalue : (tokens.token i).value = value) (hend : value != .endOfFile)

include hvalue hend

lemma finds_varDecl :
    Finds tokens .statement i (varDecl recur kind) := by
  refine runs_step hvalue hend fun hlt _ _ => ?_
  refine (finds_declarator hrec (by omega)).bind fun j first _ hij hj hfirst => ?_
  refine (runs_moreDeclarators hrec (by omega)).bind fun k more _ hjk hk hmore => ?_
  exact runs_make (by omega) rfl rfl ⟨rfl, rfl⟩
    (AllRead.parts (.cons (by omega) hfirst.reads hmore))

lemma finds_varStatement :
    Finds tokens .statement i (varStatement recur kind) :=
  (finds_varDecl hrec hlevels hvalue hend).bind fun _ _ _ _ _ ht =>
    runs_semicolon.bind fun _ _ _ _ _ _ => runs_pure (ht.mono (by omega))

lemma finds_ifStatement :
    Finds tokens .statement i (ifStatement recur) := by
  refine runs_step hvalue hend fun hlt _ _ => ?_
  refine (finds_condition hrec (by omega)).bind fun j test _ hij hj htest => ?_
  refine (hrec.statement j (by omega)).bind fun k consequent _ hjk hk hconsequent => ?_
  refine runs_optional (fun l alternative _ hkl _ halternative => ?_) runs_takeKeyword?
    fun hlt => hrec.statement (k + 1) (by omega)
  exact runs_open (by omega) rfl rfl ⟨rfl, rfl⟩ (.cons .refl htest.reads
    (.cons .refl hconsequent.reads halternative.reads.parts))

lemma finds_whileStatement :
    Finds tokens .statement i (whileStatement recur) := by
  refine runs_step hvalue hend fun hlt _ _ => ?_
  refine (finds_condition hrec (by omega)).bind fun j test _ hij hj htest => ?_
  refine (hrec.statement j (by omega)).bind fun k body _ hjk hk hbody => ?_
  exact runs_open (by omega) rfl rfl ⟨rfl, rfl⟩
    (.cons (by omega) htest.reads (.cons (by omega) hbody.reads (.nil (by omega))))

lemma finds_returnStatement :
    Finds tokens .statement i (returnStatement recur) := by
  refine runs_step hvalue hend fun hlt _ _ => ?_
  extract_lets rest rest'
  have hrest : ∀ j value value', i + 1 ≤ j → j ≤ tokens.count →
      MaybeFound tokens .plain (i + 1) j value value' →
      Runs tokens j (rest value) (rest' value') (Found tokens .statement i) :=
    fun j value value' hij _ hvalue => runs_semicolon.bind fun k _ _ hjk _ _ =>
      runs_make (by omega) rfl rfl ⟨rfl, rfl⟩ (hvalue.reads.parts.mono (by omega))
  exact runs_atStatementEnd fun _ => .ite Iff.rfl (fun _ => runs_without hrest .refl)
    fun _ => (hrec.assignment (i + 1) (by omega)).optional hrest .refl

lemma finds_throwStatement :
    Finds tokens .statement i (throwStatement recur) := by
  refine runs_step hvalue hend fun hlt _ _ => ?_
  refine (hrec.assignment (i + 1) (by omega)).bind fun j value _ hij hj hvalue => ?_
  refine runs_semicolon.bind fun k _ _ hjk _ _ => ?_
  exact runs_make (by omega) rfl rfl ⟨rfl, rfl⟩ (.cons (by omega) hvalue.reads (.nil (by omega)))

end Keyword

omit hrec hlevels in
lemma runs_iterationAhead : Gives tokens i iterationAhead fun j b b' =>
    j = i ∧ b = b' ∧ (b = true → (tokens.token i).value ≠ .endOfFile) := by
  refine runs_nextIsWord fun b hb => runs_nextIs rfl fun c hc => runs_pure ⟨rfl, rfl, fun h => ?_⟩
  rcases Bool.or_eq_true_iff.mp h with h | h
  · exact hb h
  · rw [hc.mp h]
    exact TokenValue.noConfusion

lemma runs_forEachFrom {head head' : Tree} (hvalue : (tokens.token i).value ≠ .endOfFile)
    (hhead : head.Reads tokens .head (k + 1) i) :
    Runs tokens i (forEachFrom recur (tokens.token k) head) (forEachFrom recur start' head')
      (Found tokens .statement k) := by
  have hki := hhead.lt
  refine runs_advance hvalue fun hlt _ _ => ?_
  refine (hrec.assignment (i + 1) (by omega)).bind fun j iterated _ hij hj hiterated => ?_
  refine runs_mark fun hlt _ _ => (hrec.statement (j + 1) (by omega)).bind
    fun l body _ hjl hl hbody => ?_
  exact runs_open (by omega) rfl rfl ⟨rfl, rfl⟩
    (.cons .refl hhead (.cons (by omega) hiterated.reads
      (.cons (by omega) hbody.reads (.nil (by omega)))))

lemma runs_forFrom {init init' : Option Tree} (hki : k < i)
    (hinit : AllRead tokens .init (k + 1) i init.toList) :
    Runs tokens i (forFrom recur (tokens.token k) init) (forFrom recur start' init')
      (Found tokens .statement k) := by
  refine runs_mark fun hlt _ _ => ?_
  extract_lets afterTest afterTest'
  have hafterTest : ∀ j test test', i ≤ j → j ≤ tokens.count →
      MaybeFound tokens .plain i j test test' →
      Runs tokens j (afterTest test) (afterTest' test') (Found tokens .statement k) := by
    intro j test test' hij hj htest
    refine runs_mark fun hlt _ _ => ?_
    extract_lets rest rest'
    have hrest : ∀ l update update', j ≤ l → l ≤ tokens.count →
        MaybeFound tokens .plain j l update update' →
        Runs tokens l (rest update) (rest' update') (Found tokens .statement k) := by
      intro l update update' hjl hl hupdate
      refine runs_mark fun hlt _ _ => ?_
      refine (hrec.statement (l + 1) (by omega)).bind fun m body _ hlm hm hbody => ?_
      exact runs_open (by omega) rfl rfl ⟨rfl, rfl⟩
        (((hinit.parts.append htest.reads.parts).append hupdate.reads.parts).append
          (.cons (Nat.le_succ l) hbody.reads (.nil .refl)))
    exact runs_nextIs rfl fun _ _ => .ite Iff.rfl (fun _ => runs_without hrest (Nat.le_succ j))
      fun _ => (hrec.assignment (j + 1) (by omega)).optional hrest (Nat.le_succ j)
  exact runs_nextIs rfl fun _ _ => .ite Iff.rfl (fun _ => runs_without hafterTest (Nat.le_succ i))
    fun _ => (hrec.assignment (i + 1) (by omega)).optional hafterTest (Nat.le_succ i)

lemma runs_forDeclared (hki : k < i) (hvalue : (tokens.token i).value ≠ .endOfFile) :
    Runs tokens i (forDeclared recur (tokens.token k) kind) (forDeclared recur start' kind)
      (Found tokens .statement k) := by
  refine runs_advance hvalue fun hlt _ _ => runs_peek fun _ _ => ?_
  refine (hrec.target (i + 1) (by omega)).bind fun j target _ hij hj htarget => ?_
  refine runs_iterationAhead.bind_here fun ahead hahead => .ite Iff.rfl (fun h => ?_) fun _ => ?_
  · refine runs_make_bind (r := .declarator) hij rfl rfl ⟨rfl, rfl⟩
      (.one htarget.reads) fun one _ hone => ?_
    refine runs_make_bind (r := .head) (by omega) rfl rfl ⟨rfl, rfl⟩
      (.cons (Nat.le_succ i) hone.reads (.nil .refl)) fun head _ hhead => ?_
    exact runs_forEachFrom hrec (by omega) (hahead h) (hhead.reads.mono (by omega))
  refine runs_optional (fun l init _ hjl hl hinit => ?_) runs_takeMark?
    fun hlt => Runs.inForHead (hrec.assignment (j + 1) (by omega))
  refine runs_make_bind (r := .declarator) (by omega) rfl rfl ⟨rfl, rfl⟩
    (.cons .refl htarget.reads hinit.reads.parts) fun first _ hfirst => ?_
  refine (runs_moreDeclarators hrec (by omega)).bind fun n more _ hmn hn hmore => ?_
  refine runs_make_bind (r := .init) (by omega) rfl rfl ⟨rfl, rfl⟩
    (AllRead.parts (.cons (Nat.le_succ i) hfirst.reads hmore)) fun decl _ hdecl => ?_
  exact runs_forFrom hrec (by omega) (by omega) (.one (hdecl.reads.mono (by omega)))

lemma finds_forStatement :
    Finds tokens .statement i (forStatement recur) := by
  refine runs_keyword fun hlt _ _ => runs_mark fun hlt _ _ => runs_peek fun t' ht => ?_
  extract_lets next next'
  have hkind : declKind? next = declKind? next' :=
    ht.congr declKind? fun _ _ _ => ⟨rfl, rfl, rfl, rfl⟩
  rw [← hkind]
  split
  · next kind hkind =>
    refine runs_forDeclared hrec (by omega) (by omega) fun hend => ?_
    rw [show next = _ from hend] at hkind
    cases hkind
  refine .ite (ht.eq_iff rfl)
    (fun _ => runs_forFrom hrec (by omega) (by omega) (.nil (by omega))) fun _ => ?_
  refine Finds.bind (Runs.inForHead (hrec.assignment (i + 2) (by omega)))
    fun j expr _ hij hj hexpr => ?_
  refine runs_iterationAhead.bind_here fun ahead hahead => .ite Iff.rfl (fun h => ?_) fun _ => ?_
  · refine (runs_asPattern hexpr).bind ?_
    rintro _ head head' - - ⟨rfl, _, hhead⟩
    exact runs_forEachFrom hrec (by omega) (hahead h)
      ((hhead.imp (fun _ => Form.roles_head) Role.noConfusion).mono (by omega))
  · refine runs_forFrom hrec (by omega) (by omega) (.one ?_)
    exact (hexpr.reads.imp (fun _ => Form.roles_init) Role.noConfusion).mono (by omega)

lemma runs_handler? :
    Gives tokens i (handler? recur) (MaybeFound tokens .handler i) := by
  refine runs_takeKeyword?.bind fun j start _ _ _ hstart => ?_
  cases hstart with
  | no => exact runs_pure (maybeFound_none .refl)
  | yes hlt =>
    refine runs_takeMark?.bind fun j paren _ hij hj hparen => ?_
    extract_lets rest rest'
    have hrest : ∀ k param param', j ≤ k → k ≤ tokens.count →
        MaybeFound tokens (.pattern .declares) j k param param' →
        Runs tokens k (rest param) (rest' param') (MaybeFound tokens .handler i) := by
      intro k param param' hjk hk hparam
      refine (finds_block hrec (by omega)).bind fun l body _ hkl hl hbody => ?_
      exact .map (Runs.imp (runs_make (by omega) rfl rfl ⟨rfl, rfl⟩
        ((hparam.reads.parts.mono (by omega)).append (.one hbody.reads)))
        fun _ _ _ _ _ ht => ⟨.one ht.reads, rfl⟩)
    cases hparen with
    | no => exact hrest _ none none .refl hj (maybeFound_none .refl)
    | yes =>
      refine (hrec.target _ (by omega)).bind fun k param _ hjk hk hparam =>
        runs_mark fun hlt _ _ => ?_
      exact hrest (k + 1) (some param) (some _) (by omega) hlt
        ⟨.one (hparam.reads.mono (by omega)), rfl⟩

lemma finds_tryStatement :
    Finds tokens .statement i (tryStatement recur) := by
  refine runs_keyword fun hlt _ _ => ?_
  refine (finds_block hrec (by omega)).bind fun j body _ hij hj hbody => ?_
  refine (runs_handler? hrec (by omega)).bind fun k handler _ hjk hk hhandler => ?_
  refine runs_optional (fun l finalizer _ hkl _ hfinalizer => ?_) runs_takeKeyword?
    fun hlt => finds_block hrec (by omega)
  exact .ite (by rw [hhandler.isNone, hfinalizer.isNone]) (fun _ => runs_failHere_bind rfl)
    fun _ => runs_make (by omega) rfl rfl ⟨rfl, rfl⟩
      (.cons (Nat.le_succ i) hbody.reads (hhandler.reads.parts.append hfinalizer.reads.parts))

omit hlevels in
lemma finds_exprStatement (hlevels : 4 * (tokens.count - i) + 3 < levels) :
    Finds tokens .statement i (exprStatement recur) := by
  refine runs_peek fun _ _ => (hrec.assignment i hlevels).bind fun j expr _ hij hj hexpr => ?_
  refine runs_semicolon.bind fun k _ _ hjk _ _ => ?_
  exact runs_make (by omega) rfl rfl ⟨rfl, rfl⟩ (.cons (by omega) hexpr.reads (.nil (by omega)))

omit hlevels in
lemma finds_defaultValue (hlevels : 4 * (tokens.count - i) + 3 < levels) :
    Finds tokens .plain i (defaultValue recur) := by
  refine runs_peek fun t' ht => ?_
  have hvalue : Gives tokens i (do
        let value ← recur .assignment
        semicolon
        return value) (Found tokens .plain i) := by
    refine (hrec.assignment i hlevels).bind fun j value _ hij hj hvalue => ?_
    exact runs_semicolon.bind fun k _ _ hjk _ _ => runs_pure (hvalue.mono (by omega))
  have hother : Runs tokens i
      (do
        if (tokens.token i).value = .keyword .async && (← peekNext).value = .keyword .function then
          let _ ← advance
          function recur true true
        else
          let value ← recur .assignment
          semicolon
          return value)
      (do
        if t'.value = .keyword .async && (← peekNext).value = .keyword .function then
          let _ ← advance
          function recur true true
        else
          let value ← recur .assignment
          semicolon
          return value) (Found tokens .plain i) := by
    refine runs_peekNext fun _ hnext => .ite (by rw [ht.decide_eq rfl, hnext.decide_eq rfl])
      (fun h => ?_) fun _ => hvalue
    have hasync := of_decide_eq_true (Bool.and_eq_true_iff.mp h).1
    exact runs_step hasync rfl fun hlt _ _ =>
      runs_function hrec (by omega) true true (fun _ _ _ _ => rfl) Role.noConfusion rfl
        fun _ => hasync
  obtain ⟨_, _, hlike⟩ := ht.value
  generalize (tokens.token i).value = v, t'.value = v' at hlike hother
  cases hlike with
  | keyword word =>
    cases word with
    | function =>
      exact runs_function hrec (by omega) false true (fun _ _ _ _ => rfl) Role.noConfusion rfl nofun
    | _ => exact hother
  | _ => exact hother

lemma finds_exportStatement :
    Finds tokens .statement i (exportStatement recur) := by
  refine runs_keyword fun hlt start' _ => runs_peek fun t' ⟨⟨_, _, hlike⟩, _⟩ => ?_
  generalize hvalue : (tokens.token (i + 1)).value = v, t'.value = v' at hlike
  cases hlike with
  | keyword word =>
    cases word with
    | default =>
      refine runs_step hvalue rfl fun hlt _ _ => ?_
      refine (finds_defaultValue hrec (by omega)).bind fun j value _ hij hj hvalue => ?_
      exact runs_make (by omega) rfl rfl ⟨rfl, rfl⟩
        (.cons (by omega) hvalue.reads (.nil (by omega)))
    | const | letKw | var | function | async =>
      refine (hrec.statement (i + 1) (by omega)).bind fun j decl _ hij hj hdecl => ?_
      exact runs_open (by omega) rfl rfl ⟨rfl, rfl⟩ (.cons (by omega) hdecl.reads (.nil (by omega)))
    | _ => exact runs_failHere rfl
  | punct mark =>
    cases mark with
    | leftBrace =>
      refine runs_step hvalue rfl fun hlt _ _ =>
        Runs.bind (runs_commaItems fun _ _ _ => finds_namedExport)
        fun j specifiers _ hij hj hspecifiers => runs_mark fun hlt _ _ => ?_
      extract_lets rest rest'
      have hrest : ∀ k source source', j ≤ k → Runs tokens k (rest source) (rest' source')
          (Found tokens .statement i) := fun k source source' hjk =>
        runs_semicolon.bind fun l _ _ hkl _ _ =>
          runs_make (by omega) rfl rfl ⟨rfl, rfl⟩ (AllRead.parts (hspecifiers.1.mono (by omega)))
      refine runs_nextIsWord fun _ _ => .ite Iff.rfl (fun _ => ?_)
        fun _ => hrest (j + 1) none none (by omega)
      exact Runs.bind (Q := fun _ _ _ => True)
        (.map (runs_moduleSource.imp fun _ _ _ _ _ _ => trivial))
        fun k source _ hjk _ _ => hrest k source _ (by omega)
    | _ => exact runs_failHere rfl
  | _ => exact runs_failHere rfl

omit hlevels in
/-- The first token decides which rule reads a statement. -/
lemma finds_statement (hlevels : 4 * (tokens.count - i) + 4 ≤ levels) :
    Finds tokens .statement i (statement recur) := by
  refine runs_peek fun t' ⟨⟨_, _, hlike⟩, _⟩ => ?_
  have hexpr : Finds tokens .statement i (exprStatement recur) :=
    finds_exprStatement hrec (by omega)
  generalize hvalue : (tokens.token i).value = v, t'.value = v' at hlike
  cases hlike with
  | keyword word =>
    cases word with
    | const | letKw | var => exact finds_varStatement hrec (by omega) hvalue rfl
    | function =>
      exact runs_function hrec (by omega) false true (fun _ _ _ _ => rfl) (fun _ => rfl) rfl nofun
    | async =>
      refine runs_peekNext fun _ hnext => .ite (hnext.eq_iff rfl) (fun _ => ?_) fun _ => hexpr
      exact runs_step hvalue rfl fun hlt _ _ =>
        runs_function hrec (by omega) true true (fun _ _ _ _ => rfl) (fun _ => rfl) rfl
          fun _ => hvalue
    | returnKw => exact finds_returnStatement hrec (by omega) hvalue rfl
    | ifKw => exact finds_ifStatement hrec (by omega) hvalue rfl
    | whileKw => exact finds_whileStatement hrec (by omega) hvalue rfl
    | forKw => exact finds_forStatement hrec (by omega)
    | tryKw => exact finds_tryStatement hrec (by omega)
    | throwKw => exact finds_throwStatement hrec (by omega) hvalue rfl
    | breakKw | continueKw => exact finds_jump hvalue rfl rfl rfl rfl
    | importKw =>
      exact runs_peekNext fun _ hnext => .ite (hnext.eq_iff rfl) (fun _ => hexpr) fun _ =>
        finds_importStatement
    | exportKw => exact finds_exportStatement hrec (by omega)
    | _ => exact hexpr
  | punct mark =>
    cases mark with
    | leftBrace =>
      exact (finds_block hrec (by omega)).imp fun _ _ _ _ _ h => ⟨h.reads.of_block, h.like⟩
    | semicolon => exact runs_leaf hvalue rfl rfl rfl ⟨rfl, rfl⟩ rfl
    | _ => exact hexpr
  | _ => exact hexpr

end Rules

/-! ## Goals and modules -/

/-- Every goal finds its construct, if there are levels enough for the tokens ahead. -/
lemma ready_parse (tokens : Tokens) (levels : Nat) : Ready tokens levels (parse levels) := by
  induction levels with
  | zero => exact ⟨by omega, by omega, by omega, by omega, by omega, by omega⟩
  | succ levels ih =>
    exact {
      statement := fun i h => finds_statement ih (by omega)
      assignment := fun i h => finds_assignment ih (by omega)
      binary := fun i level h => finds_binary ih level (by omega)
      unary := fun i h => finds_unary ih (by omega)
      construct := fun i h => finds_construct ih (by omega)
      target := fun i h => finds_target ih (by omega) }

def ModuleReads (tokens : Tokens) (length : Nat) (t : Tree) : Prop :=
  ∃ body, t = .node ⟨(tokens.token 0).line, 0, length⟩ (.module body) ∧
    AllRead tokens .statement 0 tokens.count body

lemma runs_moduleBody (length : Nat) :
    Gives tokens 0 (moduleBody length (Grammar.levels tokens.items)) fun _ t _ =>
      ModuleReads tokens length t := by
  refine runs_peek fun _ _ => Runs.bind (runs_repeatWhile (fun _ _ => ?_) fun j _ hj => ?_)
    fun j body _ _ hj hbody => runs_pure ⟨body, rfl, hbody.mono (by omega)⟩
  · exact runs_atEnd fun _ => runs_pure rfl
  · refine (ready_parse tokens _).statement j ?_
    show 4 * (tokens.count - j) + 4 < 4 * (tokens.count + 2)
    omega

end Grammar

section Modules

variable {length : Nat} {tokens : Tokens} {names names' : Names}
  (hend : tokens.finish.value = .endOfFile) {tokens' : Tokens}
include hend

/-- How a module is parsed with two tables. -/
lemma ends_moduleBody (length : Nat)
    (hitems : List.Forall₂ (Token.Alike names names') tokens.items tokens'.items)
    (hfinish : tokens.finish.Alike names names' tokens'.finish) :
    Parser.Ends tokens 0 (fun _ t _ => Grammar.ModuleReads tokens length t)
      (Grammar.moduleBody length (Grammar.levels tokens.items)
        ⟨[], tokens.items, tokens.finish, false, names⟩)
      (Grammar.moduleBody length (Grammar.levels tokens.items)
        ⟨[], tokens'.items, tokens'.finish, false, names'⟩) :=
  Grammar.runs_moduleBody length _ _
    ⟨Nat.zero_le _, rfl, rfl, rfl, hend, .nil, hitems, hfinish, rfl⟩

lemma isOk_parseModule_of_alike
    (hitems : List.Forall₂ (Token.Alike names names') tokens.items tokens'.items)
    (hfinish : tokens.finish.Alike names names' tokens'.finish) :
    (parseModule length tokens names).1.isOk = (parseModule length tokens' names').1.isOk := by
  have hlevels : Grammar.levels tokens.items = Grammar.levels tokens'.items := by
    rw [Grammar.levels, Grammar.levels, hitems.length_eq]
  have hends := ends_moduleBody hend length hitems hfinish
  unfold parseModule
  dsimp only
  rw [← hlevels]
  generalize Grammar.moduleBody _ _ ⟨[], tokens.items, _, _, _⟩ = result,
    Grammar.moduleBody _ _ ⟨[], tokens'.items, _, _, _⟩ = result' at hends
  cases hends with
  | ok | error => rfl

variable (hnamed : tokens.Named names)
include hnamed

lemma ends_moduleBody_alone (length : Nat) :
    Parser.Ends tokens 0 (fun _ t _ => Grammar.ModuleReads tokens length t)
      (Grammar.moduleBody length (Grammar.levels tokens.items)
        ⟨[], tokens.items, tokens.finish, false, names⟩)
      (Grammar.moduleBody length (Grammar.levels tokens.items)
        ⟨[], tokens.items, tokens.finish, false, names⟩) := by
  refine ends_moduleBody hend length (List.forall₂_same.mpr fun t ht => ?_)
    (Token.alike_self fun symbol hsymbol => ?_)
  · exact Token.alike_self (hnamed t ht)
  · rw [hend] at hsymbol
    cases hsymbol

lemma reads_of_parseModule {t : Tree} (h : parseModule length tokens names = (.ok t, names')) :
    ∃ body, t = .node ⟨(tokens.token 0).line, 0, length⟩ (.module body) ∧
      Tree.AllRead tokens .statement 0 tokens.count body := by
  have hends := ends_moduleBody_alone hend hnamed length
  unfold parseModule at h
  dsimp only at h
  generalize Grammar.moduleBody _ _ _ = result at h hends
  cases hends with
  | ok _ _ hbody =>
    cases h
    exact hbody
  | error => cases h

/-- A module that is not parsed is at fault itself. -/
lemma isInternal_of_parseModule {e : ParseError}
    (h : parseModule length tokens names = (.error e, names')) : e.issue.isInternal = false := by
  have hends := ends_moduleBody_alone hend hnamed length
  unfold parseModule at h
  dsimp only at h
  generalize Grammar.moduleBody _ _ _ = result at h hends
  cases hends with
  | ok => cases h
  | error hissue =>
    cases h
    exact hissue

end Modules

end ValueFlow
