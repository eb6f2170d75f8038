import ValueFlow.Proofs.Scope.Patterns

/-!
# Declared names

Every number that the scopes of a codebase give out for a name is the number
of a declaration, and the binding a declaration starts with is itself a name
with a declaration. So following a name, or an import of one, never ends at a
number that means nothing.
-/

namespace ValueFlow

variable {decls : Array Decl} {owner : NodeId} {name : Symbol}

/-! ## Declarations -/

lemma declared?_lt {id : DeclId} (h : declared? decls owner name = some id) :
    id < decls.size := by
  obtain ⟨hlt, -⟩ := Array.findIdx?_eq_some_iff_getElem.mp h
  exact hlt

lemma isSome_declared? :
    (declared? decls owner name).isSome = true ↔ ∃ d ∈ decls, d.scope = owner ∧ d.name = name := by
  rw [declared?, Array.findIdx?_isSome, Array.any_eq_true']
  simp

namespace Arena

variable {a : Arena} {b o : NodeId} {name : Symbol} {decls : Array Decl} {kind : BindingKind}
  {d : Decl} {intros : List (NodeId × BindingKind × NodeId)}

/-- One of the introductions gives the declaration its first binding, its kind
and its owner. -/
def Introduced (a : Arena) (intros : List (NodeId × BindingKind × NodeId)) (d : Decl) : Prop :=
  (d.binding, d.kind, d.scope) ∈ intros ∧ a.form d.binding = .binding d.name

lemma lt_size_of_binding (h : a.form b = .binding name) : b < a.size :=
  lt_size_of_form (by rw [h]; exact nofun)

lemma mem_declare :
    d ∈ a.declare decls (b, kind, o) ↔ d ∈ decls ∨
      (a.form b = .binding d.name ∧ d = ⟨d.name, kind, b, o⟩ ∧
        ∀ e ∈ decls, e.scope = o → e.name ≠ d.name) := by
  unfold declare
  dsimp only
  split
  · next name hb =>
    rw [hb]
    split
    · next hdeclared =>
      obtain ⟨e, he, howner, hname⟩ := isSome_declared?.mp hdeclared
      refine ⟨.inl, fun h => h.elim id fun ⟨hform, _, hfresh⟩ => ?_⟩
      exact absurd (hname.trans (Form.binding.inj hform)) (hfresh e he howner)
    · next hfresh =>
      rw [isSome_declared?] at hfresh
      rw [Array.mem_push]
      refine or_congr_right ⟨?_, fun ⟨hform, heq, _⟩ => ?_⟩
      · rintro rfl
        exact ⟨rfl, rfl, fun e he howner hname => hfresh ⟨e, he, howner, hname⟩⟩
      · rw [heq, Form.binding.inj hform]
  · next hb => exact ⟨.inl, fun h => h.elim id fun ⟨hform, _⟩ => absurd hform (hb _)⟩

lemma mem_foldl_declare (hd : d ∈ decls) (intros : List (NodeId × BindingKind × NodeId)) :
    d ∈ intros.foldl a.declare decls := by
  induction intros generalizing decls with
  | nil => exact hd
  | cons intro intros ih => exact ih (mem_declare.mpr (.inl hd))

lemma introduced_of_mem_foldl (hd : d ∈ intros.foldl a.declare decls) :
    d ∈ decls ∨ a.Introduced intros d := by
  induction intros generalizing decls with
  | nil => exact .inl hd
  | cons intro intros ih =>
    obtain ⟨b, kind, o⟩ := intro
    obtain hd | ⟨hmem, hform⟩ := ih hd
    · obtain hd | ⟨hform, heq, -⟩ := mem_declare.mp hd
      · exact .inl hd
      · refine .inr ⟨?_, ?_⟩ <;> rw [heq]
        · exact List.mem_cons_self
        · exact hform
    · exact .inr ⟨List.mem_cons_of_mem _ hmem, hform⟩

lemma exists_of_introduced (hintro : (b, kind, o) ∈ intros) (hb : a.form b = .binding name) :
    ∃ d ∈ intros.foldl a.declare decls, d.scope = o ∧ d.name = name := by
  induction intros generalizing decls with
  | nil => exact nomatch hintro
  | cons intro intros ih =>
    obtain rfl | hintro := List.mem_cons.mp hintro
    · -- either the name is taken already, or this introduction declares it
      by_cases htaken : ∃ e ∈ decls, e.scope = o ∧ e.name = name
      · obtain ⟨e, he, heq⟩ := htaken
        exact ⟨e, mem_foldl_declare he _, heq⟩
      · refine ⟨⟨name, kind, b, o⟩, mem_foldl_declare (mem_declare.mpr (.inr ?_)) _, rfl, rfl⟩
        exact ⟨hb, rfl, fun e he howner hname => htaken ⟨e, he, howner, hname⟩⟩
    · exact ih hintro

lemma introduced_of_mem_declarations (hd : d ∈ a.declarations) :
    a.Introduced a.allIntroductions d :=
  (introduced_of_mem_foldl hd).resolve_left (by simp)

lemma isSome_declared?_declarations (hintro : (b, kind, o) ∈ a.allIntroductions)
    (hb : a.form b = .binding name) : (declared? a.declarations o name).isSome = true :=
  isSome_declared?.mpr (exists_of_introduced hintro hb)

end Arena

def Export.Inside (c : Codebase) (decls : Array Decl) : Export → Prop
  | .decl id => id < decls.size
  | .expression value => value < c.arena.size
  | .passedOn _ _ => True
  | .unresolved => True

def ImportTarget.Inside (c : Codebase) (decls : Array Decl) : ImportTarget → Prop
  | .decl id => id < decls.size
  | .expression value => value < c.arena.size
  | .module m => m < c.arena.modules.size
  | .external => True

/-! ## Symbols -/

lemma getD_set! {α : Type} (xs : Array α) (i j : Nat) (v default : α) :
    (xs.set! i v).getD j default = if i = j ∧ i < xs.size then v else xs.getD j default := by
  rw [Array.getD_eq_getD_getElem?, Array.getD_eq_getD_getElem?, Array.set!_eq_setIfInBounds,
    Array.getElem?_setIfInBounds]
  by_cases hij : i = j
  · subst hij
    by_cases hi : i < xs.size
    · simp [hi]
    · simp [hi]
  · simp [hij]

namespace Scopes

variable {c : Codebase} {decls : Array Decl} {n : NodeId} {id : DeclId} {name : ExportName}
  {e : Export} {exports : Exports} {symbols : Array (Option DeclId)}
  {symbolAt : NodeId → Option DeclId} {module : ModuleId}

def writeBinding (c : Codebase) (decls : Array Decl) (symbols : Array (Option DeclId))
    (intro : NodeId × BindingKind × NodeId) : Array (Option DeclId) :=
  match c.arena.form intro.1 with
  | .binding name => symbols.set! intro.1 (declared? decls intro.2.2 name)
  | _ => symbols

lemma bindingSymbols_eq : bindingSymbols c decls =
    c.arena.allIntroductions.foldl (writeBinding c decls) (Array.replicate c.arena.size none) :=
  rfl

lemma size_writeBinding (symbols : Array (Option DeclId))
    (intro : NodeId × BindingKind × NodeId) :
    (writeBinding c decls symbols intro).size = symbols.size := by
  unfold writeBinding
  split <;> simp

lemma size_bindingSymbols : (bindingSymbols c decls).size = c.arena.size := by
  rw [bindingSymbols_eq]
  refine List.foldlRecOn (motive := fun s : Array (Option DeclId) => s.size = c.arena.size)
    _ _ (by simp) ?_
  intro symbols hsize intro _
  rw [size_writeBinding, hsize]

lemma lt_of_bindingSymbols : ∀ n id, (bindingSymbols c decls).getD n none = some id →
    id < decls.size := by
  rw [bindingSymbols_eq]
  refine List.foldlRecOn
    (motive := fun s : Array (Option DeclId) => ∀ n id, s.getD n none = some id → id < decls.size)
    _ _ (fun n id h => ?_) ?_
  · rw [Array.getD_eq_getD_getElem?, Array.getElem?_replicate] at h
    split at h <;> exact nomatch h
  · intro symbols ih intro _ n id h
    unfold writeBinding at h
    split at h
    · rw [getD_set!] at h
      split at h
      · exact declared?_lt h
      · exact ih n id h
    · exact ih n id h

/-- What holds of all the declarations that are written for a binding holds of the last. -/
lemma foldl_writeBinding_induction {P : Option DeclId → Prop} {b : NodeId}
    {intros : List (NodeId × BindingKind × NodeId)}
    (hdeclared : ∀ kind o name, (b, kind, o) ∈ intros → c.arena.form b = .binding name →
      P (declared? decls o name)) (hlt : b < symbols.size) (h : P (symbols.getD b none) ∨
      ∃ kind o name, (b, kind, o) ∈ intros ∧ c.arena.form b = .binding name) :
    P ((intros.foldl (writeBinding c decls) symbols).getD b none) := by
  induction intros generalizing symbols with
  | nil => exact h.resolve_right (by simp)
  | cons intro intros ih =>
    obtain ⟨b', kind', o'⟩ := intro
    refine ih (fun kind o name hmem => hdeclared kind o name (.tail _ hmem))
      (by rwa [size_writeBinding]) ?_
    have hwritten : ∀ name, b' = b → c.arena.form b' = .binding name →
        P ((writeBinding c decls symbols (b', kind', o')).getD b none) := by
      rintro name rfl hb
      simp only [writeBinding, hb, getD_set!, hlt, and_self, if_true]
      exact hdeclared kind' o' name (.head _) hb
    obtain h | ⟨kind, o, name, hmem, hb⟩ := h
    · left
      by_cases hb : ∃ name, b' = b ∧ c.arena.form b' = .binding name
      · obtain ⟨name, heq, hb⟩ := hb
        exact hwritten name heq hb
      · unfold writeBinding
        split
        · next name hname =>
          rw [getD_set!, if_neg fun heq => hb ⟨name, heq.1, hname⟩]
          exact h
        · exact h
    · obtain heq | hmem := List.mem_cons.mp hmem
      · cases heq
        exact .inl (hwritten name rfl hb)
      · exact .inr ⟨kind, o, name, hmem, hb⟩

lemma isSome_bindingSymbols {b o : NodeId} {kind : BindingKind} {name : Symbol}
    (hintro : (b, kind, o) ∈ c.arena.allIntroductions) (hb : c.arena.form b = .binding name) :
    ((bindingSymbols c c.arena.declarations).getD b none).isSome = true := by
  rw [bindingSymbols_eq]
  refine foldl_writeBinding_induction (P := fun id => id.isSome = true)
    (fun _ _ _ => Arena.isSome_declared?_declarations) ?_ (.inr ⟨kind, o, name, hintro, hb⟩)
  rw [Array.size_replicate]
  exact Arena.lt_size_of_binding hb

lemma lt_of_resolveName (h : c.resolveName decls n = some id) : id < decls.size := by
  unfold Codebase.resolveName at h
  split at h
  · obtain ⟨p, -, hp⟩ := List.exists_of_findSome?_eq_some h
    exact declared?_lt hp
  · exact nomatch h

def writeReference (c : Codebase) (decls : Array Decl) (symbols : Array (Option DeclId))
    (n : NodeId) : Array (Option DeclId) :=
  match c.resolveName decls n with
  | some id => symbols.set! n (some id)
  | none => symbols

lemma allSymbols_eq : allSymbols c decls =
    c.arena.nodeIds.foldl (writeReference c decls) (bindingSymbols c decls) :=
  rfl

lemma getD_foldl_writeReference (ns : List NodeId) (hlt : n < symbols.size) :
    (ns.foldl (writeReference c decls) symbols).getD n none =
      if n ∈ ns then (c.resolveName decls n).or (symbols.getD n none)
      else symbols.getD n none := by
  induction ns generalizing symbols with
  | nil => simp
  | cons m ns ih =>
    rw [List.foldl_cons]
    cases hm : c.resolveName decls m with
    | none =>
      rw [writeReference, hm, ih hlt]
      by_cases hnm : n = m
      · subst hnm
        simp [hm]
      · simp [hnm]
    | some id =>
      rw [writeReference, hm, ih (by simpa using hlt), getD_set!]
      by_cases hnm : m = n
      · subst hnm
        simp [hm, hlt]
      · simp [hnm, Ne.symm hnm]

lemma getD_allSymbols (hn : n < c.arena.size) :
    (allSymbols c decls).getD n none =
      (c.resolveName decls n).or ((bindingSymbols c decls).getD n none) := by
  have hmem : n ∈ c.arena.nodeIds := List.mem_range.mpr hn
  rw [allSymbols_eq, getD_foldl_writeReference _ (by rwa [size_bindingSymbols]), if_pos hmem]

lemma size_allSymbols : (allSymbols c decls).size = c.arena.size := by
  rw [allSymbols_eq]
  refine List.foldlRecOn (motive := fun s : Array (Option DeclId) => s.size = c.arena.size)
    _ _ size_bindingSymbols ?_
  intro symbols hsize n _
  unfold writeReference
  split <;> simpa using hsize

lemma lt_of_allSymbols (h : (allSymbols c decls).getD n none = some id) : id < decls.size := by
  by_cases hn : n < c.arena.size
  · rw [getD_allSymbols hn, Option.or_eq_some_iff] at h
    obtain h | ⟨-, h⟩ := h
    · exact lt_of_resolveName h
    · exact lt_of_bindingSymbols n id h
  · rw [Array.getD_eq_getD_getElem?, Array.getElem?_eq_none] at h
    · exact nomatch h
    · rw [size_allSymbols]
      exact Nat.not_lt.mp hn

/-! ## Exports and imports -/

lemma inside_of_mem_declared (hlt : ∀ n id, symbolAt n = some id → id < decls.size)
    {bindings : List NodeId} (h : (name, e) ∈ bindings.filterMap fun b =>
      match symbolAt b, c.arena.form b with
      | some id, .binding name => some (ExportName.named name, Export.decl id)
      | _, _ => none) : e.Inside c decls := by
  obtain ⟨b, -, hb⟩ := List.mem_filterMap.mp h
  split at hb
  · next hsymbol _ =>
    cases hb
    exact hlt _ _ hsymbol
  · cases hb

lemma inside_of_mem_exportsOf (hc : c.arena.Forest) {names : Names}
    {resolve : String → Option ModuleId} {statement : NodeId}
    (hlt : ∀ n id, symbolAt n = some id → id < decls.size)
    (h : (name, e) ∈ c.arena.exportsOf names symbolAt resolve statement) : e.Inside c decls := by
  unfold Arena.exportsOf at h
  extract_lets declared at h
  split at h
  · split at h
    · exact inside_of_mem_declared hlt h
    · exact inside_of_mem_declared hlt h
    · cases h
  · next value hform =>
    cases List.mem_singleton.mp h
    have hpart : value ∈ c.arena.children statement := by simp [Arena.children, hform, Form.children]
    exact Nat.lt_trans (hc.lower hpart) (Arena.lt_size_of_mem hpart)
  · obtain ⟨specifier, -, hspecifier⟩ := List.mem_filterMap.mp h
    split at hspecifier
    · next used exported _ =>
      have htarget := (Prod.mk.inj (Option.some.inj hspecifier)).2
      split at htarget
      · split at htarget
        · next hsymbol =>
          cases htarget
          exact hlt _ _ hsymbol
        · cases htarget
          trivial
      · split at htarget <;> (cases htarget; trivial)
    · cases hspecifier
  · cases h

lemma inside_of_mem_allExports (hc : c.arena.Forest) {key : ModuleId × ExportName}
    (h : (key, e) ∈ allExports c (allSymbols c decls)) : e.Inside c decls := by
  unfold allExports at h
  extract_lets ofModule at h
  obtain ⟨module, -, hmodule⟩ := List.mem_flatMap.mp (List.mem_reverse.mp h)
  unfold ofModule at hmodule
  split at hmodule
  · obtain ⟨⟨name, target⟩, hexport, heq⟩ := List.mem_map.mp hmodule
    cases heq
    obtain ⟨statement, -, hstatement⟩ := List.mem_flatMap.mp hexport
    exact inside_of_mem_exportsOf hc (fun _ _ => lt_of_allSymbols) hstatement
  · exact nomatch hmodule

lemma mem_of_followFrom {fuel : Nat} (h : exports.followFrom fuel module name = some e) :
    ∃ key, (key, e) ∈ exports := by
  induction fuel generalizing module name with
  | zero => exact nomatch h
  | succ fuel ih =>
    unfold Exports.followFrom at h
    split at h
    · exact ih h
    · obtain ⟨before, after, heq, -⟩ := List.lookup_eq_some_iff.mp h
      exact ⟨(module, name), by simp [heq]⟩

lemma inside_of_follow? (hexports : ∀ key e, (key, e) ∈ exports →
      e.Inside c decls) (h : exports.follow? module name = some e) : e.Inside c decls := by
  obtain ⟨key, hkey⟩ := mem_of_followFrom h
  exact hexports key e hkey

lemma lt_of_importSource? (hc : c.Parsed) {binding : NodeId} {m : ModuleId}
    {name : Option ExportName} (h : importSource? c binding = some (m, name)) :
    m < c.arena.modules.size := by
  -- whatever is imported, the module is one that a path leads to
  have hlookup : ∀ {path}, c.paths.lookup path = some m → m < c.arena.modules.size := by
    intro path hpath
    obtain ⟨before, after, heq, -⟩ := List.lookup_eq_some_iff.mp hpath
    exact hc.located path m (by simp [heq])
  have hresolve : ∀ {importer text}, c.resolve? importer text = some m →
      m < c.arena.modules.size := by
    intro importer text hm
    obtain ⟨path, -, hm⟩ := Option.bind_eq_some_iff.mp hm
    simp only [Option.orElse_eq_orElse, Option.orElse_eq_or, Option.or_eq_some_iff] at hm
    exact hm.elim hlookup fun hm => hlookup hm.2
  unfold importSource? at h
  obtain ⟨specifier, -, h⟩ := Option.bind_eq_some_iff.mp h
  split at h
  · obtain ⟨parent, -, h⟩ := Option.bind_eq_some_iff.mp h
    split at h
    · obtain ⟨other, hother, h⟩ := Option.bind_eq_some_iff.mp h
      split at h <;> (cases h; exact hresolve hother)
    · exact nomatch h
  · exact nomatch h

lemma inside_followImport (hc : c.Parsed)
    (hexports : ∀ key e, (key, e) ∈ exports → e.Inside c decls) (fuel : Nat) (binding : NodeId) :
    (followImport c decls exports fuel binding).Inside c decls := by
  induction fuel generalizing binding with
  | zero => trivial
  | succ fuel ih =>
    unfold followImport
    split
    · trivial
    · next hsource => exact lt_of_importSource? hc hsource
    · split
      · next hfollow =>
        dsimp only
        split
        · exact ih _
        · exact inside_of_follow? hexports hfollow
      · next hfollow => exact inside_of_follow? hexports hfollow
      · trivial

/-! ## The scopes of a codebase -/

lemma decl_mem {s : Scopes} (h : id < s.decls.size) : s.decl id ∈ s.decls := by
  have hdecl : s.decl id = s.decls[id] := by
    rw [decl, Array.getD_eq_getD_getElem?, Array.getElem?_eq_getElem h, Option.getD_some]
  rw [hdecl]
  exact Array.getElem_mem h

lemma lt_of_symbolAt (h : (ofCodebase c).symbolAt n = some id) : id < (ofCodebase c).decls.size :=
  lt_of_allSymbols h

lemma introduced_of_lt (h : id < (ofCodebase c).decls.size) :
    c.arena.Introduced c.arena.allIntroductions ((ofCodebase c).decl id) :=
  Arena.introduced_of_mem_declarations (decl_mem h)

lemma isSome_symbolAt_binding (h : id < (ofCodebase c).decls.size) :
    ((ofCodebase c).symbolAt ((ofCodebase c).decl id).binding).isSome = true := by
  obtain ⟨hintro, hb⟩ := introduced_of_lt h
  change ((allSymbols c c.arena.declarations).getD _ none).isSome = true
  rw [getD_allSymbols (Arena.lt_size_of_binding hb), Option.isSome_or,
    isSome_bindingSymbols hintro hb, Bool.or_true]

lemma inside_importTarget (hc : c.Parsed) (id : DeclId) :
    ((ofCodebase c).importTarget id).Inside c (ofCodebase c).decls := by
  unfold importTarget
  cases himport : (ofCodebase c).imports.getD id none with
  | none => trivial
  | some found =>
    rw [ofCodebase, Array.getD_eq_getD_getElem?, Array.getElem?_map] at himport
    cases hd : c.arena.declarations[id]? with
    | none => rw [hd] at himport; exact nomatch himport
    | some d =>
      rw [hd, Option.map_some, Option.getD_some] at himport
      split at himport
      · cases himport
        exact inside_followImport hc (fun _ _ => inside_of_mem_allExports hc.forest) _ _
      · exact nomatch himport

lemma inside_exportTarget (hc : c.Parsed) (names : Names) (module : ModuleId) (name : String) :
    ((ofCodebase c).exportTarget names module name).Inside c (ofCodebase c).decls := by
  have hfollow : ∀ {name? : Option ExportName} {e : Export},
      name?.bind ((ofCodebase c).exports.follow? module) = some e →
        e.Inside c (ofCodebase c).decls := by
    intro name? e h
    obtain ⟨name, -, hname⟩ := Option.bind_eq_some_iff.mp h
    exact inside_of_follow? (fun _ _ => inside_of_mem_allExports hc.forest) hname
  unfold exportTarget
  extract_lets name?
  split
  · next he =>
    split
    · exact inside_importTarget hc _
    · exact hfollow he
  · next he => exact hfollow he
  · trivial

/-- Each declaration has the references that resolve to it, in the order of their numbers. -/
lemma getD_allReferences (id : DeclId) : (allReferences c decls).getD id [] =
    c.arena.nodeIds.filter fun n => c.resolveName decls n = some id := by
  unfold allReferences
  rw [List.foldl_reverse]
  generalize c.arena.nodeIds = ns
  suffices h : ∀ references, ns.foldr (fun n references =>
      match c.resolveName decls n with
      | some id => references.modify id (n :: ·)
      | none => references) (Array.replicate decls.size []) = references →
      references.size = decls.size ∧ references.getD id [] =
        ns.filter fun n => c.resolveName decls n = some id from (h _ rfl).2
  induction ns with
  | nil =>
    rintro _ rfl
    refine ⟨Array.size_replicate, ?_⟩
    rw [List.foldr_nil, Array.getD_eq_getD_getElem?, Array.getElem?_replicate]
    split <;> rfl
  | cons n ns ih =>
    rintro _ rfl
    rw [List.foldr_cons, List.filter_cons]
    generalize hrest : ns.foldr _ _ = references
    obtain ⟨hsize, hfound⟩ := ih references hrest
    split
    · next target htarget =>
      have hlt : target < references.size := hsize ▸ lt_of_resolveName htarget
      refine ⟨by rw [Array.size_modify, hsize], ?_⟩
      rw [Array.getD_eq_getD_getElem?, Array.getElem?_modify, ← hfound]
      by_cases heq : target = id
      · subst heq
        simp [htarget, Array.getD_eq_getD_getElem?, hlt]
      · simp [htarget, heq, Array.getD_eq_getD_getElem?]
    · next hnone => exact ⟨hsize, by simp [hnone, hfound]⟩

lemma mem_referencesOf : n ∈ (ofCodebase c).referencesOf id ↔
    n < c.arena.size ∧ c.resolveName c.arena.declarations n = some id := by
  change n ∈ (allReferences c c.arena.declarations).getD id [] ↔ _
  rw [getD_allReferences, List.mem_filter, decide_eq_true_iff, Arena.nodeIds, List.mem_range]

lemma symbolAt_of_mem_referencesOf (h : n ∈ (ofCodebase c).referencesOf id) :
    (∃ name, c.arena.form n = .identifier name) ∧ (ofCodebase c).symbolAt n = some id := by
  obtain ⟨hn, hresolve⟩ := mem_referencesOf.mp h
  refine ⟨?_, ?_⟩
  · unfold Codebase.resolveName at hresolve
    split at hresolve
    · next name hform => exact ⟨name, hform⟩
    · exact nomatch hresolve
  · change (allSymbols c c.arena.declarations).getD n none = some id
    rw [getD_allSymbols hn, hresolve, Option.some_or]

end Scopes

end ValueFlow
