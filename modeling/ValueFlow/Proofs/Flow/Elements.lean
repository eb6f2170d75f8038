import ValueFlow.Proofs.Flow.Follows.Targets
import ValueFlow.Proofs.Flow.Literals

/-!
# Known and unknown positions

The elements of a value at an unknown position are its elements at any position.
So reading at an unknown position should give all that reading at a known one can
give. For arguments and for what builtins produce it does: the two readings differ
only in what they leave out.

Arrays and objects are not that simple. The elements of an array are guarded: while
they are worked out, asking for them again gives nothing, and an array that is spread
into itself is asked for again. And an object is read at a known position as a
property, with what was spread into it, stored in it and copied to it, but at an
unknown position with what it is written with. `Program.isExplicit` are the programs in
which neither can happen.
-/

namespace ValueFlow

/-! ## Explicit programs -/

/-- Whether a text consists of digits. -/
def isNumeral (text : String) : Bool := text.toList ≠ [] && text.toList.all Char.isDigit

lemma isNumeral_toString (i : Nat) : isNumeral (toString i) = true := by
  have hdigits : (toString i).toList = Nat.toDigits 10 i := String.toList_ofList
  rw [isNumeral, hdigits, Bool.and_eq_true, decide_eq_true_iff, List.all_eq_true]
  exact ⟨Nat.toDigits_ne_nil, fun c hc => Nat.isDigit_of_mem_toDigits (by decide) (by decide) hc⟩

lemma Arena.callParts?_of_calleeOf? {a : Arena} {n call : NodeId}
    (h : a.calleeOf? n = some call) : ∃ arguments, (a.form call).callParts? = some (n, arguments) := by
  obtain ⟨p, -, h⟩ := Option.bind_eq_some_iff.mp h
  obtain ⟨⟨callee, arguments⟩, hparts, h⟩ := Option.bind_eq_some_iff.mp h
  obtain ⟨hcallee, hcall⟩ := Option.ite_none_right_eq_some.mp h
  cases hcall
  exact ⟨arguments, hcallee ▸ hparts⟩

namespace Program

variable {p : Program}

/-- The name of the property that an access stands for, if it can be read off. -/
def accessedName? (p : Program) (n : NodeId) : Option String :=
  match p.arena.form n with
  | .member _ property _ => some (p.text property)
  | .index _ index _ =>
    match p.arena.form index with
    | .string value => some (p.text value)
    | _ => none
  | _ => none

/-- The position that an index expression stands for, if it can be read off. -/
def positionAt? (p : Program) (index : NodeId) : Option Nat :=
  match p.arena.form index with
  | .number text => position? (p.text text)
  | _ => none

def noSpread (p : Program) (nodes : List NodeId) : Bool :=
  nodes.all fun n => !(p.arena.form n).isSpread

/-- Whether the construct leaves arrays and objects as they are written: nothing is spread
into them, no property with a number for a name is assigned to, and none is copied. -/
def isExplicitAt (p : Program) (n : NodeId) : Bool :=
  match p.arena.form n with
  | .array elements => p.noSpread (elements.filterMap id)
  | .object properties => p.noSpread properties
  | .call callee arguments _ | .new callee arguments =>
    match p.arena.form callee with
    | .member _ property _ => p.text property ≠ "assign" &&
        (!Rule.addsElements (p.text property) || p.noSpread arguments)
    | _ => true
  | .assign _ target _ => !(p.accessedName? target).any isNumeral
  | _ => true

def isExplicit (p : Program) : Bool := p.arena.nodeIds.all p.isExplicitAt

lemma isExplicitAt_of_isExplicit (h : p.isExplicit = true) (n : NodeId) :
    p.isExplicitAt n = true := by
  rcases Nat.lt_or_ge n p.arena.size with hn | hn
  · exact List.all_eq_true.mp h n (List.mem_range.mpr hn)
  · have hform : p.arena.form n = .empty := by
      rw [Arena.form, Arena.node, Array.getD_eq_getD_getElem?, Array.getElem?_eq_none hn]
      rfl
    rw [isExplicitAt, hform]

lemma isSpread_of_noSpread {nodes : List NodeId} (h : p.noSpread nodes = true) {n : NodeId}
    (hn : n ∈ nodes) : (p.arena.form n).isSpread = false := by
  simpa using List.all_eq_true.mp h n hn

section Explicit

variable (h : p.isExplicit = true) {n callee object : NodeId} {property : Symbol}
  {arguments : List NodeId} {optional : Bool} {name : String}
include h

/-- What an explicit program says about the call of a method. -/
lemma explicit_of_call (hn : (p.arena.form n).callParts? = some (callee, arguments))
    (hcallee : p.arena.form callee = .member object property optional) :
    p.text property ≠ "assign" ∧
      (Rule.addsElements (p.text property) = true → p.noSpread arguments = true) := by
  have hat := isExplicitAt_of_isExplicit h n
  unfold isExplicitAt at hat
  cases hform : p.arena.form n <;> rw [hform] at hn hat <;> cases hn
  all_goals
    simp only [hcallee, Bool.and_eq_true, decide_eq_true_iff, Bool.or_eq_true,
      Bool.not_eq_true'] at hat
    refine ⟨hat.1, fun hadds => hat.2.resolve_left ?_⟩
    simp [hadds]

lemma noSpread_of_array {elements : List (Option NodeId)} (hn : p.arena.form n = .array elements) :
    p.noSpread (elements.filterMap id) = true := by
  have hat := isExplicitAt_of_isExplicit h n
  rwa [isExplicitAt, hn] at hat

lemma noSpread_of_object {properties : List NodeId} (hn : p.arena.form n = .object properties) :
    p.noSpread properties = true := by
  have hat := isExplicitAt_of_isExplicit h n
  rwa [isExplicitAt, hn] at hat

/-- Nothing is stored in a property with a number for a name. -/
lemma assignedValue?_of_numeral (hn : p.accessedName? n = some name)
    (hname : isNumeral name = true) : p.arena.assignedValue? n = none := by
  cases hassigned : p.arena.assignedValue? n with
  | none => rfl
  | some value =>
    obtain ⟨q, -, hq⟩ := Option.bind_eq_some_iff.mp hassigned
    have hat := isExplicitAt_of_isExplicit h q
    unfold isExplicitAt at hat
    split at hq
    · next target _ hform =>
      obtain ⟨rfl, -⟩ := Option.ite_none_right_eq_some.mp hq
      simp [hform, hn, hname] at hat
    · next target _ hform =>
      obtain ⟨rfl, -⟩ := Option.ite_none_right_eq_some.mp hq
      simp [hform, hn, hname] at hat
    · cases hq

lemma storedIn?_of_numeral (hname : isNumeral name = true) {parent : NodeId} :
    p.storedIn? name n parent = none := by
  have hnone : p.accessedName? parent = some name → p.arena.assignedValue? parent = none :=
    fun haccessed => assignedValue?_of_numeral h haccessed hname
  unfold storedIn?
  unfold accessedName? at hnone
  cases hform : p.arena.form parent with
  | member object property =>
    simp only [hform, Option.some.injEq] at hnone
    simp +contextual [isKey, hnone]
  | index object index =>
    simp only [hform] at hnone
    cases hindex : p.arena.form index with
    | string text =>
      simp only [hindex, Option.some.injEq] at hnone
      simp +contextual [isKey, hindex, hnone]
    | _ => simp [isKey, hindex]
  | _ => rfl

end Explicit

end Program

namespace Rule

variable {s : Session} {α β : Type} {st : Setting} {perform : Meaning} {set all : ConfigSet}
  {n : NodeId} {depth : Nat} {r : Rule α} {f : α → Rule ConfigSet} {c : Config}
  {nodes : List NodeId} {offset : Option Nat} {nodes' : List NodeId}

/-! ## One result -/

lemma oneAnswer_grants : OneAnswer s.Grants :=
  ⟨fun _ _ _ hread hread' => Session.Solved.unique hread hread',
    fun _ _ _ hi hj => Option.some.inj (hi.symm.trans hj)⟩

lemma comes_unique {a a' : α} (h : Comes s.Grants st r a) (h' : Comes s.Grants st r a') :
    a = a' :=
  h.unique oneAnswer_grants h'

/-- On the table of the session, the second rule comes to all that the first one comes to. -/
def Covers (s : Session) (st : Setting) (r r' : Rule ConfigSet) : Prop :=
  ∀ set set', Comes s.Grants st r set → Comes s.Grants st r' set' → ∀ c ∈ set, c ∈ set'

lemma Covers.refl (r : Rule ConfigSet) : Covers s st r r := by
  intro set set' h h' c hc
  rwa [← comes_unique h h']

lemma covers_empty {r : Rule ConfigSet} : Covers s st (pure .empty) r := by
  intro set set' h _ c hc
  cases h.pure
  exact absurd hc (PowerSet.not_mem_empty c)

/-- After a rule that comes to one result. -/
lemma Covers.next {f' : α → Rule ConfigSet}
    (hf : ∀ a, Comes s.Grants st r a → Covers s st (f a) (f' a)) :
    Covers s st (r >>= f) (r >>= f') := by
  intro set set' h h'
  obtain ⟨a, ha, h⟩ := h.bind
  obtain ⟨a', ha', h'⟩ := h'.bind
  cases comes_unique ha ha'
  exact hf a ha set set' h h'

/-- Before more rules that find something. -/
lemma Covers.past {q : Rule ConfigSet} (hf : ∀ a, Covers s st q (f a)) :
    Covers s st q (r >>= f) := by
  intro set set' h h'
  obtain ⟨a, -, h'⟩ := h'.bind
  exact hf a set set' h h'

lemma covers_union {a a' : ConfigSet} (ha : ∀ c ∈ a, c ∈ a') {r r' : Rule ConfigSet}
    (hr : Covers s st r r') : Covers s st (do return a ∪ (← r)) (do return a' ∪ (← r')) := by
  intro set set' h h' c hc
  obtain ⟨b, hb, h⟩ := h.bind
  obtain ⟨b', hb', h'⟩ := h'.bind
  cases h.pure
  cases h'.pure
  rw [PowerSet.mem_union] at hc ⊢
  exact hc.imp (ha c) (hr b b' hb hb' c)

lemma covers_unionOver (hsub : ∀ c ∈ set, c ∈ all) {f f' : Config → Rule ConfigSet}
    (hf : ∀ c ∈ set, Covers s st (f c) (f' c)) :
    Covers s st (unionOver set f) (unionOver all f') := by
  intro found found' h h' c hc
  obtain ⟨value, hvalue, part, hpart, hc⟩ := h.exists_of_mem_unionOver hc
  obtain ⟨part', hpart', hincluded⟩ := h'.unionOver (hsub value hvalue)
  exact hincluded c (hf value hvalue part part' hpart hpart' c hc)

/-! ## Arguments -/

lemma canBeAt_none (offset : Option Nat) : canBeAt none offset = true := rfl

lemma covers_argumentElementsFrom (env : Env) (position : Option Nat) (arguments : List NodeId)
    (offset offset' : Option Nat) :
    Covers s st (argumentElementsFrom perform env position offset arguments)
      (argumentElementsFrom perform env none offset' arguments) := by
  induction arguments generalizing offset offset' with
  | nil => exact covers_empty
  | cons argument rest ih =>
    unfold argumentElementsFrom
    refine .next fun form _ => ?_
    split
    · exact .next fun _ _ => .next fun _ _ => covers_union (fun _ hc => hc) (ih none none)
    · rw [canBeAt_none, if_pos rfl]
      split
      · exact .next fun _ _ => covers_union (fun _ hc => hc) (ih _ _)
      · exact .past fun found =>
          covers_union (fun c hc => absurd hc (PowerSet.not_mem_empty c)) (ih _ _)

lemma covers_argumentElements (call : NodeId) (first : Nat) (env : Env)
    (position : Option Nat) :
    Covers s st (argumentElements perform call first env position)
      (argumentElements perform call first env none) :=
  .next fun _ _ => covers_argumentElementsFrom env position _ _ _

/-! ## Arrays -/

/-- A value of one of the nodes. -/
def AnyOf (s : Session) (nodes : List NodeId) (env : Env) (c : Config) : Prop :=
  ∃ n ∈ nodes, ∃ set, s.Solved ⟨.evaluate, .ofNode n env⟩ set ∧ c ∈ set

lemma anyOf_nil {env : Env} : ¬ AnyOf s [] env c := fun ⟨_, hn, _⟩ => absurd hn List.not_mem_nil

lemma anyOf_append {env : Env} :
    AnyOf s (nodes ++ nodes') env c ↔ AnyOf s nodes env c ∨ AnyOf s nodes' env c := by
  simp only [AnyOf, List.mem_append, or_and_right, exists_or]

/-- The set has values of the nodes, and if the position is unknown, all of them. -/
structure Gathers (s : Session) (position : Option Nat) (nodes : List NodeId) (env : Env)
    (set : ConfigSet) : Prop where
  sound    : ∀ c ∈ set, AnyOf s nodes env c
  complete : position = none → ∀ c, AnyOf s nodes env c → c ∈ set

variable {visiting : List Visit} {position : Option Nat} {env : Env}

lemma gathers_nil : Gathers s position [] env .empty :=
  ⟨fun c hc => absurd hc (PowerSet.not_mem_empty c), fun _ _ h => absurd h anyOf_nil⟩

lemma Gathers.append {set' : ConfigSet}
    (h : Gathers s position nodes env set) (h' : Gathers s position nodes' env set') :
    Gathers s position (nodes ++ nodes') env (set ∪ set') where
  sound c hc := anyOf_append.mpr ((PowerSet.mem_union.mp hc).imp (h.sound c) (h'.sound c))
  complete hposition c hc := PowerSet.mem_union.mpr
    ((anyOf_append.mp hc).imp (h.complete hposition c) (h'.complete hposition c))

/-- The values of a node are there if it can be at the position. -/
lemma gathers_one (h : Comes s.Grants ⟨s.world, visiting⟩ (plainElements position offset n env)
      set) : Gathers s position [n] env set := by
  unfold plainElements at h
  split at h
  · refine ⟨fun c hc => ⟨n, .head _, set, h.ask, hc⟩, fun _ => ?_⟩
    rintro c ⟨_, hm, found, hfound, hc⟩
    cases List.mem_singleton.mp hm
    exact h.ask.unique hfound ▸ hc
  · next hskipped =>
    cases h.pure
    refine ⟨fun c hc => absurd hc (PowerSet.not_mem_empty c), fun hposition => ?_⟩
    subst hposition
    exact absurd (canBeAt_none offset) hskipped

section Explicit

variable (hp : s.world.program.isExplicit = true) {set : ConfigSet}
  {elements : List (Option NodeId)} {n : NodeId} {depth : Nat} {name : String}
  {arguments : List NodeId} {offset : Option Nat} {call : NodeId} {ref array : Config}
include hp

omit hp in
lemma gathers_listedElements {counts : Option Nat → Bool}
    (hspread : s.world.program.noSpread (elements.filterMap id) = true)
    (h : Comes s.Grants ⟨s.world, visiting⟩
      (listedElements perform counts env position offset elements) set) :
    Gathers s position (elements.filterMap id) env set := by
  induction elements generalizing offset set with
  | nil =>
    cases h.pure
    exact gathers_nil
  | cons element rest ih =>
    cases element with
    | none => exact ih hspread h
    | some element =>
      unfold listedElements at h
      rw [comes_bind_formOf] at h
      obtain ⟨found, hfound, h⟩ := h.bind
      obtain ⟨later, hlater, h⟩ := h.bind
      cases h.pure
      have hrest : s.world.program.noSpread (rest.filterMap id) = true :=
        List.all_eq_true.mpr fun n hn => List.all_eq_true.mp hspread n (.tail _ hn)
      have hrest := ih hrest hlater
      have hplain := Program.isSpread_of_noSpread hspread (.head _)
      unfold listedPart at hfound
      split at hfound
      · next hform =>
        rw [hform] at hplain
        cases hplain
      · exact (gathers_one hfound).append hrest

omit hp in
lemma gathers_argumentElementsFrom (hspread : s.world.program.noSpread arguments = true)
    (h : Comes s.Grants ⟨s.world, visiting⟩
      (argumentElementsFrom perform env position offset arguments) set) :
    Gathers s position arguments env set := by
  rw [argumentElementsFrom_eq] at h
  simpa using gathers_listedElements (by simpa using hspread) h

/-- The nodes whose values an alias of an array adds to its elements. -/
def addedBy (p : Program) (n : NodeId) : List NodeId :=
  match (p.arena.parent? n).map fun parent => (parent, p.arena.form parent) with
  | some (parent, .member object property _) =>
    if object = n && addsElements (p.text property) then
      match p.arena.calleeOf? parent with
      | some call => ((p.arena.form call).callParts?.map (·.2)).getD []
      | none => []
    else []
  | some (parent, .index object _ _) =>
    if object = n then (p.arena.assignedValue? parent).toList else []
  | _ => []

omit hp in
lemma Comes.argumentsOf (h : Comes s.Grants ⟨s.world, visiting⟩ (argumentsOf call) arguments) :
    ((s.world.arena.form call).callParts?.map (·.2)).getD [] = arguments := by
  unfold Rule.argumentsOf at h
  rw [comes_bind_formOf] at h
  rw [← h.pure]
  split
  · next hparts => rw [hparts]; rfl
  · next hparts => rw [hparts]; rfl

/-- Elements are added by a method of an alias, or stored at an index of it. -/
lemma gathers_aliasElements (hn : ref.node? = some n)
    (h : Comes s.Grants ⟨s.world, visiting⟩ (aliasElements perform position ref) set) :
    Gathers s position (addedBy s.world.program n) ref.env set := by
  have hnothing : Comes s.Grants ⟨s.world, visiting⟩ (pure .empty) set →
      Gathers s position [] ref.env set := by
    intro h
    cases h.pure
    exact gathers_nil
  unfold aliasElements at h
  rw [comes_bind_arena, hn] at h
  dsimp only at h
  split at h
  · next parent object property optional hparent =>
    -- a method that adds elements is called
    unfold addedBy
    rw [hparent]
    rw [comes_bind_textOf] at h
    dsimp only
    split at h
    · next hadds =>
      rw [if_pos hadds]
      cases hcall : s.world.arena.calleeOf? parent with
      | none =>
        rw [hcall] at h
        exact hnothing h
      | some call =>
        rw [hcall] at h
        obtain ⟨arguments, harguments, h⟩ := h.bind
        dsimp only
        rw [harguments.argumentsOf]
        obtain ⟨_, -, hpair⟩ := Option.map_eq_some_iff.mp hparent
        obtain ⟨rfl, hform⟩ := Prod.mk.inj hpair
        -- the arguments of the call are values of nodes, as none of them is spread
        obtain ⟨others, hparts⟩ := Arena.callParts?_of_calleeOf? hcall
        have hothers : others = arguments := by
          rw [← harguments.argumentsOf, hparts]
          rfl
        have hspread := (Program.explicit_of_call hp hparts hform).2
          ((Bool.and_eq_true _ _).mp hadds).2
        rw [hothers] at hspread
        obtain ⟨hsound, hcomplete⟩ := gathers_argumentElementsFrom hspread h
        exact ⟨hsound, fun _ => hcomplete rfl⟩
    · next hadds =>
      rw [if_neg hadds]
      exact hnothing h
  · next parent object index optional hparent =>
    -- an element is stored
    unfold addedBy
    rw [hparent]
    dsimp only
    split at h
    · next hobject =>
      rw [if_pos hobject]
      cases hstored : s.world.arena.assignedValue? parent with
      | none =>
        rw [hstored] at h
        exact hnothing h
      | some stored =>
        rw [hstored] at h
        obtain ⟨offset, -, h⟩ := h.bind
        exact gathers_one h
    · next hobject =>
      rw [if_neg hobject]
      exact hnothing h
  · next hmember hindex =>
    unfold addedBy
    split
    · next heq => exact absurd heq (hmember _ _ _ _)
    · next heq => exact absurd heq (hindex _ _ _ _)
    · exact hnothing h

/-- What an explicit array holds: what it is written with, and what its aliases add. -/
def Holds (s : Session) (array : Config) (elements : List (Option NodeId)) (c : Config) : Prop :=
  AnyOf s (elements.filterMap id) array.env c ∨
    ∃ aliases, s.Solved ⟨.traced, array⟩ aliases ∧
      ∃ ref ∈ aliases, ∃ n, ref.node? = some n ∧ AnyOf s (addedBy s.world.program n) ref.env c

/-- An array has only what it holds, and at an unknown position all of it. -/
lemma holds_arrayElements (hn : array.node? = some n)
    (hform : s.world.arena.form n = .array elements)
    (h : Comes s.Grants ⟨s.world, visiting⟩ (arrayElements perform array position) set) :
    (∀ c ∈ set, Holds s array elements c) ∧
      (position = none → ∀ c, Holds s array elements c → c ∈ set) := by
  unfold arrayElements at h
  rw [hn] at h
  dsimp only at h
  rw [comes_bind_formOf, hform] at h
  obtain ⟨own, hown, h⟩ := h.bind
  obtain ⟨aliases, haliases, h⟩ := h.bind
  obtain ⟨added, hadded, h⟩ := h.bind
  cases h.pure
  rw [literalElementsFrom_eq] at hown
  obtain ⟨hsound, hcomplete⟩ := gathers_listedElements (Program.noSpread_of_array hp hform) hown
  refine ⟨fun c hc => ?_, fun hposition c hc => ?_⟩
  · obtain hc | hc := PowerSet.mem_union.mp hc
    · exact .inl (hsound c hc)
    · obtain ⟨ref, href, part, hpart, hc⟩ := hadded.exists_of_mem_unionOver hc
      cases hm : ref.node? with
      | none =>
        unfold aliasElements at hpart
        rw [comes_bind_arena, hm] at hpart
        cases hpart.pure
        exact absurd hc (PowerSet.not_mem_empty c)
      | some m =>
        exact .inr ⟨aliases, haliases.ask, ref, href, m, hm,
          (gathers_aliasElements hp hm hpart).sound c hc⟩
  · refine PowerSet.mem_union.mpr (hc.imp (hcomplete hposition c) ?_)
    rintro ⟨found, hfound, ref, href, m, hm, hc⟩
    cases hfound.unique haliases.ask
    obtain ⟨part, hpart, hsub⟩ := hadded.unionOver href
    exact hsub c ((gathers_aliasElements hp hm hpart).complete hposition c hc)

/-- The guards of the two readings differ, but nothing in an explicit array is guarded. -/
lemma covers_arrayElements (hn : array.node? = some n)
    (hform : s.world.arena.form n = .array elements)
    (hvisiting : .elements array none ∉ visiting) :
    Covers s ⟨s.world, visiting⟩
      (guarded (.elements array position) .empty (arrayElements perform array position))
      (guarded (.elements array none) .empty (arrayElements perform array none)) := by
  intro set set' h h' c hc
  rw [comes_guarded] at h h'
  rw [if_neg hvisiting] at h'
  split at h
  · cases h
    exact absurd hc (PowerSet.not_mem_empty c)
  · exact (holds_arrayElements hp hn hform h').2 rfl c ((holds_arrayElements hp hn hform h).1 c hc)

/-! ## Objects -/

lemma not_isObjectAssign {b : Bool}
    (h : Comes s.Grants ⟨s.world, visiting⟩ (isObjectAssign (meaning depth) call env) b) :
    b = false := by
  unfold isObjectAssign at h
  rw [comes_bind_formOf] at h
  split at h
  · next callee arguments _ hform =>
    obtain ⟨targets, htargets, es, hrun, -⟩ := h.bind
    rw [anyM_eq_done (assigns s.world) (by rintro (_ | _ | _) <;> rfl) targets] at hrun
    rw [← (Rhs.run_done hrun).2, List.any_eq_false]
    intro target htarget hassigns
    cases target with
    | function | external => cases hassigns
    | builtin id =>
      obtain ⟨shape, hcalled, hlookup⟩ := htargets.lookedUp_targets id htarget
      obtain ⟨e, he, hshape⟩ := Catalogue.exists_of_mem_lookup hlookup
      have hassign : e.shape = .static "Object" "assign" := by
        have hassigns := of_decide_eq_true hassigns
        change ((s.world.catalogue.get? id).getD _).shape = _ at hassigns
        rwa [he] at hassigns
      obtain rfl | ⟨owner, hall⟩ := hshape
      · rw [hassign] at hcalled
        obtain ⟨object, property, optional, hcallee, hname⟩ := hcalled
        have hparts : (s.world.arena.form call).callParts? = some (callee, arguments) := by
          rw [hform]
          rfl
        exact (Program.explicit_of_call hp hparts hcallee).1 hname
      · exact absurd (Shape.static.inj (hall.symm.trans hassign)).2 (by decide)
  · exact h.pure.symm

lemma assignSources_eq_nil {sources : List NodeId}
    (h : Comes s.Grants ⟨s.world, visiting⟩ (assignSources (meaning depth) n env) sources) :
    sources = [] := by
  unfold assignSources at h
  rw [comes_bind_arena] at h
  split at h
  · obtain ⟨b, hb, h⟩ := h.bind
    cases not_isObjectAssign hp hb
    exact h.pure.symm
  · exact h.pure.symm

lemma not_mem_aliasProperty (hname : isNumeral name = true)
    (h : Comes s.Grants ⟨s.world, visiting⟩ (aliasProperty (meaning depth) name ref) set)
    (c : Config) : c ∉ set := by
  unfold aliasProperty at h
  split at h
  · cases h.pure
    exact PowerSet.not_mem_empty c
  · rw [comes_bind_arena] at h
    split at h
    · cases h.pure
      exact PowerSet.not_mem_empty c
    · obtain ⟨stored?, hstored, h⟩ := h.bind
      have hnone := comes_unique hstored (comes_storedInProperty? _ _)
      cases hnone.trans (Program.storedIn?_of_numeral hp hname)
      obtain ⟨stored, hempty, h⟩ := h.bind
      cases hempty.pure
      obtain ⟨sources, hsources, h⟩ := h.bind
      cases assignSources_eq_nil hp hsources
      obtain ⟨copied, hcopied, h⟩ := h.bind
      cases h.pure
      cases hcopied.pure
      rw [PowerSet.mem_union]
      exact fun hc => hc.elim (PowerSet.not_mem_empty c) (PowerSet.not_mem_empty c)

omit hp in
/-- A property that is not a spread gives the values it is written with, or nothing. -/
lemma solved_of_mem_literalProperty {property : NodeId}
    (hspread : (s.world.arena.form property).isSpread = false)
    (h : Comes s.Grants ⟨s.world, visiting⟩ (literalProperty perform env name property) set)
    {c : Config} (hc : c ∈ set) :
    ∃ value, s.world.program.ownValue? name property = some value ∧
      s.Solved ⟨.evaluate, .ofNode value env⟩ set := by
  rw [comes_literalProperty] at h
  dsimp only at h
  split at h
  · next value hown => exact ⟨value, hown, h.ask⟩
  · split at h
    · next hform =>
      rw [hform] at hspread
      cases hspread
    · cases h.pure
      exact absurd hc (PowerSet.not_mem_empty c)

/-- A property with a number for a name is one that the object is written with. -/
lemma covers_guardedProperty {object : Config} {properties : List NodeId}
    (hn : object.node? = some n) (hform : s.world.arena.form n = .object properties)
    (hname : isNumeral name = true) :
    Covers s ⟨s.world, visiting⟩ (guardedProperty (meaning depth) object name)
      (objectValues properties object.env) := by
  intro set set' h h' c hc
  rw [guardedProperty, comes_guarded] at h
  split at h
  · cases h
    exact absurd hc (PowerSet.not_mem_empty c)
  · unfold objectProperty at h
    rw [hn] at h
    dsimp only at h
    rw [comes_bind_formOf, hform] at h
    obtain ⟨own, hown, h⟩ := h.bind
    obtain ⟨aliases, -, h⟩ := h.bind
    obtain ⟨added, hadded, h⟩ := h.bind
    cases h.pure
    obtain hc | hc := PowerSet.mem_union.mp hc
    · obtain ⟨property, hproperty, part, hpart, hc⟩ := hown.exists_of_mem_unionOf hc
      obtain ⟨value, hown, hsolved⟩ := solved_of_mem_literalProperty
        (Program.isSpread_of_noSpread (Program.noSpread_of_object hp hform) hproperty) hpart hc
      obtain ⟨key, shorthand, hwritten⟩ := Program.exists_of_ownValue? hown
      obtain ⟨part', hpart', hsub⟩ := h'.unionOf hproperty
      rw [comes_bind_formOf, hwritten] at hpart'
      exact hsub c (hsolved.unique hpart'.ask ▸ hc)
    · obtain ⟨ref, -, part, hpart, hc⟩ := hadded.exists_of_mem_unionOver hc
      exact absurd hc (not_mem_aliasProperty hp hname hpart c)

/-! ## What builtins produce -/

end Explicit

/-- Awaiting more values comes to more. -/
lemma covers_awaitValues (hbuilt : st.world.program.Built) {some : ConfigSet}
    (hsub : ∀ c ∈ some, c ∈ all) :
    Covers s st (awaitValues (meaning depth) some) (awaitValues (meaning depth) all) := by
  intro set set' h h' c hc
  obtain ⟨items, hitems, h⟩ := h.bind
  obtain ⟨items', hitems', h'⟩ := h'.bind
  obtain ⟨value, hvalue, hsettles⟩ :=
    (mem_awaited_iff (opened_unique hbuilt oneAnswer_grants) h c).mp hc
  refine (mem_awaited_iff (opened_unique hbuilt oneAnswer_grants) h' c).mpr ⟨value, ?_, hsettles⟩
  exact (hitems'.inOrder value).mpr (hsub value ((hitems.inOrder value).mp hvalue))

/-- The elements at an unknown position are all elements, as far as `perform` goes. -/
def CoversElements (s : Session) (st : Setting) (perform : Meaning) : Prop :=
  ∀ values all : ConfigSet, (∀ c ∈ values, c ∈ all) → ∀ position,
    Covers s st (perform (.elements values position)) (perform (.elements all none))

/-- Of what builtins produce, the position matters only for the arguments of a call and
for what elements settle to. -/
lemma covers_elementSummary (hbuilt : st.world.program.Built)
    (helements : CoversElements s st (meaning depth)) (site : Site)
    (position : Option Nat) (summary : ElementSummary) :
    Covers s st (elementSummary (meaning depth) site position summary)
      (elementSummary (meaning depth) site none summary) := by
  cases summary with
  | arguments => exact helements _ _ (fun _ hc => hc) position
  | settledElements =>
    refine .next fun promises _ => ?_
    intro set set' h h'
    obtain ⟨some, hsome, h⟩ := h.bind
    obtain ⟨all, hall, h'⟩ := h'.bind
    have hsub := helements promises promises (fun _ hc => hc) position some all hsome hall
    exact covers_awaitValues hbuilt hsub set set' h h'
  | external | callbackResults | receiverElements | concatenation | flattened | converted
  | argumentElements | storedValues => exact .refl _

/-- Two loops over the same items stay related if their steps do. -/
lemma Comes.foldlM_rel {γ : Type} {R : β → β → Prop} {f f' : β → γ → Rule β} {items : List γ}
    (hstep : ∀ item x x' y y', R x x' → Comes s.Grants st (f x item) y →
      Comes s.Grants st (f' x' item) y' → R y y')
    {x x' y y' : β} (hx : R x x') (h : Comes s.Grants st (items.foldlM f x) y)
    (h' : Comes s.Grants st (items.foldlM f' x') y') : R y y' := by
  induction items generalizing x x' with
  | nil =>
    cases h.pure
    cases h'.pure
    exact hx
  | cons item items ih =>
    rw [List.foldlM_cons] at h h'
    obtain ⟨z, hz, h⟩ := h.bind
    obtain ⟨z', hz', h'⟩ := h'.bind
    exact ih (hstep item x x' z z' hx hz hz') h h'

lemma covers_builtinElements (hbuilt : st.world.program.Built)
    (helements : CoversElements s st (meaning depth)) (value : Config) (n : NodeId)
    (position : Option Nat) :
    Covers s st (builtinElements (meaning depth) value n position)
      (builtinElements (meaning depth) value n none) := by
  unfold builtinElements
  refine .next fun ids _ => ?_
  intro set set' h h'
  obtain ⟨found, hfound, h⟩ := h.bind
  obtain ⟨found', hfound', h'⟩ := h'.bind
  -- both loops meet a summary at the same entries
  have hrel : Option.Rel (fun a b : ConfigSet => ∀ c ∈ a, c ∈ b) found found' := by
    refine Comes.foldlM_rel (fun id x x' y y' hx hy hy' => ?_) .none hfound hfound'
    obtain ⟨e, he, hy⟩ := hy.bind
    obtain ⟨e', he', hy'⟩ := hy'.bind
    cases comes_unique he he'
    split at hy
    · next summary hsummary =>
      rw [hsummary] at hy'
      obtain ⟨elements, helement, hy⟩ := hy.bind
      obtain ⟨elements', helement', hy'⟩ := hy'.bind
      cases hy.pure
      cases hy'.pure
      refine .some fun c hc => ?_
      rw [PowerSet.mem_union] at hc ⊢
      refine hc.imp (fun hc => ?_)
        (covers_elementSummary hbuilt helements _ _ _ _ _ helement helement' c)
      cases hx with
      | some hsub => exact hsub c hc
      | none => exact hc
    · next hsummary =>
      rw [hsummary] at hy'
      cases hy.pure
      cases hy'.pure
      exact hx
  cases hrel with
  | some hsub =>
    cases h.pure
    cases h'.pure
    exact hsub
  | none => exact Covers.refl _ set set' h h'

/-! ## All values -/

section Explicit

variable (hp : s.world.program.isExplicit = true)
  (hvisiting : ∀ array, .elements array none ∉ visiting)
  (hbuilt : s.world.program.Built)
include hp hvisiting hbuilt

lemma covers_elementValues (helements : CoversElements s ⟨s.world, visiting⟩ (meaning depth))
    {values : ConfigSet} (hsub : ∀ c ∈ values, c ∈ all) (position : Option Nat) :
    Covers s ⟨s.world, visiting⟩ (elementValues (meaning depth) values position)
      (elementValues (meaning depth) all none) := by
  refine covers_unionOver hsub fun value _ => ?_
  cases hcursor : value.cursor with
  | external | pick => exact .refl _
  | arguments call first => exact covers_argumentElements call first value.env position
  | node n =>
    have hn : value.node? = some n := by
      rw [Config.node?, hcursor]
      rfl
    refine .next fun form h => ?_
    have hform : s.world.arena.form n = form :=
      Comes.pure (P := s.Grants) (s := ⟨s.world, visiting⟩) h
    split
    · exact covers_arrayElements hp hn hform (hvisiting value)
    · cases position with
      | none => exact .refl _
      | some i => exact covers_guardedProperty hp hn hform (isNumeral_toString i)
    · exact .refl _
    · exact .refl _
    · exact .refl _
    · exact .refl _
    · exact covers_builtinElements hbuilt helements value n position

lemma covers_meaning (depth : Nat) :
    CoversElements s ⟨s.world, visiting⟩ (meaning depth) := by
  induction depth with
  | zero =>
    intro values all _ position set set' h
    exact absurd h (not_comes_diverge set)
  | succ depth ih =>
    intro values all hsub position
    exact covers_elementValues hp hvisiting hbuilt ih hsub position

end Explicit

/-- Argument lists are read as they are written, in every program. -/
lemma covers_elements_of_arguments {values : ConfigSet}
    (hvalues : ∀ value ∈ values, ∃ call first, value.cursor = .arguments call first)
    (hsub : ∀ c ∈ values, c ∈ all) (position : Option Nat) :
    Covers s st (meaning (depth + 1) (.elements values position))
      (meaning (depth + 1) (.elements all none)) := by
  refine covers_unionOver hsub fun value hvalue => ?_
  obtain ⟨call, first, hcursor⟩ := hvalues value hvalue
  rw [hcursor]
  exact covers_argumentElements call first value.env position

/-- An access by an index that is no text reads elements. -/
lemma Comes.index {P : Request → Prop} {n object index : NodeId} {optional : Bool} {env : Env}
    {own : ConfigSet} (hform : st.world.arena.form n = .index object index optional)
    (hindex : ∀ key, st.world.arena.form index ≠ .string key)
    (h : Comes P st (answer perform .evaluate (.ofNode n env)) own) :
    ∃ receivers, P (.read ⟨.evaluate, .ofNode object env⟩ receivers) ∧
      Comes P st (perform (.elements receivers (st.world.program.positionAt? index))) own := by
  change Comes P st (evaluateNode perform n env) own at h
  unfold evaluateNode at h
  rw [comes_bind_formOf, hform] at h
  obtain ⟨receivers, hreceivers, h⟩ := h.bind
  refine ⟨receivers, hreceivers.ask, ?_⟩
  rw [comes_bind_formOf] at h
  unfold Program.positionAt?
  split at h
  · next key hkey => exact absurd hkey (hindex key)
  · next text htext =>
    rw [htext]
    exact h
  · next hnumber =>
    split
    · next text htext => exact absurd htext (hnumber text)
    · exact h

end Rule

namespace Session

variable {w : World} {asked : List Query} {s : Session}

/-- **An unknown index covers every known index.** In a settled session, what the values
have at a known position is among what they have at an unknown one, and among what
an access to them by an unknown index evaluates to: always where the values are
argument lists, and for all values if the program is explicit. -/
theorem unknown_index_covers {sources : Sources} {p : Program}
    (hbuild : Program.build sources = .ok p) {bound : Nat} {targets : List NodeId}
    (h : Reached ⟨p, .standard, bound, targets⟩ asked s) {values : ConfigSet}
    (hvalues : p.isExplicit = true ∨
      ∀ value ∈ values, ∃ call first, value.cursor = .arguments call first)
    {i : Nat} {known : ConfigSet}
    (hknown : Rule.Comes s.Grants ⟨s.world, []⟩
      (Rule.meaning s.world.depthLimit (.elements values (some i))) known) :
    (∀ unknown, Rule.Comes s.Grants ⟨s.world, []⟩
      (Rule.meaning s.world.depthLimit (.elements values none)) unknown → ∀ c ∈ known, c ∈ unknown) ∧
    ∀ n object index optional env receivers set, p.arena.form n = .index object index optional →
      (∀ key, p.arena.form index ≠ .string key) → p.positionAt? index = none →
      s.Solved ⟨.evaluate, .ofNode object env⟩ receivers → (∀ c ∈ values, c ∈ receivers) →
      s.Solved ⟨.evaluate, .ofNode n env⟩ set → ∀ c ∈ known, c ∈ set := by
  have hw : World.Sound ⟨p, .standard, bound, targets⟩ := .of_build hbuild
  have hworld := h.world_eq
  have hcovers : ∀ all : ConfigSet, (∀ c ∈ values, c ∈ all) → Rule.Covers s ⟨s.world, []⟩
      (Rule.meaning s.world.depthLimit (.elements values (some i)))
      (Rule.meaning s.world.depthLimit (.elements all none)) := by
    intro all hsub
    obtain hexplicit | harguments := hvalues
    · refine Rule.covers_meaning ?_ (fun _ => List.not_mem_nil) (hworld ▸ hw.built) _ values all
        hsub (some i)
      rwa [hworld]
    · obtain ⟨depth, hdepth⟩ := s.world.exists_depthLimit
      rw [hdepth]
      exact Rule.covers_elements_of_arguments harguments hsub (some i)
  refine ⟨fun unknown => hcovers values (fun _ hc => hc) known unknown hknown, ?_⟩
  intro n object index optional env receivers set hform hindex hposition hobject hsub hset c hc
  obtain ⟨own, hown, hpart⟩ := h.comes hw hset
  obtain ⟨_, hread, hown⟩ := hown.index hform hindex
  cases hobject.unique hread
  rw [hposition, ← hworld] at hown
  exact hpart c (hcovers receivers hsub known own hknown hown c hc)

def listReads : Sources := [("main", "const a = [1];\na[0];\na[k];")]

/-- The two reads. -/
def listQueries : List Query := [⟨.evaluate, .ofNode 7 .root⟩, ⟨.evaluate, .ofNode 11 .root⟩]

theorem unknown_index_covers_of_list :
    ∃ p s values known set, Program.build listReads = .ok p ∧ p.isExplicit = true ∧
      Reached ⟨p, .standard, 1, []⟩ listQueries s ∧
      Rule.Comes s.Grants ⟨s.world, []⟩
        (Rule.meaning s.world.depthLimit (.elements values (some 0))) known ∧
      .ofNode 1 .root ∈ known ∧ s.Solved ⟨.evaluate, .ofNode 11 .root⟩ set ∧
      .ofNode 1 .root ∈ set := by
  obtain ⟨p, s, hbuild, hw, hs, hexplicit, hread, hindex, hposition, hread', hindex',
      ⟨known, hresult, hmem⟩, hsub⟩ :=
    exists_reached listReads 1 (fun _ => listQueries) (fun p s =>
      p.isExplicit = true ∧ p.arena.form 7 = .index 5 6 false ∧
      p.arena.form 6 = .number 2 ∧ p.positionAt? 6 = some 0 ∧
      p.arena.form 11 = .index 9 10 false ∧ p.arena.form 10 = .identifier 3 ∧
      (∃ known ∈ s.result (Rule.answer (Rule.meaning s.world.depthLimit) .evaluate
        (.ofNode 7 .root)), .ofNode 1 .root ∈ known) ∧
      ∀ c ∈ (s.solver.assignment ⟨.evaluate, .ofNode 5 .root⟩).elems,
        c ∈ s.solver.assignment ⟨.evaluate, .ofNode 9 .root⟩) (by decide +kernel)
  have hworld := hs.world_eq
  -- the first read is of the first position
  have hset := hs.solved_assignment hw (.head _) nofun
  obtain ⟨_, hown, -⟩ := hs.comes hw hset
  cases (hs.result_eq hown).symm.trans hresult
  obtain ⟨values, hvalues, hknown⟩ := hown.index hread (by simp [hindex])
  -- the second one is at an unknown position
  have hset' := hs.solved_assignment hw (.tail _ (.head _)) nofun
  obtain ⟨own', hown', -⟩ := hs.comes hw hset'
  obtain ⟨receivers, hreceivers, -⟩ := hown'.index hread' (by simp [hindex'])
  rw [hposition, ← hworld] at hknown
  refine ⟨p, s, values, known, _, hbuild, hexplicit, hs, hknown, hmem, hset', ?_⟩
  refine (unknown_index_covers hbuild hs (.inl hexplicit) hknown).2 11 9 10 false .root receivers _
    hread' (by simp [hindex']) (by simp [Program.positionAt?, hindex']) hreceivers ?_ hset' _ hmem
  rw [← (hs.touched_of_solved _ _ hvalues).2, ← (hs.touched_of_solved _ _ hreceivers).2]
  exact fun c hc => hsub c (PowerSet.mem_def.mp hc)

def storedNumber : Sources :=
  [("main", "const o = \x7b\x7d;\no[\"0\"] = 1;\no[0];\no[k];")]

/-- A property that is assigned to is found by its number, but not at an unknown position. -/
theorem unknown_index_misses_assigned :
    ∃ p s set set', Program.build storedNumber = .ok p ∧
      p.arena.form 12 = .index 10 11 false ∧ p.positionAt? 11 = some 0 ∧
      p.arena.form 16 = .index 14 15 false ∧ p.arena.form 15 = .identifier 3 ∧
      Reached ⟨p, .standard, 1, []⟩
        [⟨.evaluate, .ofNode 12 .root⟩, ⟨.evaluate, .ofNode 16 .root⟩] s ∧
      s.Solved ⟨.evaluate, .ofNode 12 .root⟩ set ∧ .ofNode 7 .root ∈ set ∧
      s.Solved ⟨.evaluate, .ofNode 16 .root⟩ set' ∧ ∀ c, c ∉ set' := by
  obtain ⟨p, s, hbuild, hw, hs, hread, hposition, hread', hindex', hmem, hnone⟩ :=
    exists_reached storedNumber 1
      (fun _ => [⟨.evaluate, .ofNode 12 .root⟩, ⟨.evaluate, .ofNode 16 .root⟩]) (fun p s =>
      p.arena.form 12 = .index 10 11 false ∧ p.positionAt? 11 = some 0 ∧
      p.arena.form 16 = .index 14 15 false ∧ p.arena.form 15 = .identifier 3 ∧
      .ofNode 7 .root ∈ s.solver.assignment ⟨.evaluate, .ofNode 12 .root⟩ ∧
      (s.solver.assignment ⟨.evaluate, .ofNode 16 .root⟩).elems = []) (by decide +kernel)
  refine ⟨p, s, _, _, hbuild, hread, hposition, hread', hindex', hs,
    hs.solved_assignment hw (.head _) nofun, hmem,
    hs.solved_assignment hw (.tail _ (.head _)) nofun, fun c hc => ?_⟩
  rw [PowerSet.mem_def, hnone] at hc
  exact List.not_mem_nil hc

end Session

end ValueFlow
