import ValueFlow.Proofs.Flow.Fixed
import ValueFlow.Proofs.Flow.Literals

/-!
# Spreads that go round in circles

An object literal can spread other objects into itself, and they can spread it in
turn. While a property of an object is being worked on, the same question about the
same object gives nothing, so that the inner answers are partial. The outermost one is
not: whatever can be reached from an object can be reached without coming back to it,
and so the answer has the properties of all the objects that are reached.
-/

namespace ValueFlow

open Relation

namespace Config

variable {w : World} {c : Config}

/-- The parts of an object literal. -/
def properties? (w : World) (c : Config) : Option (List NodeId) :=
  c.node?.bind fun n =>
    match w.program.arena.form n with
    | .object properties => some properties
    | _ => none

theorem properties?_eq_some_iff {properties : List NodeId} :
    c.properties? w = some properties ↔
      ∃ n, c.cursor = .node n ∧ w.program.arena.form n = .object properties := by
  unfold properties? node? Cursor.node?
  cases c.cursor with
  | node n =>
    simp only [Option.bind_some, Cursor.node.injEq, exists_eq_left']
    cases w.program.arena.form n with
    | _ => simp
  | _ => simp

theorem isExternal_of_properties (h : (c.properties? w).isSome = true) : c.isExternal = false := by
  obtain ⟨properties, hproperties⟩ := Option.isSome_iff_exists.mp h
  obtain ⟨n, hcursor, -⟩ := properties?_eq_some_iff.mp hproperties
  simp [isExternal, hcursor]

end Config

namespace Table

variable (t : Table) (w : World) (name : String)

/-- What a part of an object literal is spread from can be `c`. -/
def SpreadAt (env : Env) (property : NodeId) (c : Config) : Prop :=
  ∃ argument, w.program.arena.form property = .spread argument ∧
    c ∈ t.answer ⟨.evaluate, .ofNode argument env⟩

/-- A value that the object literal says its property `name` has. -/
def OwnAt (env : Env) (property : NodeId) (c : Config) : Prop :=
  ∃ value, w.program.ownValue? name property = some value ∧
    c ∈ t.answer ⟨.evaluate, .ofNode value env⟩

/-- The object literal has `c` spread into itself. -/
def Spreads (object c : Config) : Prop :=
  ∃ properties, object.properties? w = some properties ∧
    ∃ property ∈ properties, t.SpreadAt w object.env property c

/-- The object literal itself gives the value `c` to its property `name`. -/
def Owns (object c : Config) : Prop :=
  ∃ properties, object.properties? w = some properties ∧
    ∃ property ∈ properties, t.OwnAt w name object.env property c

/-- The object literal has another one spread into itself. -/
def SpreadsObject (object other : Config) : Prop :=
  t.Spreads w object other ∧ (other.properties? w).isSome = true

/-- The object literal has the other one spread into itself, directly or through others. -/
def Reaches : Config → Config → Prop := ReflTransGen (t.SpreadsObject w)

/-- What an object adds to its property `name`, other objects apart. -/
def Gives (object c : Config) : Prop :=
  t.Owns w name object c ∨ (c = .external ∧ ∃ e, t.Spreads w object e ∧ e.isExternal = true)

end Table

namespace Rule

open Table

variable {t : Table} {w : World} {name : String} {st : Setting} {visits : List Visit}
  {perform : Meaning} {depth : Nat} {object ref x z c : Config} {properties : List NodeId}

/-! ## Paths that do not come back -/

/-- The property of the object is not being worked on. -/
def Fresh (visits : List Visit) (name : String) (object : Config) : Prop :=
  Visit.property object name ∉ visits

theorem fresh_cons :
    Fresh (.property object name :: visits) name x ↔ x ≠ object ∧ Fresh visits name x := by
  simp [Fresh]

/-- One object is spread into another one, and is not being worked on. -/
def Step (t : Table) (w : World) (name : String) (visits : List Visit) (x y : Config) : Prop :=
  t.SpreadsObject w x y ∧ Fresh visits name y

theorem Fresh.of_path (hx : Fresh visits name x) (h : ReflTransGen (Step t w name visits) x z) :
    Fresh visits name z := by
  cases h with
  | refl => exact hx
  | tail _ hstep => exact hstep.2

/-- A path to somewhere else leaves its start for the last time at some step, and does not
come back. -/
theorem reflTransGen_fresh_iff :
    ReflTransGen (Step t w name visits) x z ↔ z = x ∨
      ∃ y, Step t w name (.property x name :: visits) x y ∧
        ReflTransGen (Step t w name (.property x name :: visits)) y z := by
  constructor
  · intro h
    induction h with
    | refl => exact .inl rfl
    | @tail y z _ hyz ih =>
      by_cases hback : z = x
      · exact .inl hback
      have hstep : Step t w name (.property x name :: visits) y z :=
        ⟨hyz.1, fresh_cons.mpr ⟨hback, hyz.2⟩⟩
      obtain rfl | ⟨first, hfirst, hpath⟩ := ih
      · exact .inr ⟨z, hstep, .refl⟩
      · exact .inr ⟨first, hfirst, hpath.tail hstep⟩
  · have hforget : ∀ {y z}, Step t w name (.property x name :: visits) y z →
        Step t w name visits y z := fun h => ⟨h.1, (fresh_cons.mp h.2).2⟩
    rintro (rfl | ⟨y, hy, hpath⟩)
    · exact .refl
    · exact .head (hforget hy) (hpath.lift id fun _ _ => hforget)

/-! ## The parts of the rule -/

/-- What a part of an object literal adds, if it is known what the spread ones add. -/
theorem finds_literalProperty {env : Env} {property : NodeId} {adds : Config → Config → Prop}
    (hspread : ∀ argument, w.program.arena.form property = .spread argument →
      Finds t.Agrees ⟨w, visits⟩
        (perform (.property (t.answer ⟨.evaluate, .ofNode argument env⟩) name none))
        fun c => ∃ x ∈ t.answer ⟨.evaluate, .ofNode argument env⟩, adds x c) :
    Finds t.Agrees ⟨w, visits⟩ (literalProperty perform env name property) fun c =>
      t.OwnAt w name env property c ∨ ∃ x, t.SpreadAt w env property x ∧ adds x c := by
  unfold Finds OwnAt SpreadAt
  simp only [comes_literalProperty]
  cases hown : w.program.ownValue? name property with
  | some value =>
    refine ⟨_, t.comes_ask _ _ _, fun c => ?_⟩
    obtain ⟨key, shorthand, hform⟩ := Program.exists_of_ownValue? hown
    simp [hform]
  | none =>
    cases hform : w.program.arena.form property with
    | spread argument =>
      obtain ⟨found, hfound, hmem⟩ := hspread argument hform
      refine ⟨found, (t.comes_ask _ _ _).andThen hfound, fun c => ?_⟩
      simp [hmem]
    | _ => exact ⟨.empty, comes_pure _, fun c => by simp⟩

/-- No use of the alias adds to the property `name`: nothing is stored in it, and the object
is not the target of a call of `Object.assign`. -/
structure Untouched (t : Table) (st : Setting) (depth : Nat) (name : String) (ref : Config) :
    Prop where
  notStored : ∀ n parent, ref.node? = some n → st.world.program.arena.parent? n = some parent →
    st.world.program.storedIn? name n parent = none
  notAssigned : ∀ n call, ref.node? = some n →
    st.world.program.arena.argumentOf? n = some (call, 0) →
    t.result st (isObjectAssign (meaning depth) call ref.env) = some false

theorem Untouched.comes_assignSources {n : NodeId} (h : Untouched t st depth name ref)
    (hn : ref.node? = some n) :
    Comes t.Agrees st (assignSources (meaning depth) n ref.env) [] := by
  unfold assignSources
  rw [comes_bind_arena]
  split
  · next call hargument =>
    have hnot := Table.result_eq_some_iff.mp (h.notAssigned n call hn hargument)
    exact hnot.andThen (comes_pure _)
  · exact comes_pure _

theorem finds_aliasProperty {depth' : Nat} (hbuilt : st.world.program.Built)
    (h : Untouched t st depth name ref)
    (hdepth : depth ≤ depth') :
    Finds t.Agrees st (aliasProperty (meaning depth') name ref) fun _ => False := by
  unfold aliasProperty
  cases hn : ref.node? with
  | none => exact finds_empty
  | some n =>
    cases hparent : st.world.program.arena.parent? n with
    | none =>
      unfold Finds
      simp only [comes_bind_arena, hparent]
      exact finds_empty
    | some parent =>
      have hstored : Comes t.Agrees st (storedInProperty? name n parent) none :=
        h.notStored n parent hn hparent ▸ comes_storedInProperty? n parent
      have hsources := deeper_of_below hbuilt (r := fun d => assignSources (meaning d) n ref.env)
        (fun d hp => compares_assignSources hp.resolves ⟨trivial, trivial⟩) hdepth _ _ _
        (h.comes_assignSources hn)
      refine ⟨.empty ∪ .empty, ?_, fun c => by simp⟩
      simp only [comes_bind_arena, hparent]
      refine hstored.andThen ((comes_pure _).andThen (hsources.andThen ?_))
      exact (comes_pure _).andThen (comes_pure _)

/-! ## The property of an object -/

/-- What a value adds to the property `name`, while some objects are being worked on: a value
from outside adds what is outside, and an object all that is reached from it without coming
back. -/
def Adds (t : Table) (w : World) (name : String) (visits : List Visit) (x c : Config) : Prop :=
  (c = .external ∧ x.isExternal = true) ∨
    (x.properties? w).isSome = true ∧ Fresh visits name x ∧
      ∃ z, ReflTransGen (Step t w name visits) x z ∧ t.Gives w name z c

/-- The parts of an object add what is reached from the object. -/
theorem adds_properties_iff (hobject : object.properties? w = some properties) :
    (∃ property ∈ properties, t.OwnAt w name object.env property c ∨
      ∃ x, t.SpreadAt w object.env property x ∧
        Adds t w name (.property object name :: visits) x c) ↔
      ∃ z, ReflTransGen (Step t w name visits) object z ∧ t.Gives w name z c := by
  constructor
  · rintro ⟨property, hproperty, hown | ⟨x, hspread, hadds⟩⟩
    · exact ⟨object, .refl, .inl ⟨properties, hobject, property, hproperty, hown⟩⟩
    · have hspreads : t.Spreads w object x := ⟨properties, hobject, property, hproperty, hspread⟩
      obtain ⟨rfl, hexternal⟩ | ⟨hliteral, hfresh, z, hpath, hgives⟩ := hadds
      · exact ⟨object, .refl, .inr ⟨rfl, x, hspreads, hexternal⟩⟩
      · refine ⟨z, reflTransGen_fresh_iff.mpr (.inr ⟨x, ?_, hpath⟩), hgives⟩
        exact ⟨⟨hspreads, hliteral⟩, hfresh⟩
  · rintro ⟨z, hpath, hgives⟩
    obtain rfl | ⟨y, ⟨⟨⟨ps, hps, property, hproperty, hspread⟩, hliteral⟩, hfresh⟩, hpath⟩ :=
      reflTransGen_fresh_iff.mp hpath
    · obtain ⟨ps, hps, property, hproperty, hown⟩ |
        ⟨rfl, e, ⟨ps, hps, property, hproperty, hspread⟩, hexternal⟩ := hgives
      · cases hobject.symm.trans hps
        exact ⟨property, hproperty, .inl hown⟩
      · cases hobject.symm.trans hps
        exact ⟨property, hproperty, .inr ⟨e, hspread, .inl ⟨rfl, hexternal⟩⟩⟩
    · cases hobject.symm.trans hps
      exact ⟨property, hproperty, .inr ⟨y, hspread, .inr ⟨hliteral, hfresh, z, hpath, hgives⟩⟩⟩

theorem finds_objectProperty (hobject : object.properties? w = some properties)
    (hspread : ∀ property ∈ properties, ∀ argument,
      w.program.arena.form property = .spread argument →
      Finds t.Agrees ⟨w, .property object name :: visits⟩
        (perform (.property (t.answer ⟨.evaluate, .ofNode argument object.env⟩) name none))
        fun c => ∃ x ∈ t.answer ⟨.evaluate, .ofNode argument object.env⟩,
          Adds t w name (.property object name :: visits) x c)
    (halias : ∀ ref ∈ t.answer ⟨.traced, object⟩,
      Finds t.Agrees ⟨w, .property object name :: visits⟩ (aliasProperty perform name ref)
        fun _ => False) :
    Finds t.Agrees ⟨w, .property object name :: visits⟩ (objectProperty perform object name)
      fun c => ∃ z, ReflTransGen (Step t w name visits) object z ∧ t.Gives w name z c := by
  obtain ⟨n, hcursor, hform⟩ := Config.properties?_eq_some_iff.mp hobject
  have hn : object.node? = some n := by rw [Config.node?, hcursor, Cursor.node?]
  obtain ⟨own, hown, hmem⟩ := finds_unionOf t.oneAnswer fun property hproperty =>
    finds_literalProperty (hspread property hproperty)
  obtain ⟨added, hadded, hnone⟩ := finds_unionOver halias
  refine ⟨own ∪ added, ?_, fun c => by simp [hmem, hnone, adds_properties_iff hobject]⟩
  unfold objectProperty
  simp only [hn, comes_bind_formOf, hform]
  exact hown.andThen ((t.comes_ask _ _ _).andThen (hadded.andThen (comes_pure _)))

/-- The property of one value. -/
def propertyOf (perform : Meaning) (name : String) (site : Option Site) (value : Config) :
    Rule ConfigSet := do
  match value.cursor with
  | .external => return .external
  | .node n =>
    match ← formOf n with
    | .object _ => guardedProperty perform value name
    | .module _ => exportValues n name
    | .null | .undefined => return .empty
    | _ => builtinProperty perform value name site
  | _ => builtinProperty perform value name site

theorem finds_propertyOf (site : Option Site)
    (hx : x.isExternal = true ∨ (x.properties? w).isSome = true)
    (hobject : (x.properties? w).isSome = true → Fresh visits name x →
      Finds t.Agrees ⟨w, .property x name :: visits⟩ (objectProperty perform x name)
        fun c => ∃ z, ReflTransGen (Step t w name visits) x z ∧ t.Gives w name z c) :
    Finds t.Agrees ⟨w, visits⟩ (propertyOf perform name site x) (Adds t w name visits x) := by
  unfold propertyOf Adds
  obtain hexternal | hliteral := hx
  · -- a value from outside is no object
    have hcursor : x.cursor = .external := of_decide_eq_true hexternal
    have hno : x.properties? w = none := by
      rw [Config.properties?, Config.node?, hcursor]
      rfl
    refine ⟨.external, ?_, fun c => by simp [ConfigSet.external, hexternal, hno]⟩
    rw [hcursor]
    exact comes_pure _
  · obtain ⟨properties, hproperties⟩ := Option.isSome_iff_exists.mp hliteral
    obtain ⟨n, hcursor, hform⟩ := Config.properties?_eq_some_iff.mp hproperties
    have hinside := Config.isExternal_of_properties hliteral
    unfold Finds
    simp only [hcursor, comes_bind_formOf, hform, guardedProperty, comes_guarded]
    by_cases hfresh : Fresh visits name x
    · obtain ⟨found, hfound, hmem⟩ := hobject hliteral hfresh
      refine ⟨found, ?_, fun c => by simp [hmem, hinside, hliteral, hfresh]⟩
      rw [if_neg hfresh]
      exact hfound
    · have hvisit : Visit.property x name ∈ visits := Decidable.not_not.mp hfresh
      exact ⟨.empty, by rw [if_pos hvisit], fun c => by simp [hinside, hfresh]⟩

/-! ## All the objects that are reached -/

/-- The guarded questions are the given ones, and those for the property `name` of objects
that are reached from `start`. -/
def VisitsReached (t : Table) (w : World) (name : String) (given : List Visit) (start : Config)
    (visits : List Visit) : Prop :=
  ∀ visit ∈ visits, visit ∈ given ∨ ∃ object, t.Reaches w start object ∧ visit = .property object name

/-- What is spread into the objects that are reached from `start` are object literals and
values from outside, and no alias of these objects adds to the property `name`. -/
structure OnlySpreads (t : Table) (w : World) (name : String) (given : List Visit) (least : Nat)
    (start : Config) : Prop where
  spreads : ∀ object c, t.Reaches w start object → t.Spreads w object c →
    c.isExternal = true ∨ (c.properties? w).isSome = true
  untouched : ∀ object ref visits, t.Reaches w start object → ref ∈ t.answer ⟨.traced, object⟩ →
    VisitsReached t w name given start visits → Untouched t ⟨w, visits⟩ least name ref

variable {given : List Visit} {least : Nat} {start : Config}

/-- The property `name` of a set of values, while some objects are being worked on. The
objects that can still be reached are in `left`; every level of the recursion takes one of
them, so the recursion is no deeper than `left` is long. -/
theorem finds_property (hbuilt : w.program.Built) (h : OnlySpreads t w name given least start)
    (left : List Config)
    (set : ConfigSet) (site : Option Site) (hvisits : VisitsReached t w name given start visits)
    (hset : ∀ x ∈ set, x.isExternal = true ∨ (x.properties? w).isSome = true)
    (hreach : ∀ x ∈ set, (x.properties? w).isSome = true → t.Reaches w start x)
    (hleft : ∀ x ∈ set, (x.properties? w).isSome = true → Fresh visits name x →
      ∀ z, ReflTransGen (Step t w name visits) x z → z ∈ left)
    (hdepth : least + left.length < depth) :
    Finds t.Agrees ⟨w, visits⟩ (meaning depth (.property set name site))
      fun c => ∃ x ∈ set, Adds t w name visits x c := by
  induction depth generalizing left visits set site with
  | zero => omega
  | succ depth ih =>
    refine finds_unionOver fun x hx => finds_propertyOf site (hset x hx) fun hobject hfresh => ?_
    obtain ⟨properties, hproperties⟩ := Option.isSome_iff_exists.mp hobject
    have hreached : t.Reaches w start x := hreach x hx hobject
    -- the object is worked on from here on, and is no longer left
    have hvisits' : VisitsReached t w name given start (.property x name :: visits) :=
      List.forall_mem_cons.mpr ⟨.inr ⟨x, hreached, rfl⟩, hvisits⟩
    have hmem : x ∈ left := hleft x hx hobject hfresh x .refl
    have hlength : (left.erase x).length + 1 = left.length := by
      have hpos := List.length_pos_of_mem hmem
      rw [List.length_erase_of_mem hmem]
      omega
    refine finds_objectProperty hproperties ?_ ?_
    · intro property hproperty argument hform
      have hspreads : ∀ y ∈ t.answer ⟨.evaluate, .ofNode argument x.env⟩, t.Spreads w x y :=
        fun y hy => ⟨properties, hproperties, property, hproperty, argument, hform, hy⟩
      refine ih (left.erase x) _ none hvisits' ?_ ?_ ?_ (by omega)
      · intro y hy
        exact h.spreads x y hreached (hspreads y hy)
      · intro y hy hliteral
        exact hreached.tail ⟨hspreads y hy, hliteral⟩
      · intro y hy hliteral hfresh' z hpath
        have hstep : Step t w name (.property x name :: visits) x y :=
          ⟨⟨hspreads y hy, hliteral⟩, hfresh'⟩
        have hz : z ∈ left := hleft x hx hobject hfresh z
          (reflTransGen_fresh_iff.mpr (.inr ⟨y, hstep, hpath⟩))
        exact (List.mem_erase_of_ne (fresh_cons.mp (hfresh'.of_path hpath)).1).mpr hz
    · intro ref href
      exact finds_aliasProperty hbuilt (h.untouched x ref _ hreached href hvisits') (by omega)

/-- What an object reaches is the object or an answer of the table. -/
theorem mem_values_of_reaches (h : t.Reaches w x z) : z ∈ x :: t.values := by
  cases h with
  | refl => exact List.mem_cons_self
  | tail _ hstep =>
    obtain ⟨⟨_, _, _, _, _, _, hz⟩, -⟩ := hstep
    exact List.mem_cons_of_mem _ (mem_values hz)

/-- **The guard loses nothing.** On any table, take an object literal from which spreads lead
to object literals and to values from outside only, while nothing is stored in the property
`name` through an alias of one of these objects and nothing is copied into one of them. If
none of them is being worked on, the property `name` of the object has exactly the values
that the literals reached by any number of spreads give to it, and the value from outside if
one of them has something from outside spread into itself. The operations need to nest no
deeper than there are answers in the table. -/
theorem mem_property_iff_reaches {sources : Sources}
    (hbuild : Program.build sources = .ok w.program) {start : Config}
    (hstart : (start.properties? w).isSome = true) (h : OnlySpreads t w name given least start)
    (hfresh : ∀ object, t.Reaches w start object → Fresh given name object)
    {depth : Nat} (hdepth : least + t.values.length + 1 < depth) (site : Option Site) :
    ∃ found, t.result ⟨w, given⟩ (meaning depth (.property (.singleton start) name site)) =
        some found ∧
      ∀ c, c ∈ found ↔ (∃ object, t.Reaches w start object ∧ t.Owns w name object c) ∨
        (c = .external ∧ ∃ object e, t.Reaches w start object ∧ t.Spreads w object e ∧
          e.isExternal = true) := by
  -- as none of the objects is being worked on, all paths are there
  have hpaths : ∀ z, ReflTransGen (Step t w name given) start z ↔ t.Reaches w start z := by
    intro z
    constructor
    · exact fun hpath => hpath.lift id fun _ _ hstep => hstep.1
    · intro hreach
      induction hreach with
      | refl => exact .refl
      | tail hreach hstep ih => exact ih.tail ⟨hstep, hfresh _ (hreach.tail hstep)⟩
  have honly : ∀ x ∈ (.singleton start : ConfigSet), x = start :=
    fun x hx => PowerSet.mem_singleton.mp hx
  obtain ⟨found, hfound, hmem⟩ :=
    finds_property (Program.built_of_build hbuild) h (start :: t.values) (.singleton start) site
    (fun _ => .inl) (fun x hx => .inr (honly x hx ▸ hstart)) (fun x hx _ => honly x hx ▸ .refl)
    (fun x hx _ _ z hpath => by
      cases honly x hx
      exact mem_values_of_reaches ((hpaths z).mp hpath)) hdepth
  refine ⟨found, Table.result_eq_some_iff.mpr hfound, fun c => ?_⟩
  simp only [hmem, PowerSet.mem_singleton, exists_eq_left, Adds, hstart, hfresh start .refl, hpaths,
    Config.isExternal_of_properties hstart, Bool.false_eq_true, true_and, and_false, false_or]
  constructor
  · rintro ⟨object, hreach, howns | ⟨hc, e, he, hexternal⟩⟩
    · exact .inl ⟨object, hreach, howns⟩
    · exact .inr ⟨hc, object, e, hreach, he, hexternal⟩
  · rintro (⟨object, hreach, howns⟩ | ⟨hc, object, e, hreach, he, hexternal⟩)
    · exact ⟨object, hreach, .inl howns⟩
    · exact ⟨object, hreach, .inr ⟨hc, e, he, hexternal⟩⟩

/-- An object that spreads itself, and something from outside. -/
def circle : Sources := [("m.ts", "const a = { x: 1, ...a, ...c };\n")]

/-- The answers for the number, what is spread into the literal, and its aliases. -/
def circleTable : Table :=
  .ofList [(⟨.evaluate, .ofNode 1 .root⟩, [.ofNode 1 .root]),
    (⟨.evaluate, .ofNode 3 .root⟩, [.ofNode 7 .root]),
    (⟨.evaluate, .ofNode 5 .root⟩, [.external]),
    (⟨.traced, .ofNode 7 .root⟩, [.ofNode 7 .root, .ofNode 3 .root])]

theorem mem_property_iff_reaches_circle :
    ∃ p found, Program.build circle = .ok p ∧
      circleTable.SpreadsObject ⟨p, .standard, 0, []⟩ (.ofNode 7 .root) (.ofNode 7 .root) ∧
      circleTable.result ⟨⟨p, .standard, 0, []⟩, []⟩
        (meaning (World.depthLimit ⟨p, .standard, 0, []⟩)
          (.property (.singleton (.ofNode 7 .root)) "x" none)) = some found ∧
      .ofNode 1 .root ∈ found ∧ .external ∈ found := by
  obtain ⟨p, hbuild, hobject, hown, hplain, hself, houter, huses⟩ :=
    Program.exists_of_test circle (fun p =>
      Config.properties? ⟨p, .standard, 0, []⟩ (.ofNode 7 .root) = some [2, 4, 6] ∧
      p.ownValue? "x" 2 = some 1 ∧ p.arena.form 2 = .property (.named 1) 1 false ∧
      p.arena.form 4 = .spread 3 ∧ p.arena.form 6 = .spread 5 ∧
      [7, 3].all fun n => decide (p.arena.argumentOf? n = none ∧
        (p.arena.parent? n).bind (p.storedIn? "x" n) = none)) (by decide +kernel)
  let w : World := ⟨p, .standard, 0, []⟩
  have hliteral : (Config.properties? w (.ofNode 7 .root)).isSome = true := by
    rw [hobject]
    rfl
  have hspreads : ∀ c, circleTable.Spreads w (.ofNode 7 .root) c ↔
      c = .ofNode 7 .root ∨ c = .external := by
    intro c
    constructor
    · rintro ⟨properties, hproperties, property, hproperty, argument, hform, hc⟩
      cases hobject.symm.trans hproperties
      simp only [List.mem_cons, List.not_mem_nil, or_false] at hproperty
      obtain rfl | rfl | rfl := hproperty
      · cases hplain.symm.trans hform
      · cases hself.symm.trans hform
        exact .inl (List.mem_singleton.mp hc)
      · cases houter.symm.trans hform
        exact .inr (List.mem_singleton.mp hc)
    · rintro (rfl | rfl)
      · exact ⟨_, hobject, 4, by simp, 3, hself, by decide⟩
      · exact ⟨_, hobject, 6, by simp, 5, houter, by decide⟩
  have hcircle : circleTable.SpreadsObject w (.ofNode 7 .root) (.ofNode 7 .root) :=
    ⟨(hspreads _).mpr (.inl rfl), hliteral⟩
  have hreached : ∀ object, circleTable.Reaches w (.ofNode 7 .root) object →
      object = .ofNode 7 .root := by
    intro object hreach
    induction hreach with
    | refl => rfl
    | tail _ hstep ih =>
      subst ih
      refine ((hspreads _).mp hstep.1).resolve_right ?_
      rintro rfl
      cases hstep.2
  have honly : OnlySpreads circleTable w "x" [] 0 (.ofNode 7 .root) := by
    constructor
    · intro object c hreach hc
      cases hreached object hreach
      obtain rfl | rfl := (hspreads c).mp hc
      · exact .inr hliteral
      · exact .inl rfl
    · intro object ref visits hreach href _
      cases hreached object hreach
      have href : ref ∈ [7, 3].map (Config.ofNode · .root) :=
        (by decide : ∀ c ∈ (circleTable.answer ⟨.traced, .ofNode 7 .root⟩).elems,
          c ∈ [7, 3].map (Config.ofNode · .root)) ref href
      obtain ⟨n, hn, rfl⟩ := List.mem_map.mp href
      obtain ⟨hargument, hstored⟩ := of_decide_eq_true (List.all_eq_true.mp huses n hn)
      constructor
      · rintro _ parent ⟨⟩ hparent
        exact Option.bind_eq_none_iff.mp hstored parent hparent
      · rintro _ call ⟨⟩ hcall
        cases hargument.symm.trans hcall
  obtain ⟨found, hfound, hmem⟩ := mem_property_iff_reaches hbuild hliteral honly
    (fun object _ => List.not_mem_nil) (Nat.lt_of_lt_of_le (by decide) w.ample_le_depthLimit) none
  refine ⟨p, found, hbuild, hcircle, hfound, ?_, ?_⟩
  · exact (hmem _).mpr (.inl ⟨_, .refl, [2, 4, 6], hobject, 2, by simp, 1, hown, by decide⟩)
  · exact (hmem _).mpr (.inr ⟨rfl, _, _, .refl, (hspreads _).mpr (.inr rfl), rfl⟩)

end Rule

end ValueFlow
