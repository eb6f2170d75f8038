import ValueFlow.Proofs.Flow.Depth

/-!
# The parts of object literals

Which value a part of an object literal gives to a property, and which value an
assignment stores in it, can be read off the program. These are the rules of
`Rule.literalProperty` and `Rule.storedInProperty?` without the requests that they make.
-/

namespace ValueFlow

namespace Program

variable (p : Program) (name : String)

def isKey : PropKey NodeId → Bool
  | .named key => p.text key = name
  | .computed key =>
    match p.arena.form key with
    | .string text => p.text text = name
    | _ => false

/-- The value that a part of an object literal gives to the property `name`. -/
def ownValue? (property : NodeId) : Option NodeId :=
  match p.arena.form property with
  | .property key value _ => if p.isKey name key then some value else none
  | _ => none

def storedIn? (n parent : NodeId) : Option NodeId :=
  let named := match p.arena.form parent with
    | .member object property _ => object = n && p.isKey name (.named property)
    | .index object index _ => object = n && p.isKey name (.computed index)
    | _ => false
  if named then p.arena.assignedValue? parent else none

variable {p name}

lemma exists_of_ownValue? {property value : NodeId} (h : p.ownValue? name property = some value) :
    ∃ key shorthand, p.arena.form property = .property key value shorthand := by
  unfold ownValue? at h
  split at h
  · next key _ shorthand hform =>
    obtain ⟨-, heq⟩ := Option.ite_none_right_eq_some.mp h
    cases heq
    exact ⟨key, shorthand, hform⟩
  · cases h

end Program

namespace Rule

variable {P : Request → Prop} {st : Setting} {name : String} {perform : Meaning}

lemma run_isText (key : NodeId) :
    isText key name st = .done (st.world.program.isKey name (.computed key)) := by
  show (match st.world.arena.form key with
    | .string value => do return (← textOf value) = name
    | _ => pure false : Rule Bool) st = _
  unfold Program.isKey
  dsimp only
  cases st.world.arena.form key with
  | _ => rfl

lemma comes_bind_isText {α : Type} {key : NodeId} {f : Bool → Rule α} {a : α} :
    Comes P st (isText key name >>= f) a ↔
      Comes P st (f (st.world.program.isKey name (.computed key))) a := by
  unfold Comes
  rw [run_then (run_isText key)]

/-- What a part of an object literal adds: its own value, or the property of what it is
spread from. -/
lemma comes_literalProperty {env : Env} {property : NodeId} {set : ConfigSet} :
    Comes P st (literalProperty perform env name property) set ↔
      Comes P st (match st.world.program.ownValue? name property with
        | some value => values value env
        | none => match st.world.arena.form property with
          | .spread argument => do perform (.property (← values argument env) name none)
          | _ => return .empty) set := by
  unfold literalProperty Program.ownValue?
  rw [comes_bind_formOf]
  cases st.world.arena.form property with
  | property key value shorthand =>
    cases key with
    | named key => by_cases hkey : st.world.program.text key = name <;> simp [Program.isKey, hkey]
    | computed key =>
      dsimp only
      rw [comes_bind_isText]
      by_cases hkey : st.world.program.isKey name (.computed key) = true <;> simp [hkey]
  | _ => exact .rfl

lemma comes_storedInProperty? (n parent : NodeId) :
    Comes P st (storedInProperty? name n parent) (st.world.program.storedIn? name n parent) := by
  unfold storedInProperty? Program.storedIn?
  simp only [comes_bind_arena]
  cases st.world.arena.form parent with
  | index =>
    dsimp only
    exact comes_bind_isText.mpr (comes_pure (s := st) _)
  | _ => exact comes_pure (s := st) _

end Rule

end ValueFlow
