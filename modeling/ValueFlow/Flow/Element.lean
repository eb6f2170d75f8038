import ValueFlow.Flow.Property

/-!
# Elements

The elements of a value at a position, or at any position. An array literal
has the elements it is written with, what is pushed to any of its aliases, and
what is stored at an index of one. Behind a spread the positions are unknown.
-/

namespace ValueFlow

/-- The position that a number literal stands for: decimal digits for a number
below 2^32. -/
def position? (text : String) : Option Nat :=
  let cs := text.toList
  if cs ≠ [] && cs.all Char.isDigit then
    let n := cs.foldl (fun n c => 10 * n + (c.toNat - 48)) 0
    if n < 4294967296 then some n else none
  else none

namespace Rule

variable (perform : Meaning)

/-- The position that an index expression stands for. -/
def indexPosition (index : NodeId) : Rule (Option Nat) := do
  match ← formOf index with
  | .number text => return position? (← textOf text)
  | _ => return none

/-- Whether something at `offset` can be at `position`, where unknown numbers
can be any. -/
def canBeAt (position offset : Option Nat) : Bool :=
  position.isNone || offset.isNone || position = offset

def argumentElementsFrom (env : Env) (position : Option Nat) :
    Option Nat → List NodeId → Rule ConfigSet
  | _, [] => return .empty
  | offset, argument :: rest => do
    match ← formOf argument with
    | .spread inner =>
      let found ← perform (.elements (← values inner env) none)
      return found ∪ (← argumentElementsFrom env position none rest)
    | _ =>
      let found ← if canBeAt position offset then values argument env else pure .empty
      return found ∪ (← argumentElementsFrom env position (offset.map (· + 1)) rest)

def argumentElements (call : NodeId) (first : Nat) (env : Env) (position : Option Nat) :
    Rule ConfigSet := do
  argumentElementsFrom perform env position (some 0) ((← argumentsOf call).drop first)

/-- The elements among those of an array literal that start at `offset`. A
spread before the position reaches it. -/
def literalElementsFrom (env : Env) (position : Option Nat) :
    Option Nat → List (Option NodeId) → Rule ConfigSet
  | _, [] => return .empty
  | offset, none :: rest => literalElementsFrom env position (offset.map (· + 1)) rest
  | offset, some element :: rest => do
    match ← formOf element with
    | .spread inner =>
      let reaches : Bool := match position, offset with
        | some position, some offset => offset ≤ position
        | _, _ => true
      let found ←
        if reaches then do perform (.elements (← values inner env) none) else pure .empty
      return found ∪ (← literalElementsFrom env position none rest)
    | _ =>
      let found ← if canBeAt position offset then values element env else pure .empty
      return found ∪ (← literalElementsFrom env position (offset.map (· + 1)) rest)

/-- Whether a method of this name adds its arguments to an array. -/
def addsElements (name : String) : Bool := name = "push" || name = "unshift"

/-- What the uses of an alias of an array add to its elements. -/
def aliasElements (position : Option Nat) (ref : Config) : Rule ConfigSet := do
  let a ← arena
  match ref.node? with
  | none => return .empty
  | some n =>
    match (a.parent? n).map fun parent => (parent, a.form parent) with
    | some (parent, .member object property _) =>
      if object = n && addsElements (← textOf property) then
        match a.calleeOf? parent with
        | some call => argumentElements perform call 0 ref.env none
        | none => return .empty
      else return .empty
    | some (parent, .index object index _) =>
      if object = n then
        match a.assignedValue? parent with
        | some stored =>
          if canBeAt position (← indexPosition index) then values stored ref.env
          else return .empty
        | none => return .empty
      else return .empty
    | _ => return .empty

def arrayElements (array : Config) (position : Option Nat) : Rule ConfigSet := do
  match array.node? with
  | none => return .empty
  | some n =>
    match ← formOf n with
    | .array elements =>
      let own ← literalElementsFrom perform array.env position (some 0) elements
      let aliases ← ask .traced array
      return own ∪ (← unionOver aliases (aliasElements perform position))
    | _ => return .empty

def objectValues (properties : List NodeId) (env : Env) : Rule ConfigSet :=
  unionOf properties fun property => do
    match ← formOf property with
    | .property _ value _ => values value env
    | _ => return .empty

def builtinElements (value : Config) (n : NodeId) (position : Option Nat) : Rule ConfigSet := do
  let found ← (← builtinsAt perform n value.env).foldlM (fun found id => do
    match (← entry id).element with
    | some summary =>
      let elements ← elementSummary perform ⟨n, value.env⟩ position summary
      return some (found.getD .empty ∪ elements)
    | none => return found) none
  match found with
  | some elements => return elements
  | none =>
    if (← perform (.kinds value)).isEmpty then
      unsupported n "Value has no elements."
      return .empty
    return .external

def elementValues (values : ConfigSet) (position : Option Nat) : Rule ConfigSet :=
  unionOver values fun value => do
    match value.cursor with
    | .external => return .external
    | .arguments call first => argumentElements perform call first value.env position
    | .pick .. => return .empty
    | .node n =>
      match ← formOf n with
      | .array _ =>
        guarded (.elements value position) .empty (arrayElements perform value position)
      | .object properties =>
        match position with
        | some position => guardedProperty perform value (toString position)
        | none => objectValues properties value.env
      | .string _ | .template .. => return .external
      | .null | .undefined => return .empty
      | _ => builtinElements perform value n position

end Rule

end ValueFlow
