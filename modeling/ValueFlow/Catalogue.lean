import Std.Data.TreeMap
import ValueFlow.Catalogue.Standard

/-!
# The catalogue of builtins

The entries with an index by the last names of their shapes. A look-up gives
all the entries of a shape, so that ambiguity shows.

`Catalogue.lookup` lets a member of a global object that has no entry of its
own fall back to the entry `*` of that object.
-/

namespace ValueFlow

abbrev BuiltinId := Nat

structure Catalogue where
  entries : Array Entry
  /-- The numbers of the entries by the last name of their shape, ascending. -/
  index : Std.TreeMap String (List BuiltinId)
  /-- The names that an undeclared identifier can have to name a builtin. -/
  globals : Std.TreeMap String Unit
  /-- Those of them that have members. -/
  owners : Std.TreeMap String Unit

namespace Catalogue

def empty : Catalogue := ⟨#[], ∅, ∅, ∅⟩

/-- Adds an entry at the end. -/
def add (c : Catalogue) (e : Entry) : Catalogue :=
  let name := e.shape.name
  let c := { c with
    entries := c.entries.push e
    index := c.index.insert name (c.index.getD name [] ++ [c.entries.size]) }
  match e.shape with
  | .global name | .constructor name => { c with globals := c.globals.insert name () }
  | .static owner _ =>
    { c with globals := c.globals.insert owner (), owners := c.owners.insert owner () }
  | .method .. => c

def ofEntries (entries : List Entry) : Catalogue := entries.foldl add empty

def standard : Catalogue := ofEntries Standard.entries

variable (c : Catalogue)

def size : Nat := c.entries.size

def isEmpty : Bool := c.entries.isEmpty

def get? (id : BuiltinId) : Option Entry := c.entries[id]?

/-- The entries with exactly the given shape. -/
def matching (shape : Shape) : List BuiltinId :=
  (c.index.getD shape.name []).filter fun id => (c.get? id).any (·.shape = shape)

/-- The entries that apply to a shape. -/
def lookup (shape : Shape) : List BuiltinId :=
  match c.matching shape, shape with
  | [], .static owner name => if name = "*" then [] else c.matching (.static owner "*")
  | found, _ => found

/-- Whether an undeclared identifier of this name names a builtin. -/
def isGlobal (name : String) : Bool := c.globals.contains name

/-- Whether the name is that of a global object with members. -/
def isOwner (name : String) : Bool := c.owners.contains name

end Catalogue

end ValueFlow
