import Std.Data.TreeMap

/-!
# Numberings

A numbering gives distinct values the numbers `0, 1, 2, …` in the order of
their first appearance. Names, contexts, environments and queries are all
numbered this way: a number is cheap to compare and to store, and the order
of numbers is an order of appearance that answers can show.

A look-up goes through a *fingerprint*, a number that equal values share.
Values with one fingerprint are told apart by equality, so a poor fingerprint
costs time and never correctness.

* `Numbering.find?` is the number of a value, if it has one.
* `Numbering.number` gives a value its number, a fresh one if needed.
* `Numbering.get?` is the value with a given number.
-/

namespace ValueFlow

/-- A number shared by equal values, the key of the buckets of a numbering. -/
class Fingerprint (α : Type) where
  fingerprint : α → Nat

export Fingerprint (fingerprint)

namespace Fingerprint

/-- Adds one component to a fingerprint. The modulus keeps every intermediate
number within a machine word. -/
def mix (seed component : Nat) : Nat :=
  (seed * 31 + component + 7) % 1073741789

end Fingerprint

instance : Fingerprint Nat := ⟨fun n => n⟩

instance : Fingerprint Int where
  fingerprint
    | .ofNat n => 2 * n
    | .negSucc n => 2 * n + 1

instance : Fingerprint Empty := ⟨fun e => nomatch e⟩

instance : Fingerprint String := ⟨fun s => s.toList.foldl (fun h c => Fingerprint.mix h c.toNat) 0⟩

instance {α : Type} [Fingerprint α] : Fingerprint (List α) :=
  ⟨fun xs => xs.foldl (fun h x => Fingerprint.mix h (fingerprint x)) 1⟩

/-- Distinct values in order of first appearance, with an index from
fingerprints to the numbers of the values that have them. -/
structure Numbering (α : Type) where
  items : Array α
  buckets : Std.TreeMap Nat (List Nat)

namespace Numbering

variable {α : Type}

def empty : Numbering α := ⟨#[], ∅⟩

instance : Inhabited (Numbering α) := ⟨empty⟩

/-- How many values have a number. -/
def size (t : Numbering α) : Nat := t.items.size

def isEmpty (t : Numbering α) : Bool := t.items.isEmpty

def get? (t : Numbering α) (i : Nat) : Option α := t.items[i]?

/-- All the values, in the order of their numbers. -/
def toList (t : Numbering α) : List α := t.items.toList

variable [DecidableEq α] [Fingerprint α]

def find? (t : Numbering α) (a : α) : Option Nat :=
  (t.buckets.getD (fingerprint a) []).find? fun i => t.items[i]? = some a

def append (t : Numbering α) (a : α) : Numbering α :=
  let i := t.items.size
  ⟨t.items.push a, t.buckets.insert (fingerprint a) (i :: t.buckets.getD (fingerprint a) [])⟩

def number (t : Numbering α) (a : α) : Nat × Numbering α :=
  match t.find? a with
  | some i => (i, t)
  | none => (t.size, t.append a)

def ofList (as : List α) : Numbering α :=
  as.foldl (fun t a => (t.number a).2) empty

end Numbering

end ValueFlow
