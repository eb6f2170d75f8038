import ValueFlow.Lattice
import ValueFlow.Numbering
import ValueFlow.Sort

/-!
# Power sets

Finite sets as duplicate-free lists with an index. The order of the list is
the order of insertion and carries no meaning: membership is the view, and
every operation has one lemma about it. Whoever shows or visits the elements
sorts them first.

The index finds an element by its fingerprint, so that membership does not
search the whole list. It says nothing of its own: an element is indexed
exactly if it is in the list.

The empty set is the bottom of the lattice of sets and union is its join.
There is no top: the universe of values is only discovered while solving.
-/

namespace ValueFlow

/-- A finite set: a list without duplicates, and its elements by fingerprint. -/
structure PowerSet (α : Type) [Fingerprint α] where
  elems : List α
  nodup : elems.Nodup
  index : Std.TreeMap Nat (List α)
  indexed : ∀ a, a ∈ index.getD (fingerprint a) [] ↔ a ∈ elems

namespace PowerSet

variable {α : Type} [Fingerprint α]

instance : Membership α (PowerSet α) := ⟨fun s a => a ∈ s.elems⟩

theorem mem_def {s : PowerSet α} {a : α} : a ∈ s ↔ a ∈ s.elems := Iff.rfl

def empty : PowerSet α := ⟨[], List.nodup_nil, ∅, by simp⟩

instance : Inhabited (PowerSet α) := ⟨empty⟩

/-- How many elements the set has. -/
def size (s : PowerSet α) : Nat := s.elems.length

@[simp] theorem not_mem_empty (a : α) : ¬ a ∈ (empty : PowerSet α) := by
  simp [mem_def, empty]

/-- The index with one more element. -/
def addToIndex (index : Std.TreeMap Nat (List α)) (a : α) : Std.TreeMap Nat (List α) :=
  index.insert (fingerprint a) (a :: index.getD (fingerprint a) [])

theorem mem_addToIndex {index : Std.TreeMap Nat (List α)} {a b : α} :
    b ∈ (addToIndex index a).getD (fingerprint b) [] ↔
      b = a ∨ b ∈ index.getD (fingerprint b) [] := by
  unfold addToIndex
  rw [Std.TreeMap.getD_insert]
  by_cases h : fingerprint a = fingerprint b
  · simp [h]
  · have hne : b ≠ a := fun e => h (by rw [e])
    simp [h, hne]

variable [DecidableEq α]

instance (a : α) (s : PowerSet α) : Decidable (a ∈ s) :=
  decidable_of_iff _ (s.indexed a)

/-- Adds one element. -/
def insert (s : PowerSet α) (a : α) : PowerSet α :=
  if h : a ∈ s then s
  else
    { elems := a :: s.elems
      nodup := List.nodup_cons.mpr ⟨h, s.nodup⟩
      index := addToIndex s.index a
      indexed := fun b => by rw [mem_addToIndex, List.mem_cons, s.indexed] }

def singleton (a : α) : PowerSet α := empty.insert a

def ofList (as : List α) : PowerSet α := as.foldl insert empty

/-- Removes one element. -/
def erase (s : PowerSet α) (a : α) : PowerSet α := ofList (s.elems.filter (· ≠ a))

def union (s t : PowerSet α) : PowerSet α :=
  if s.elems.isEmpty then t else t.elems.foldl insert s

instance : Union (PowerSet α) := ⟨union⟩

def subset (s t : PowerSet α) : Bool := s.elems.all (· ∈ t)

/-- Whether two sets have the same elements. -/
def same (s t : PowerSet α) : Bool := s.subset t && t.subset s

/-- The order by inclusion, a partial one. -/
def compare? (s t : PowerSet α) : Option Ordering :=
  match t.subset s, s.subset t with
  | true, true => some .eq
  | true, false => some .gt
  | false, true => some .lt
  | false, false => none

/-- The written form of a set: the written forms of its elements in the order
of texts. -/
def render (text : α → String) (s : PowerSet α) : String :=
  "\x7b" ++ ", ".intercalate (sortTexts (s.elems.map text)) ++ "\x7d"

instance : Lattice (PowerSet α) where
  bottom := empty
  join := union
  grows s t := !t.subset s

@[simp] theorem mem_insert {s : PowerSet α} {a b : α} : a ∈ s.insert b ↔ a ∈ s ∨ a = b := by
  unfold insert
  split
  · next h =>
    constructor
    · exact Or.inl
    · rintro (ha | rfl)
      · exact ha
      · exact h
  · simp [mem_def, or_comm]

@[simp] theorem mem_singleton {a b : α} : a ∈ singleton b ↔ a = b := by
  simp [singleton]

theorem mem_foldl_insert {a : α} (as : List α) (s : PowerSet α) :
    a ∈ as.foldl insert s ↔ a ∈ s ∨ a ∈ as := by
  induction as generalizing s with
  | nil => simp
  | cons b as ih => simp [ih, or_assoc]

@[simp] theorem mem_union {s t : PowerSet α} {a : α} : a ∈ s ∪ t ↔ a ∈ s ∨ a ∈ t := by
  show a ∈ union s t ↔ _
  unfold union
  split
  · next h => simp [mem_def, List.isEmpty_iff.mp h]
  · exact mem_foldl_insert t.elems s

@[simp] theorem mem_ofList {as : List α} {a : α} : a ∈ ofList as ↔ a ∈ as := by
  simp [ofList, mem_foldl_insert]

@[simp] theorem mem_erase {s : PowerSet α} {a b : α} : a ∈ s.erase b ↔ a ∈ s ∧ a ≠ b := by
  unfold erase
  rw [mem_ofList, List.mem_filter, decide_eq_true_iff, mem_def]

theorem subset_iff {s t : PowerSet α} : s.subset t = true ↔ ∀ a, a ∈ s → a ∈ t := by
  simp [subset, mem_def]

end PowerSet

end ValueFlow
