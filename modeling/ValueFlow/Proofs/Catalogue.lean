import Mathlib.Tactic.Lemma
import ValueFlow.Catalogue

/-!
# Look-ups in a catalogue

The index of a catalogue lists the entries by the last names of their shapes,
and a look-up goes through one list of it. Nothing is missed that way:
`matching` finds the same entries as a look through all of them.
-/

namespace ValueFlow.Catalogue

variable {c : Catalogue} {shape : Shape} {id : BuiltinId} {entries : List Entry}

/-- The index lists every entry under its name, in order. -/
def Indexed (c : Catalogue) : Prop :=
  ∀ name, c.index.getD name [] =
    (List.range c.entries.size).filter fun id => (c.get? id).any (·.shape.name = name)

lemma indexed_empty : Indexed empty := by
  intro name
  simp [empty]

lemma entries_add (c : Catalogue) (e : Entry) : (c.add e).entries = c.entries.push e := by
  unfold add
  split <;> rfl

lemma index_add (c : Catalogue) (e : Entry) : (c.add e).index =
    c.index.insert e.shape.name (c.index.getD e.shape.name [] ++ [c.entries.size]) := by
  unfold add
  split <;> rfl

lemma Indexed.add (h : c.Indexed) (e : Entry) : (c.add e).Indexed := by
  intro name
  -- the entries so far keep their numbers, and the new one has the next
  have hold : ∀ id ∈ List.range c.entries.size, (c.add e).get? id = c.get? id := by
    intro id hid
    rw [get?, entries_add, Array.getElem?_push_lt (List.mem_range.mp hid), get?,
      Array.getElem?_eq_getElem]
  have hnew : (c.add e).get? c.entries.size = some e := by
    rw [get?, entries_add, Array.getElem?_push_size]
  rw [index_add, entries_add, Array.size_push, List.range_succ, List.filter_append,
    List.filter_congr fun id hid => by rw [hold id hid], Std.TreeMap.getD_insert]
  by_cases hname : e.shape.name = name
  · subst hname
    simpa [hnew] using h e.shape.name
  · simpa [hnew, hname] using h name

lemma indexed_ofEntries (entries : List Entry) : (ofEntries entries).Indexed :=
  List.foldlRecOn (motive := Indexed) entries add indexed_empty fun _ h e _ => h.add e

lemma matching_eq (h : c.Indexed) (shape : Shape) : c.matching shape =
    (List.range c.entries.size).filter fun id => (c.get? id).any (·.shape = shape) := by
  rw [matching, h shape.name, List.filter_filter]
  refine List.filter_congr fun id _ => ?_
  -- an entry of the shape has the name of the shape
  cases c.get? id with
  | none => rfl
  | some e =>
    by_cases he : e.shape = shape
    · subst he
      simp
    · simp [he]

/-! ## A look-up is a scan -/

lemma entries_ofEntries (entries : List Entry) : (ofEntries entries).entries = entries.toArray := by
  have hfold : ∀ (entries : List Entry) (c : Catalogue),
      (entries.foldl add c).entries = c.entries ++ entries.toArray := by
    intro entries
    induction entries with
    | nil => simp
    | cons e entries ih => simp [ih, entries_add]
  simp [ofEntries, hfold, empty]

lemma get?_ofEntries (entries : List Entry) (id : BuiltinId) :
    (ofEntries entries).get? id = entries[id]? := by
  simp [get?, entries_ofEntries]

/-- The numbers of the entries of a shape, in order. -/
def scan (entries : List Entry) (shape : Shape) : List BuiltinId :=
  (List.range entries.length).filter fun id => entries[id]?.any (·.shape = shape)

/-- For a member of an object, the shape that stands for every member of it. -/
def wildcard? : Shape → Option Shape
  | .static owner name => if name = "*" then none else some (.static owner "*")
  | _ => none

lemma matching_eq_scan (entries : List Entry) (shape : Shape) :
    (ofEntries entries).matching shape = scan entries shape := by
  simp [matching_eq (indexed_ofEntries entries), scan, entries_ofEntries, get?_ofEntries]

/-- What holds of a catalogue as soon as one of its entries brings it about. -/
lemma ofEntries_iff {P : Catalogue → Prop} {Q : Entry → Prop} (hempty : ¬ P empty)
    (hadd : ∀ c e, P (c.add e) ↔ P c ∨ Q e) : P (ofEntries entries) ↔ ∃ e ∈ entries, Q e := by
  have hfold : ∀ c, P (entries.foldl add c) ↔ P c ∨ ∃ e ∈ entries, Q e := by
    induction entries with
    | nil => simp
    | cons e entries ih => simp [ih, hadd, or_assoc]
  rw [ofEntries, hfold, or_iff_right hempty]

lemma isGlobal_ofEntries (name : String) : (ofEntries entries).isGlobal name = true ↔
    ∃ e ∈ entries, e.shape = .global name ∨ e.shape = .constructor name ∨
      ∃ member, e.shape = .static name member := by
  refine ofEntries_iff (P := (·.isGlobal name = true)) (by simp [isGlobal, empty]) fun c e => ?_
  cases hshape : e.shape <;> simp [add, isGlobal, hshape, or_comm]

lemma isOwner_ofEntries (name : String) : (ofEntries entries).isOwner name = true ↔
    ∃ e ∈ entries, ∃ member, e.shape = .static name member := by
  refine ofEntries_iff (P := (·.isOwner name = true)) (by simp [isOwner, empty]) fun c e => ?_
  cases hshape : e.shape <;> simp [add, isOwner, hshape, or_comm]

lemma lookup_ofEntries (shape : Shape) : (ofEntries entries).lookup shape =
    if scan entries shape = [] then (wildcard? shape).elim [] (scan entries)
    else scan entries shape := by
  unfold lookup
  rw [matching_eq_scan]
  by_cases hnone : scan entries shape = []
  · rw [if_pos hnone]
    cases shape with
    | static owner name =>
      simp only [hnone, wildcard?, matching_eq_scan]
      split <;> rfl
    | _ => simp [hnone, wildcard?]
  · rw [if_neg hnone]
    split
    · next hempty => exact absurd hempty hnone
    · rfl

/-- **A catalogue answers as a scan of its entries does**, for all entries, shapes and names. -/
theorem catalogue_agrees_with_scan (entries : List Entry) :
    (∀ shape, (ofEntries entries).lookup shape =
      if scan entries shape = [] then (wildcard? shape).elim [] (scan entries)
      else scan entries shape) ∧
    (∀ name, (ofEntries entries).isGlobal name = true ↔
      ∃ e ∈ entries, e.shape = .global name ∨ e.shape = .constructor name ∨
        ∃ member, e.shape = .static name member) ∧
    (∀ name, (ofEntries entries).isOwner name = true ↔
      ∃ e ∈ entries, ∃ member, e.shape = .static name member) :=
  ⟨lookup_ofEntries, isGlobal_ofEntries, isOwner_ofEntries⟩

/-! ## Ambiguity -/

lemma length_matching_le_one (hdistinct : (entries.map (·.shape)).Nodup) (shape : Shape) :
    ((ofEntries entries).matching shape).length ≤ 1 := by
  -- two entries that match have one shape, so they are one entry
  have hunique : ∀ i ∈ (ofEntries entries).matching shape,
      ∀ j ∈ (ofEntries entries).matching shape, i = j := by
    intro i hi j hj
    have hshape : ∀ k ∈ (ofEntries entries).matching shape,
        (entries.map (·.shape))[k]? = some shape := by
      intro k hk
      obtain ⟨e, he, heq⟩ := Option.any_eq_true _ _ |>.mp (List.mem_filter.mp hk).2
      rw [get?_ofEntries] at he
      simpa [he] using heq
    obtain ⟨hlt, -⟩ := List.getElem?_eq_some_iff.mp (hshape i hi)
    exact (List.getElem?_inj hlt hdistinct).mp ((hshape i hi).trans (hshape j hj).symm)
  have hnodup : ((ofEntries entries).matching shape).Nodup := by
    rw [matching_eq (indexed_ofEntries entries)]
    exact List.nodup_range.filter _
  match hfound : (ofEntries entries).matching shape with
  | [] | [_] => simp
  | i :: j :: _ =>
    rw [hfound] at hunique hnodup
    have hij : i = j := hunique i (by simp) j (by simp)
    simp [hij] at hnodup

lemma length_lookup_le_one (hdistinct : (entries.map (·.shape)).Nodup) (shape : Shape) :
    ((ofEntries entries).lookup shape).length ≤ 1 := by
  unfold lookup
  split
  · split
    · exact Nat.zero_le 1
    · exact length_matching_le_one hdistinct _
  · exact length_matching_le_one hdistinct _

lemma nodup_shape_standard : (Standard.entries.map (·.shape)).Nodup := by decide +kernel

lemma length_lookup_standard (shape : Shape) : (standard.lookup shape).length ≤ 1 :=
  length_lookup_le_one nodup_shape_standard shape

/-! ## Described properties -/

lemma exists_of_mem_matching (h : id ∈ c.matching shape) :
    ∃ e, c.get? id = some e ∧ e.shape = shape := by
  obtain ⟨e, he, heq⟩ := Option.any_eq_true _ _ |>.mp (List.mem_filter.mp h).2
  exact ⟨e, he, of_decide_eq_true heq⟩

/-- An entry is found under its own shape, or stands for all members of an object. -/
lemma exists_of_mem_lookup (h : id ∈ c.lookup shape) :
    ∃ e, c.get? id = some e ∧ (e.shape = shape ∨ ∃ owner, e.shape = .static owner "*") := by
  unfold lookup at h
  split at h
  · next owner _ _ =>
    split at h
    · exact absurd h List.not_mem_nil
    · obtain ⟨e, he, hshape⟩ := exists_of_mem_matching h
      exact ⟨e, he, .inr ⟨owner, hshape⟩⟩
  · obtain ⟨e, he, hshape⟩ := exists_of_mem_matching h
    exact ⟨e, he, .inl hshape⟩

lemma shape_of_property_standard :
    ∀ e ∈ Standard.entries, e.property ≠ none → e.shape = .constructor "Error" := by
  decide +kernel

/-- The builtin says nothing about the properties of what it makes. -/
def Bare (c : Catalogue) (id : BuiltinId) : Prop := ∀ e, c.get? id = some e → e.property = none

lemma bare_of_mem_lookup (h : id ∈ standard.lookup shape) (hshape : shape ≠ .constructor "Error") :
    standard.Bare id := by
  intro e he
  obtain ⟨e', he', hfound⟩ := exists_of_mem_lookup h
  obtain rfl : e' = e := Option.some.inj (he'.symm.trans he)
  have hmem : e' ∈ Standard.entries := List.mem_of_getElem? (get?_ofEntries _ id ▸ he)
  refine Decidable.byContradiction fun hproperty => ?_
  have herror := shape_of_property_standard e' hmem hproperty
  obtain hfound | ⟨owner, hfound⟩ := hfound
  · exact hshape (hfound.symm.trans herror)
  · cases hfound.symm.trans herror

end ValueFlow.Catalogue
