import Mathlib.Data.List.DropRight
import Mathlib.Data.Prod.Lex
import Mathlib.Order.Monotone.Defs
import ValueFlow.Text.Lines

/-!
# The index of lines is exact

An offset between two characters cuts the text in two, and what stands before the cut decides
the line and the column. An offset inside a character has the line of that character, since a
line feed is a single byte. The lines themselves are the text split at its line feeds.
-/

namespace ValueFlow

variable {cs xs ys : List Char} {c : Char}

/-! ## Bytes -/

lemma byteLength_eq (cs : List Char) : byteLength cs = (cs.flatMap String.utf8EncodeChar).length := by
  suffices hfold : ∀ n, cs.foldl (fun n c => n + c.utf8Size) n =
      n + (cs.flatMap String.utf8EncodeChar).length by
    simpa [byteLength] using hfold 0
  induction cs with
  | nil => exact fun _ => rfl
  | cons c cs ih => exact fun n => by simp [ih, Nat.add_assoc]

@[simp] lemma byteLength_nil : byteLength [] = 0 := rfl

@[simp] lemma byteLength_cons (c : Char) (cs : List Char) :
    byteLength (c :: cs) = c.utf8Size + byteLength cs := by
  simp [byteLength_eq]

@[simp] lemma byteLength_append (xs ys : List Char) :
    byteLength (xs ++ ys) = byteLength xs + byteLength ys := by
  simp [byteLength_eq]

lemma toList_data_toUTF8 (text : String) :
    text.toUTF8.data.toList = text.toList.flatMap String.utf8EncodeChar := by
  rw [String.toUTF8_eq_toByteArray, ← String.utf8Encode_toList, List.utf8Encode,
    List.toList_data_toByteArray]

lemma byteLength_toList (text : String) : byteLength text.toList = text.utf8ByteSize := by
  rw [byteLength_eq, ← toList_data_toUTF8]
  rfl

lemma splitBytes_append (xs ys : List Char) : dropBytes? (xs ++ ys) (byteLength xs) = some ys ∧
    takeBytes? (xs ++ ys) (byteLength xs) = some xs := by
  induction xs with
  | nil => cases ys <;> exact ⟨rfl, rfl⟩
  | cons c xs ih =>
    obtain ⟨k, hk⟩ := Nat.exists_eq_succ_of_ne_zero (Nat.ne_of_gt c.utf8Size_pos)
    simp [hk, Nat.succ_add, dropBytes?, takeBytes?, ih]

lemma slice?_append (xs ys zs : List Char) :
    slice? (xs ++ (ys ++ zs)) (byteLength xs) (byteLength xs + byteLength ys) = some ys := by
  simp [slice?, splitBytes_append]

/-- No byte of a character but the line feed is a line feed. -/
lemma count_utf8EncodeChar (c : Char) :
    (String.utf8EncodeChar c).count 10 = if c = '\n' then 1 else 0 := by
  have hbyte : ∀ n, (UInt8.ofNat n == 10) = decide (n % 256 = 10) := fun n => by
    rw [Bool.eq_iff_iff, beq_iff_eq, decide_eq_true_iff, ← UInt8.toNat_inj, UInt8.toNat_ofNat']
    rfl
  have hfeed : c = '\n' ↔ c.val.toNat = 10 := by
    rw [Char.ext_iff, ← UInt32.toNat_inj]
    rfl
  rw [String.utf8EncodeChar]
  generalize c.val.toNat = v at hfeed ⊢
  split_ifs
  all_goals
    simp only [List.count_cons, List.count_nil, hbyte, decide_eq_true_iff]
    grind

namespace Lines

/-! ## Starts of lines -/

lemma startsFrom_append (o : Nat) (xs ys : List Char) :
    startsFrom o (xs ++ ys) = startsFrom o xs ++ startsFrom (o + byteLength xs) ys := by
  induction xs generalizing o with
  | nil => rfl
  | cons c xs ih =>
    by_cases hc : c = '\n' <;> simp [startsFrom, hc, ih, Nat.add_assoc]

lemma length_startsFrom (o : Nat) (cs : List Char) :
    (startsFrom o cs).length = cs.count '\n' := by
  induction cs generalizing o with
  | nil => rfl
  | cons c cs ih => by_cases hc : c = '\n' <;> simp [startsFrom, hc, ih]

lemma mem_startsFrom_cons {o x : Nat} (h : x ∈ startsFrom o (c :: cs)) :
    x = o + c.utf8Size ∨ x ∈ startsFrom (o + c.utf8Size) cs := by
  by_cases hc : c = '\n'
  · simpa [startsFrom, hc] using h
  · exact .inr (by simpa [startsFrom, hc] using h)

lemma bounds_of_mem_startsFrom {o x : Nat} (h : x ∈ startsFrom o cs) :
    o < x ∧ x ≤ o + byteLength cs := by
  induction cs generalizing o with
  | nil => cases h
  | cons c cs ih =>
    have hpos := c.utf8Size_pos
    rw [byteLength_cons]
    rcases mem_startsFrom_cons h with rfl | hrest
    · omega
    · have := ih hrest
      omega

lemma takeWhile_le_eq_nil {l : List Nat} {n : Nat} (h : ∀ x ∈ l, n < x) :
    l.takeWhile (· ≤ n) = [] := by
  cases l with
  | nil => rfl
  | cons x l => simp [h x]

/-- As many lines start at most `n` bytes behind `o` as there are line feeds in these bytes. -/
lemma length_takeWhile_startsFrom (cs : List Char) (o n : Nat) :
    ((startsFrom o cs).takeWhile (· ≤ o + n)).length =
      ((cs.flatMap String.utf8EncodeChar).take n).count 10 := by
  induction cs generalizing o n with
  | nil => simp [startsFrom]
  | cons c cs ih =>
    have hcount := count_utf8EncodeChar c
    have hlength := String.length_utf8EncodeChar c
    rw [List.flatMap_cons, List.take_append, List.count_append, hlength]
    by_cases hn : n < c.utf8Size
    · -- no line starts before the end of the character, and only a single byte is a line feed
      rw [takeWhile_le_eq_nil fun x hx => by
        rcases mem_startsFrom_cons hx with rfl | hx
        · omega
        · have := bounds_of_mem_startsFrom hx
          omega, Nat.sub_eq_zero_of_le hn.le]
      by_cases hc : c = '\n'
      · obtain rfl : n = 0 := by
          rw [hc] at hn
          exact Nat.lt_one_iff.mp hn
        simp
      · rw [if_neg hc] at hcount
        have := (List.take_sublist n (String.utf8EncodeChar c)).count_le 10
        simp
        omega
    · have hrest := ih (o + c.utf8Size) (n - c.utf8Size)
      rw [show o + c.utf8Size + (n - c.utf8Size) = o + n by omega] at hrest
      rw [List.take_of_length_le (by omega), hcount, ← hrest]
      by_cases hc : c = '\n'
      · have hle : o + Char.utf8Size '\n' ≤ o + n := by rw [← hc]; omega
        simp [startsFrom, hc, hle, Nat.add_comm]
      · simp [startsFrom, hc]

/-- The lines that start before a cut are those of the text before it. -/
lemma takeWhile_starts (xs ys : List Char) :
    (0 :: startsFrom 0 (xs ++ ys)).takeWhile (· ≤ byteLength xs) = 0 :: startsFrom 0 xs := by
  rw [startsFrom_append, ← List.cons_append, List.takeWhile_append_of_pos, takeWhile_le_eq_nil,
    List.append_nil]
  · intro x hx
    simpa using (bounds_of_mem_startsFrom hx).1
  · intro x hx
    rcases List.mem_cons.mp hx with rfl | hx
    · simp
    · simpa using (bounds_of_mem_startsFrom hx).2

lemma getLastD_starts (xs : List Char) :
    (0 :: startsFrom 0 xs).getLastD 0 = byteLength (xs.rdropWhile (· ≠ '\n')) := by
  induction xs using List.reverseRecOn with
  | nil => rfl
  | append_singleton xs c ih =>
    rw [startsFrom_append, List.rdropWhile_concat]
    by_cases hc : c = '\n'
    · have hlast : startsFrom (0 + byteLength xs) [c] = [byteLength xs + c.utf8Size] := by
        simp [startsFrom, hc]
      rw [hlast, ← List.cons_append, List.getLastD_concat]
      simp [hc]
    · simpa [startsFrom, hc] using ih

lemma location_byteLength {text : String} (h : text.toList = xs ++ ys) :
    (ofText text).location (byteLength xs) =
      ⟨1 + xs.count '\n', 1 + (xs.rtakeWhile (· ≠ '\n')).length⟩ := by
  have hslice := slice?_append (xs.rdropWhile (· ≠ '\n')) (xs.rtakeWhile (· ≠ '\n')) ys
  rw [← byteLength_append, ← List.append_assoc, List.rdropWhile_append_rtakeWhile] at hslice
  have hmin : min (byteLength xs) (byteLength (xs ++ ys)) = byteLength xs := by simp
  simp only [location, ofText, h, hmin, takeWhile_starts, getLastD_starts, hslice,
    List.length_cons, length_startsFrom, Nat.add_comm]

/-- A longer text ends on a later line, or further to the right. -/
lemma place_lt (hne : ys ≠ []) :
    toLex (1 + xs.count '\n', 1 + (xs.rtakeWhile (· ≠ '\n')).length) <
      toLex (1 + (xs ++ ys).count '\n', 1 + ((xs ++ ys).rtakeWhile (· ≠ '\n')).length) := by
  rw [Prod.Lex.toLex_lt_toLex, List.count_append]
  by_cases hfeed : '\n' ∈ ys
  · have := List.count_pos_iff.mpr hfeed
    exact .inl (by omega)
  · have hpos := List.length_pos_of_ne_nil hne
    have hall : ∀ c ∈ ys.reverse, (decide (c ≠ '\n')) = true := by
      intro c hc
      simpa using fun heq : c = '\n' => hfeed (heq ▸ List.mem_reverse.mp hc)
    refine .inr ⟨by simp [List.count_eq_zero.mpr hfeed], ?_⟩
    simp only [List.rtakeWhile, List.reverse_append, List.takeWhile_append_of_pos hall,
      List.length_reverse, List.length_append]
    omega

/-! ## Texts of lines -/

lemma length_splitOn (cs : List Char) : (cs.splitOn '\n').length = cs.count '\n' + 1 := by
  induction cs with
  | nil => rfl
  | cons c cs ih =>
    rw [List.splitOn_cons_eq_if_modifyHead]
    by_cases hc : c = '\n' <;> simp [hc, ih]

/-- From the start of one line to just before the start of the next the text has one of the
parts that its line feeds split it into. -/
lemma slice?_starts (pre cs : List Char) (i : Nat) :
    ((byteLength pre :: startsFrom (byteLength pre) cs)[i]?).bind (fun start =>
      slice? (pre ++ cs) start (((startsFrom (byteLength pre) cs)[i]?).elim
        (byteLength (pre ++ cs)) (· - 1))) = (cs.splitOn '\n')[i]? := by
  by_cases hfeed : '\n' ∈ cs
  · obtain ⟨line, rest, rfl, hline⟩ := List.eq_append_cons_of_mem hfeed
    have hnone : startsFrom (byteLength pre) line = [] :=
      List.length_eq_zero_iff.mp ((length_startsFrom _ _).trans (List.count_eq_zero.mpr hline))
    have hsize : Char.utf8Size '\n' = 1 := rfl
    have hstarts : startsFrom (byteLength pre) (line ++ '\n' :: rest) =
        byteLength (pre ++ (line ++ ['\n'])) ::
          startsFrom (byteLength (pre ++ (line ++ ['\n']))) rest := by
      rw [startsFrom_append, hnone]
      simp [startsFrom, Nat.add_assoc]
    rw [hstarts, List.splitOn_append_cons_self_of_not_mem hline]
    cases i with
    | zero => simpa [hsize, ← Nat.add_assoc] using slice?_append pre line ('\n' :: rest)
    | succ i => simpa using slice?_starts (pre ++ (line ++ ['\n'])) rest i
  · have hnone : startsFrom (byteLength pre) cs = [] :=
      List.length_eq_zero_iff.mp ((length_startsFrom _ _).trans (List.count_eq_zero.mpr hfeed))
    rw [hnone, List.splitOn_eq_singleton hfeed]
    cases i with
    | zero => simpa using slice?_append pre cs []
    | succ i => simp
termination_by cs.length
decreasing_by simp_all; omega

lemma lineText?_succ (text : String) (i : Nat) : (ofText text).lineText? (i + 1) =
    ((text.toList.splitOn '\n')[i]?).map fun line =>
      String.ofList (line.rdropWhile (· = '\r')) := by
  rw [← slice?_starts [] text.toList i, Option.map_bind, lineText?, if_neg (Nat.succ_ne_zero i)]
  cases hnext : (startsFrom 0 text.toList)[i]? with
  | none | some => simp [ofText, hnext, List.rdropWhile, Function.comp_def, Option.map_eq_bind]

/-- The index knows the place of every offset and the text of every line. -/
structure Exact (text : String) (l : Lines) : Prop where
  /-- The line counts the line feeds before the offset. -/
  line : ∀ offset, (l.location offset).line =
    1 + (text.toUTF8.data.toList.take (min offset text.utf8ByteSize)).count 10
  /-- Between two characters the column counts the characters since the last line feed. -/
  column : ∀ offset k, min offset text.utf8ByteSize = byteLength (text.toList.take k) →
    (l.location offset).column = 1 + ((text.toList.take k).rtakeWhile (· ≠ '\n')).length
  increasing : StrictMonoOn (fun o => toLex ((l.location o).line, (l.location o).column))
    {o | ∃ k, o = byteLength (text.toList.take k)}
  present : ∀ n, (l.lineText? n).isSome ↔ 1 ≤ n ∧ n ≤ l.count
  /-- Put together the lines are the text, but for the carriage returns at their ends. -/
  joined : ∃ lines : List (List Char), ['\n'].intercalate lines = text.toList ∧
    ∀ i, l.lineText? (i + 1) = (lines[i]?).map fun line =>
      String.ofList (line.rdropWhile (· = '\r'))

/-- **The index of lines is exact**, for every text. -/
theorem exact_ofText (text : String) : Exact text (ofText text) where
  line offset := by
    have hcount := length_takeWhile_startsFrom text.toList 0 (min offset text.utf8ByteSize)
    rw [Nat.zero_add, ← toList_data_toUTF8] at hcount
    rw [← hcount, location, ofText, byteLength_toList]
    simp [Nat.add_comm]
  column offset k h := by
    have hplace := location_byteLength (text.toList.take_append_drop k).symm
    have hclamped : (ofText text).location offset =
        (ofText text).location (byteLength (text.toList.take k)) := by
      simp [location, ofText, byteLength_toList, ← h]
    rw [hclamped, hplace]
  increasing := by
    rintro o ⟨j, rfl⟩ o' ⟨k, rfl⟩ hlt
    rcases Nat.le_total j k with hjk | hkj
    · obtain ⟨ys, hys⟩ := List.take_prefix_take_left (l := text.toList) hjk
      have hne : ys ≠ [] := by
        rintro rfl
        simp [← hys] at hlt
      have hsplit : text.toList = (text.toList.take j ++ ys) ++ text.toList.drop k := by
        rw [hys, List.take_append_drop]
      dsimp only
      rw [location_byteLength (text.toList.take_append_drop j).symm, ← hys,
        location_byteLength hsplit]
      exact place_lt hne
    · obtain ⟨ys, hys⟩ := List.take_prefix_take_left (l := text.toList) hkj
      rw [← hys, byteLength_append] at hlt
      omega
  present n := by
    cases n with
    | zero => simp [lineText?]
    | succ i =>
      rw [lineText?_succ, Option.isSome_map]
      simp only [isSome_getElem?, length_splitOn, count, ofText, List.length_cons,
        length_startsFrom]
      omega
  joined := ⟨_, List.intercalate_splitOn '\n', lineText?_succ text⟩

end Lines
end ValueFlow
