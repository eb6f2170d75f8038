import ValueFlow.Proofs.Built

/-!
# Normal forms of paths

The segments of a path are entered one after the other, and what is entered is always
*proper*: no segment is empty or `.`, and `..` comes before all others. A normal form is such
a path less the extension of a source file. The extension is cut off last, so that the last
segment of a normal form can be anything; where it is not proper, neither is the normal
form the normal form of itself, nor has it an index module.
-/

namespace ValueFlow

namespace Path

variable {cs front file s : List Char} {ss rest above : List (List Char)}

/-! ## Segments -/

lemma segments_eq_splitOn (cs : List Char) : segments cs = cs.splitOn '/' := by
  induction cs with
  | nil => rfl
  | cons c cs ih =>
    rw [List.splitOn_cons_eq_if_modifyHead, ← ih, segments]
    split
    · next hnil => exact absurd (ih.symm.trans hnil) (List.splitOn_ne_nil '/' cs)
    · next hsome => simp [hsome]

lemma segments_append (p q : List Char) :
    segments (p ++ '/' :: q) = segments p ++ segments q := by
  simp only [segments_eq_splitOn, List.splitOn_append_cons_self]

lemma segments_eq_singleton (hs : '/' ∉ s) : segments s = [s] := by
  rw [segments_eq_splitOn, List.splitOn_eq_singleton hs]

lemma segments_join (hss : ∀ s ∈ ss, '/' ∉ s) (hne : ss ≠ []) :
    segments (['/'].intercalate ss) = ss := by
  rw [segments_eq_splitOn, List.splitOn_intercalate '/' hss hne]

lemma join_segments (cs : List Char) : ['/'].intercalate (segments cs) = cs := by
  rw [segments_eq_splitOn, List.intercalate_splitOn]

lemma join_concat (hne : ss ≠ []) (s : List Char) :
    ['/'].intercalate (ss ++ [s]) = ['/'].intercalate ss ++ '/' :: s := by
  induction ss with
  | nil => exact absurd rfl hne
  | cons s' ss ih =>
    by_cases hss : ss = []
    · simp [hss]
    · rw [List.cons_append, List.intercalate_cons_of_ne_nil (by simp), ih hss,
        List.intercalate_cons_of_ne_nil hss, List.append_assoc _ _ ('/' :: s)]

lemma of_mem_segments {c : Char} (hs : s ∈ segments cs) (hc : c ∈ s) : c ≠ '/' ∧ c ∈ cs := by
  induction cs generalizing s with
  | nil =>
    cases List.mem_singleton.mp hs
    cases hc
  | cons d cs ih =>
    unfold segments at hs
    split at hs
    · cases List.mem_singleton.mp hs
      cases hc
    · next s' rest hsegments =>
      have hbehind : ∀ t ∈ s' :: rest, c ∈ t → c ≠ '/' ∧ c ∈ d :: cs := fun t ht hct =>
        (ih (hsegments ▸ ht) hct).imp_right (List.mem_cons_of_mem d)
      split at hs
      · obtain rfl | hs := List.mem_cons.mp hs
        · cases hc
        · exact hbehind s hs hc
      · next hd =>
        obtain rfl | hs := List.mem_cons.mp hs
        · obtain rfl | hc := List.mem_cons.mp hc
          · exact ⟨hd, .head _⟩
          · exact hbehind s' (.head _) hc
        · exact hbehind s (.tail _ hs) hc

/-- A text without slashes of either kind. -/
def Clean (s : List Char) : Prop := '/' ∉ s ∧ '\\' ∉ s

lemma slashes_of_not_mem (h : '\\' ∉ cs) : slashes cs = cs := by
  refine (List.map_congr_left fun c hc => if_neg ?_).trans (List.map_id cs)
  rintro rfl
  exact h hc

lemma clean_of_mem_segments (hs : s ∈ segments (slashes cs)) : Clean s := by
  refine ⟨fun hc => (of_mem_segments hs hc).1 rfl, fun hc => ?_⟩
  obtain ⟨d, -, hd⟩ := List.mem_map.mp (of_mem_segments hs hc).2
  split at hd
  · cases hd
  · next hne => exact hne hd

lemma backslash_not_mem_join (hss : ∀ s ∈ ss, Clean s) : '\\' ∉ ['/'].intercalate ss := by
  induction ss with
  | nil => exact List.not_mem_nil
  | cons s ss ih =>
    obtain ⟨hs, hss⟩ := List.forall_mem_cons.mp hss
    by_cases hempty : ss = []
    · simpa [hempty] using hs.2
    · rw [List.intercalate_cons_of_ne_nil hempty]
      simpa using ⟨hs.2, ih hss⟩

/-! ## Entering -/

/-- Segments, the last one first, that stand for themselves: names, and `..` before them. -/
inductive Proper : List (List Char) → Prop
  | up (n : Nat) : Proper (List.replicate n ['.', '.'])
  | name {s : List Char} {rest : List (List Char)} (hs : s ≠ [] ∧ s ≠ ['.'] ∧ s ≠ ['.', '.'])
      (h : Proper rest) : Proper (s :: rest)

lemma enter_up (n : Nat) : enter (List.replicate n ['.', '.']) ['.', '.'] =
    List.replicate (n + 1) ['.', '.'] := by
  cases n <;> rfl

lemma enter_name (hs : s ≠ [] ∧ s ≠ ['.'] ∧ s ≠ ['.', '.']) : enter above s = s :: above := by
  simp [enter, hs]

lemma enter_name_up (hs : s ≠ [] ∧ s ≠ ['.'] ∧ s ≠ ['.', '.']) :
    enter (s :: above) ['.', '.'] = above := by
  simp [enter, hs.2.2]

lemma Proper.enter (h : Proper above) (s : List Char) : Proper (enter above s) := by
  by_cases hskip : s = [] ∨ s = ['.']
  · rwa [show Path.enter above s = above from if_pos hskip]
  obtain ⟨hs, hdot⟩ := not_or.mp hskip
  by_cases hup : s = ['.', '.']
  · subst hup
    cases h with
    | up n => exact enter_up n ▸ .up (n + 1)
    | name hs h => rwa [enter_name_up hs]
  · exact enter_name ⟨hs, hdot, hup⟩ ▸ .name ⟨hs, hdot, hup⟩ h

lemma Proper.foldl_enter (h : Proper above) : above.reverse.foldl Path.enter [] = above := by
  induction h with
  | up n =>
    rw [List.reverse_replicate]
    induction n with
    | zero => rfl
    | succ n ih =>
      rw [List.replicate_succ', List.foldl_append, ih, ← List.replicate_succ']
      exact enter_up n
  | name hs _ ih =>
    rw [List.reverse_cons, List.foldl_append, ih]
    exact enter_name hs

/-- The segments of a path with `.` and `..` resolved, the last one first. -/
def resolved (cs : List Char) : List (List Char) := (segments (slashes cs)).foldl enter []

lemma proper_resolved (cs : List Char) : Proper (resolved cs) :=
  List.foldlRecOn (motive := Proper) _ _ (.up 0) fun _ h s _ => h.enter s

lemma mem_enter (h : s ∈ enter above file) : s ∈ above ∨ s = file := by
  unfold enter at h
  split at h
  · exact .inl h
  · split at h
    · split at h
      · split at h
        · exact (List.mem_cons.mp h).symm
        · exact .inl (.tail _ h)
      · exact .inr (List.mem_singleton.mp h)
    · exact (List.mem_cons.mp h).symm

lemma clean_of_mem_resolved (hs : s ∈ resolved cs) : Clean s := by
  refine List.foldlRecOn (motive := fun above => ∀ s ∈ above, Clean s) _ _
    (fun _ h => absurd h List.not_mem_nil) (fun above h file hfile s hs => ?_) s hs
  obtain hs | rfl := mem_enter hs
  · exact h s hs
  · exact clean_of_mem_segments hfile

lemma resolved_join (hss : ∀ s ∈ ss, Clean s) (hne : ss ≠ []) :
    resolved (['/'].intercalate ss) = ss.foldl enter [] := by
  rw [resolved, slashes_of_not_mem (backslash_not_mem_join hss),
    segments_join (fun s hs => (hss s hs).1) hne]

/-! ## Extensions -/

lemma dropExtension_behind (front file : List Char) :
    dropExtension (front ++ '/' :: file) = front ++ '/' :: dropExtension file := by
  have hbehind : file <:+ front ++ '/' :: file := (List.suffix_cons '/' file).trans
    (List.suffix_append front _)
  have hsuffix : ∀ e ∈ extensions, e.isSuffixOf (front ++ '/' :: file) = e.isSuffixOf file := by
    intro e he
    have hslash : '/' ∉ e := by
      revert e
      decide
    rw [Bool.eq_iff_iff, List.isSuffixOf_iff_suffix, List.isSuffixOf_iff_suffix]
    refine ⟨fun h => ?_, fun h => h.trans hbehind⟩
    by_cases hle : e.length ≤ file.length
    · exact List.suffix_of_suffix_length_le h hbehind hle
    · -- a longer one would begin before the slash
      have hmore : '/' :: file <:+ e := List.suffix_of_suffix_length_le
        (List.suffix_append front _) h (Nat.lt_of_not_le hle)
      exact absurd (hmore.mem (.head _)) hslash
  have hfind : extensions.find? (·.isSuffixOf (front ++ '/' :: file)) =
      extensions.find? (·.isSuffixOf file) := by
    rw [← List.head?_filter, ← List.head?_filter, List.filter_congr hsuffix]
  unfold dropExtension
  rw [hfind]
  split
  · next e he =>
    have hend := List.find?_some he
    have hle := (List.isSuffixOf_iff_suffix.mp hend).length_le
    rw [List.append_cons, List.length_append, Nat.add_sub_assoc hle, List.take_length_add_append,
      ← List.append_cons]
  · rfl

lemma dropExtension_join (file : List Char) (rest : List (List Char)) :
    dropExtension (['/'].intercalate (file :: rest).reverse) =
      ['/'].intercalate (dropExtension file :: rest).reverse := by
  rw [List.reverse_cons, List.reverse_cons]
  by_cases hrest : rest.reverse = []
  · simp [hrest]
  · rw [join_concat hrest, join_concat hrest, dropExtension_behind]

lemma Clean.dropExtension (h : Clean file) : Clean (dropExtension file) := by
  have hmem : ∀ c ∈ Path.dropExtension file, c ∈ file := by
    intro c hc
    unfold Path.dropExtension at hc
    split at hc
    · exact List.mem_of_mem_take hc
    · exact hc
  exact ⟨fun hc => h.1 (hmem _ hc), fun hc => h.2 (hmem _ hc)⟩

/-! ## Normal forms -/

/-- A normal form is proper up to its last segment. -/
lemma normalForm_cases (cs : List Char) : resolved cs = [] ∧ normalForm cs = [] ∨
    ∃ file rest, resolved cs = file :: rest ∧ Proper rest ∧
      (∀ s ∈ (dropExtension file :: rest).reverse, Clean s) ∧
      normalForm cs = ['/'].intercalate (dropExtension file :: rest).reverse := by
  have hproper := proper_resolved cs
  have hclean : ∀ s ∈ resolved cs, Clean s := fun _ => clean_of_mem_resolved
  have hform : normalForm cs = dropExtension (['/'].intercalate (resolved cs).reverse) := rfl
  cases hresolved : resolved cs with
  | nil => exact .inl ⟨rfl, by rw [hform, hresolved]; rfl⟩
  | cons file rest =>
    rw [hresolved] at hproper hclean hform
    obtain ⟨hfile, hrest⟩ := List.forall_mem_cons.mp hclean
    refine .inr ⟨file, rest, rfl, ?_, fun s hs => ?_, hform.trans (dropExtension_join file rest)⟩
    · generalize hall : file :: rest = all at hproper
      cases hproper with
      | up n =>
        cases n with
        | zero => cases hall
        | succ n => exact (List.cons.inj hall).2 ▸ .up n
      | name _ h => exact (List.cons.inj hall).2 ▸ h
    · obtain rfl | hs := List.mem_cons.mp (List.mem_reverse.mp hs)
      · exact hfile.dropExtension
      · exact hrest s hs

lemma reverse_segments_join (hclean : ∀ s ∈ (file :: rest).reverse, Clean s) :
    (segments (['/'].intercalate (file :: rest).reverse)).reverse = file :: rest := by
  rw [segments_join (fun s hs => (hclean s hs).1) (by simp), List.reverse_reverse]

/-- The last segment of a path stands for itself, or entering it adds nothing. -/
lemma eq_of_enter_eq_cons (h : enter above s = file :: above) : file = s := by
  have hnot : ∀ {t : List (List Char)}, t.length ≤ above.length → t ≠ file :: above := by
    rintro _ hle rfl
    exact absurd hle (Nat.not_succ_le_self _)
  unfold enter at h
  split at h
  · exact absurd h (hnot .refl)
  · split at h
    · split at h
      · split at h
        · exact (List.cons.inj h).1.symm
        · exact absurd h (hnot (Nat.le_succ _))
      · exact (List.cons.inj h).1.symm
    · exact (List.cons.inj h).1.symm

/-- Segments that are proper are entered unchanged. -/
lemma normalForm_fixed_iff (cs : List Char) :
    normalForm (normalForm cs) = normalForm cs ↔ normalForm cs = [] ∨
      Proper (segments (normalForm cs)).reverse ∧
        dropExtension (normalForm cs) = normalForm cs := by
  obtain ⟨-, hempty⟩ | ⟨file, rest, -, hproper, hclean, hform⟩ := normalForm_cases cs
  · rw [hempty]
    exact iff_of_true rfl (.inl rfl)
  generalize dropExtension file = stem at hclean hform
  rw [hform, reverse_segments_join hclean]
  have hresolved : resolved (['/'].intercalate (stem :: rest).reverse) = enter rest stem := by
    rw [resolved_join hclean (by simp), List.reverse_cons, List.foldl_append, hproper.foldl_enter]
    rfl
  constructor
  · intro hfixed
    obtain ⟨-, hempty⟩ | ⟨file', rest', hagain, -, hclean', hform'⟩ :=
      normalForm_cases (['/'].intercalate (stem :: rest).reverse)
    · exact .inl (hfixed.symm.trans hempty)
    · -- the segments are those that were entered, so that the last one was added
      have hsegments := congrArg (fun r => (segments r).reverse) (hform'.symm.trans hfixed)
      rw [reverse_segments_join hclean, reverse_segments_join hclean'] at hsegments
      obtain ⟨hstem, rfl⟩ := List.cons.inj hsegments
      rw [hresolved] at hagain
      cases eq_of_enter_eq_cons hagain
      refine .inr ⟨hagain ▸ hproper.enter stem, ?_⟩
      rw [dropExtension_join, hstem]
  · rintro (hempty | ⟨hall, hdrop⟩)
    · rw [hempty]
      rfl
    · change dropExtension (['/'].intercalate (resolved _).reverse) = _
      rw [resolved_join hclean (by simp), hall.foldl_enter, hdrop]

lemma dropExtension_eq_self_iff : dropExtension cs = cs ↔ ∀ e ∈ extensions, ¬ e <:+ cs := by
  unfold dropExtension
  split
  · next e he =>
    have hmem := List.mem_of_find?_eq_some he
    have hend := List.find?_some he
    have hsuffix := List.isSuffixOf_iff_suffix.mp hend
    refine iff_of_false (fun heq => ?_) fun h => h e hmem hsuffix
    have hlength : ∀ e ∈ extensions, 0 < e.length := by decide
    have htake := congrArg List.length heq
    rw [List.length_take] at htake
    have := hlength e hmem
    have := hsuffix.length_le
    omega
  · next hnone => simpa using hnone

lemma Proper.of_mem (h : Proper above) (hs : s ∈ above) : s ≠ [] ∧ s ≠ ['.'] := by
  induction h with
  | up n =>
    cases List.eq_of_mem_replicate hs
    decide
  | name hname _ ih =>
    obtain rfl | hs := List.mem_cons.mp hs
    · exact ⟨hname.1, hname.2.1⟩
    · exact ih hs

/-! ## Equivalent paths -/

/-- Text between two slashes that leads back to where it starts can be left out. -/
lemma normalForm_without {between : List Char} (p q : List Char)
    (h : ∀ above, (segments (slashes between)).foldl enter above = above) :
    normalForm (p ++ '/' :: (between ++ '/' :: q)) = normalForm (p ++ '/' :: q) := by
  have hsplit : ∀ p q : List Char, slashes (p ++ '/' :: q) = slashes p ++ '/' :: slashes q :=
    fun p q => by simp [slashes]
  rw [normalForm, normalForm, hsplit, hsplit, hsplit, segments_append, segments_append,
    segments_append]
  simp only [List.foldl_append, h]

/-- The texts differ in the kinds of their slashes only. -/
abbrev Respelled : List Char → List Char → Prop :=
  List.Forall₂ fun c d => c = d ∨ (c = '/' ∨ c = '\\') ∧ (d = '/' ∨ d = '\\')

lemma slashes_of_respelled {cs ds : List Char} (h : Respelled cs ds) :
    slashes cs = slashes ds := by
  induction h with
  | nil => rfl
  | cons hcd _ ih =>
    refine congrArg₂ List.cons ?_ ih
    obtain rfl | ⟨rfl | rfl, rfl | rfl⟩ := hcd <;> rfl

/-- **Normal forms respect the equivalence of paths.** An empty segment, a `.`, and a name
with `..` behind it change nothing, and slashes can be of either kind. -/
theorem normalize_equivalent (p q s : String)
    (hs : s ≠ "" ∧ s ≠ "." ∧ s ≠ ".." ∧ '/' ∉ s.toList ∧ '\\' ∉ s.toList) :
    normalize (p ++ "/./" ++ q) = normalize (p ++ "/" ++ q) ∧
    normalize (p ++ "//" ++ q) = normalize (p ++ "/" ++ q) ∧
    normalize (p ++ "/" ++ s ++ "/../" ++ q) = normalize (p ++ "/" ++ q) ∧
    ∀ r r' : String, Respelled r.toList r'.toList → normalize r = normalize r' := by
  obtain ⟨hempty, hdot, hup, hslash, hback⟩ := hs
  have hname : s.toList ≠ [] ∧ s.toList ≠ ['.'] ∧ s.toList ≠ ['.', '.'] :=
    ⟨fun h => hempty (String.toList_inj.mp h), fun h => hdot (String.toList_inj.mp h),
      fun h => hup (String.toList_inj.mp h)⟩
  have hwithout : ∀ (between : List Char) {path : String},
      path.toList = p.toList ++ '/' :: (between ++ '/' :: q.toList) →
      (∀ above, (segments (slashes between)).foldl enter above = above) →
      normalize path = normalize (p ++ "/" ++ q) := by
    intro between path hpath h
    have heq := normalForm_without p.toList q.toList h
    rw [← hpath] at heq
    exact congrArg String.ofList (heq.trans (by simp))
  refine ⟨hwithout ['.'] (by simp) fun _ => rfl,
    hwithout [] (by simp) fun _ => rfl,
    hwithout (s.toList ++ ['/', '.', '.']) (by simp) fun above => ?_,
    fun r r' h => ?_⟩
  · rw [slashes_of_not_mem (by simpa using hback), segments_append, segments_eq_singleton hslash]
    change enter (enter above s.toList) ['.', '.'] = above
    rw [enter_name hname, enter_name_up hname]
  · rw [normalize, normalForm, slashes_of_respelled h]
    rfl

/-- A directory that is left again, spelled with backslashes. -/
theorem normalize_equivalent_lib : normalize "src/./lib/../db.js" = normalize "src/./db.js" ∧
    normalize "src\\db.js" = normalize "src/db.js" := by
  obtain ⟨-, -, hup, hslashes⟩ := normalize_equivalent "src/." "db.js" "lib" (by decide)
  exact ⟨hup, hslashes _ _ (by simp)⟩

/-! ## Normal forms of normal forms -/

/-- No segment is empty or `.`, and `..` comes before all others. -/
abbrev IsProper (path : String) : Prop := Proper (segments path.toList).reverse

/-- **Normalizing twice.** A normal form has no empty segment and no `.` but for the last one.
It is the normal form of itself exactly if it is empty, or if the last segment is proper too
and ends in no extension; then it leads to the same module in every codebase. -/
theorem normalize_fixed_iff (path : String) :
    (∀ s ∈ (segments (normalize path).toList).dropLast, s ≠ [] ∧ s ≠ ['.']) ∧
    (normalize (normalize path) = normalize path ↔ normalize path = "" ∨
      IsProper (normalize path) ∧ ∀ e ∈ extensions, ¬ e <:+ (normalize path).toList) ∧
    (normalize (normalize path) = normalize path →
      ∀ c : Codebase, c.moduleAt? (normalize path) = c.moduleAt? path) := by
  have hlist : (normalize path).toList = normalForm path.toList := String.toList_ofList
  refine ⟨fun s hs => ?_, ?_, fun h c => by rw [Codebase.moduleAt?, h]; rfl⟩
  · rw [hlist] at hs
    obtain ⟨-, hempty⟩ | ⟨file, rest, -, hproper, hclean, hform⟩ := normalForm_cases path.toList
    · rw [hempty] at hs
      exact absurd hs List.not_mem_nil
    · rw [hform, segments_join (fun s hs => (hclean s hs).1) (by simp), List.reverse_cons,
        List.dropLast_concat] at hs
      exact hproper.of_mem (List.mem_reverse.mp hs)
  · rw [← String.toList_inj, ← String.toList_inj, hlist, ← dropExtension_eq_self_iff, IsProper,
      hlist, show "".toList = [] from rfl, ← normalForm_fixed_iff, normalize, String.toList_ofList,
      hlist]

/-- A path that goes up and has an extension, and one with two extensions. -/
theorem normalize_fixed_iff_up : normalize "./../a/../db.mjs" = "../db" ∧
    normalize (normalize "./../a/../db.mjs") = normalize "./../a/../db.mjs" := by
  refine ⟨by decide, (normalize_fixed_iff _).2.1.mpr (.inr ⟨?_, by decide⟩)⟩
  exact .name (s := ['d', 'b']) (by decide) (.up 1)

/-- An extension before the extension is left, and is cut off the next time. -/
theorem second_extension_left : normalize "a.js.js" = "a.js" ∧
    normalize (normalize "a.js.js") = "a" := by decide

/-! ## Imports of directories -/

/-- The path that a specifier names: absolute ones are taken as they are, others from the
directory of the importing module. -/
def joined (importer specifier : String) : String :=
  if isAbsolute specifier then specifier else directory importer ++ "/" ++ specifier

lemma target?_eq_some {importer specifier : String}
    (h : isAbsolute specifier = true ∨ isRelative specifier = true) :
    target? importer specifier = some (normalize (joined importer specifier)) := by
  unfold target? joined
  split
  · rfl
  · next habsolute => rw [if_pos (h.resolve_left habsolute)]

lemma backslash_not_mem_normalForm (cs : List Char) : '\\' ∉ normalForm cs := by
  obtain ⟨-, hempty⟩ | ⟨file, rest, -, -, hclean, hform⟩ := normalForm_cases cs
  · rw [hempty]
    exact List.not_mem_nil
  · rw [hform]
    exact backslash_not_mem_join hclean

lemma normalForm_index (hproper : Proper (segments cs).reverse) (hback : '\\' ∉ cs) :
    normalForm (cs ++ '/' :: "index".toList) = cs ++ '/' :: "index".toList := by
  have hne : segments cs ≠ [] := by
    rw [segments_eq_splitOn]
    exact List.splitOn_ne_nil '/' cs
  have hclean : ∀ s ∈ segments cs ++ ["index".toList], Clean s := by
    intro s hs
    obtain hs | hs := List.mem_append.mp hs
    · exact ⟨fun hc => (of_mem_segments hs hc).1 rfl, fun hc => hback (of_mem_segments hs hc).2⟩
    · cases List.mem_singleton.mp hs
      exact ⟨by decide, by decide⟩
  have hjoin := join_concat hne "index".toList
  rw [join_segments] at hjoin
  have hfold := hproper.foldl_enter
  rw [List.reverse_reverse] at hfold
  change dropExtension (['/'].intercalate (resolved _).reverse) = _
  rw [← hjoin, resolved_join hclean (by simp), List.foldl_append, hfold]
  change dropExtension (['/'].intercalate ("index".toList :: (segments cs).reverse).reverse) = _
  rw [dropExtension_join, List.reverse_cons, List.reverse_reverse]
  rfl

lemma proper_of_index (path : List Char) (h : normalForm path = cs ++ '/' :: "index".toList) :
    Proper (segments cs).reverse := by
  obtain ⟨-, hempty⟩ | ⟨file, rest, -, hproper, hclean, hform⟩ := normalForm_cases path
  · rw [hempty] at h
    exact absurd h.symm (by simp)
  · have hsegments := congrArg (fun r => (segments r).reverse) (hform.symm.trans h)
    rw [reverse_segments_join hclean, segments_append,
      segments_eq_singleton (s := "index".toList) (by decide), List.reverse_append] at hsegments
    have hrest : rest = (segments cs).reverse := (List.cons.inj hsegments).2
    exact hrest ▸ hproper

end Path

/-- Modules are listed under normal forms. -/
lemma Codebase.Holds.normal {sources : Sources} {c : Codebase}
    (h : c.Holds sources) : ∀ entry ∈ c.paths, ∃ path, entry.1 = Path.normalize path := by
  induction h with
  | empty => exact fun _ h => absurd h List.not_mem_nil
  | add _ _ _ ih =>
    intro entry hentry
    obtain rfl | hentry := List.mem_cons.mp hentry
    · exact ⟨_, rfl⟩
    · exact ih entry hentry

/-- **Directories are found by their index.** A specifier that is a path leads to the module
at that path; else, if the normal form of the path is proper, to the index module below it;
else nowhere. -/
theorem Program.resolve?_directory {sources : Sources} {p : Program}
    (h : build sources = .ok p) (importer : ModuleId) (specifier : String)
    (hspecifier : Path.isAbsolute specifier = true ∨ Path.isRelative specifier = true) :
    ∃ path, path = Path.normalize
        (Path.joined (p.arena.modules.getD importer default).path specifier) ∧
      (∀ m, p.code.paths.lookup path = some m → p.code.resolve? importer specifier = some m) ∧
      (p.code.paths.lookup path = none → Path.IsProper path →
        p.code.resolve? importer specifier =
          p.code.paths.lookup (Path.normalize (path ++ "/index"))) ∧
      (p.code.paths.lookup path = none → ¬ Path.IsProper path →
        p.code.resolve? importer specifier = none) := by
  generalize hpath : Path.normalize
    (Path.joined (p.arena.modules.getD importer default).path specifier) = path
  have hresolve : p.code.resolve? importer specifier =
      (p.code.paths.lookup path <|> p.code.paths.lookup (path ++ "/index")) := by
    rw [← hpath, Codebase.resolve?, Path.target?_eq_some hspecifier]
    rfl
  have hindex : (path ++ "/index").toList = path.toList ++ '/' :: "index".toList := by simp
  refine ⟨path, rfl, fun m hm => by rw [hresolve, hm]; rfl, fun hnone hproper => ?_,
    fun hnone hproper => ?_⟩
  · have hback : '\\' ∉ path.toList := by
      rw [← hpath, Path.normalize, String.toList_ofList]
      exact Path.backslash_not_mem_normalForm _
    rw [hresolve, hnone, Path.normalize, hindex, Path.normalForm_index hproper hback, ← hindex,
      String.ofList_toList]
    rfl
  · rw [hresolve, hnone]
    refine List.lookup_eq_none_iff.mpr fun entry hentry => ?_
    obtain ⟨path', hentry⟩ := (holds_of_build h).normal entry hentry
    refine bne_iff_ne.mpr fun heq => hproper (Path.proper_of_index path'.toList ?_)
    rw [← hindex, heq, hentry, Path.normalize, String.toList_ofList]

/-- The directory of a library beside that of the importing module. -/
theorem Program.resolve?_directory_library : ∃ p,
    build [("lib/index.js", ";"), ("src/main.js", ";")] = .ok p ∧
      (Path.normalize (Path.joined (p.arena.modules.getD 1 default).path "../lib/") = "lib" ∧
        p.code.paths.lookup "lib" = none ∧
        p.code.paths.lookup (Path.normalize ("lib" ++ "/index")) = some 0) ∧
      p.code.resolve? 1 "../lib/" = some 0 := by
  refine exists_of_test_and (by decide +kernel) fun h ⟨hpath, hnone, hindex⟩ => ?_
  obtain ⟨_, rfl, -, hproper, -⟩ := resolve?_directory h 1 "../lib/" (.inr (by decide))
  rw [hpath] at hproper
  exact (hproper hnone (.name (s := "lib".toList) (by decide) (.up 0))).trans hindex

/-- The index module of the root is not found. -/
theorem Program.root_index_missed : ∃ p, build [("index.js", ";"), ("main.js", ";")] = .ok p ∧
    Path.normalize (Path.joined "main.js" "./") = "" ∧
    p.code.paths.lookup (Path.normalize "/index") = some 0 ∧ p.code.resolve? 1 "./" = none :=
  exists_of_test _ _ (by decide +kernel)

end ValueFlow
