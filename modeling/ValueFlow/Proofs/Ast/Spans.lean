import ValueFlow.Proofs.Ast.Descent

/-!
# The texts of nodes

The text of a node is that of some tokens of its module, inside the text of its
parent, and its line is the line where the text starts.
-/

namespace ValueFlow

/-! ## Places of tokens -/

lemma length_le_utf8ByteSize (source : String) : source.toList.length ≤ source.utf8ByteSize := by
  rw [← byteLength_toList]
  induction source.toList with
  | nil => exact Nat.le_refl 0
  | cons c cs ih =>
    have hpos := c.utf8Size_pos
    rw [byteLength_cons, List.length_cons]
    omega

namespace Tiles

variable {cs : List Char} {start : Nat} {tokens : Tokens} (h : Tiles cs start tokens)
include h

lemma token_behind {i j : Nat} (hij : i < j) (hj : j < tokens.count) :
    (tokens.token i).stop ≤ (tokens.token j).start := by
  have hordered := (List.pairwise_append.mp h.ordered).1
  rw [Tokens.token, Tokens.token, List.getD_eq_getElem _ _ (Nat.lt_trans hij hj),
    List.getD_eq_getElem _ _ hj]
  exact List.pairwise_iff_getElem.mp hordered i j (Nat.lt_trans hij hj) hj hij

lemma token_mono {i j : Nat} (hij : i ≤ j) (hj : j < tokens.count) :
    (tokens.token i).start ≤ (tokens.token j).start ∧
      (tokens.token i).stop ≤ (tokens.token j).stop := by
  rcases Nat.eq_or_lt_of_le hij with rfl | hlt
  · exact ⟨Nat.le_refl _, Nat.le_refl _⟩
  · have hbehind := h.token_behind hlt hj
    have hi := (h.proper _ (Tokens.token_mem (Nat.lt_of_le_of_lt hij hj))).2
    have hproper := (h.proper _ (Tokens.token_mem hj)).2
    omega

/-- A construct ends where its last token ends. -/
lemma stop_span {k l : Nat} (hkl : k < l) (hl : l ≤ tokens.count) :
    (tokens.span k l).stop = (tokens.token (l - 1)).stop :=
  Nat.max_eq_left (h.token_mono (by omega) (by omega)).2

lemma start_lt_stop_span {k l : Nat} (hkl : k < l) (hl : l ≤ tokens.count) :
    (tokens.span k l).start < (tokens.span k l).stop := by
  rw [h.stop_span hkl hl]
  have hproper : (tokens.token k).start < (tokens.token k).stop :=
    (h.proper _ (Tokens.token_mem (by omega))).2
  exact Nat.lt_of_lt_of_le hproper (h.token_mono (by omega) (by omega)).2

/-- The texts of constructs that follow each other. -/
lemma span_before {k l k' l' : Nat} (hkl : k < l) (hl : l ≤ k') (hk' : k' < tokens.count) :
    (tokens.span k l).stop ≤ (tokens.span k' l').start := by
  rw [h.stop_span hkl (by omega)]
  exact h.token_behind (by omega) hk'

/-- Fewer tokens have a text inside. -/
lemma span_inside {k l k' l' : Nat} (hk : k ≤ k') (hkl : k' < l') (hl : l' ≤ l)
    (hcount : l ≤ tokens.count) : (tokens.span k l).start ≤ (tokens.span k' l').start ∧
      (tokens.span k' l').stop ≤ (tokens.span k l).stop := by
  rw [h.stop_span hkl (by omega), h.stop_span (by omega) hcount]
  exact ⟨(h.token_mono hk (by omega)).1, (h.token_mono (by omega) (by omega)).2⟩

end Tiles

/-! ## Texts of nodes -/

/-- The text of a node is that of some of the tokens, inside the text of its parent, and
the node has the line of its first token. -/
structure Arena.Spelled (a : Arena) (tokens : Tokens) (parent n : NodeId) : Prop where
  proper : (a.node n).span.start < (a.node n).span.stop
  starts : ∃ t ∈ tokens.items, t.start = (a.node n).span.start
  stops  : ∃ t ∈ tokens.items, t.stop = (a.node n).span.stop
  inside : (a.node parent).span.start ≤ (a.node n).span.start ∧
             (a.node n).span.stop ≤ (a.node parent).span.stop
  line   : (a.node n).span.line = (a.location n).line

/-- The node is a module with statements made of the tokens, or it is made of some itself. -/
def Arena.ReadIn (a : Arena) (tokens : Tokens) (length : Nat) (n : NodeId) : Prop :=
  (∃ body, (a.node n).span = ⟨(tokens.token 0).line, 0, length⟩ ∧ a.form n = .module body ∧
    InRoles (a.ReadsFrom tokens) 0 tokens.count none (body.map fun _ => .statement) body) ∨
  ∃ role early i j, j ≤ tokens.count ∧ a.ReadsFrom tokens role early i j n

namespace Arena.ReadIn

variable {a : Arena} {tokens : Tokens} {length : Nat} {n c : NodeId}

lemma part (h : a.ReadIn tokens length n) (hc : c ∈ a.children n) :
    ∃ role early i j, j ≤ tokens.count ∧ a.ReadsFrom tokens role early i j c := by
  obtain ⟨body, -, hform, hparts⟩ | ⟨_, _, _, _, hj, hread⟩ := h
  · rw [children, hform] at hc
    obtain ⟨role, i, j, -, hj, hread⟩ := hparts.exists_of_mem MadeOf.le hc
    exact ⟨role, none, i, j, hj, hread⟩
  · obtain ⟨_, l, hl, -, role, early, i, j, hread, -, hjl, -⟩ := hread.exists_part hc
    exact ⟨role, early, i, j, by omega, hread⟩

/-- The text of a part is that of some tokens, inside of the text of the whole. -/
lemma inside {cs : List Char} (h : a.ReadIn tokens length n) (htiles : Tiles cs 0 tokens)
    (hlength : cs.length ≤ length) (hc : c ∈ a.children n) :
    ∃ k l, k < l ∧ l ≤ tokens.count ∧ (a.node c).span = tokens.span k l ∧
      (a.node n).span.start ≤ (a.node c).span.start ∧
      (a.node c).span.stop ≤ (a.node n).span.stop := by
  obtain ⟨body, hspan, -⟩ | ⟨_, _, _, _, hj, hread⟩ := id h
  · obtain ⟨_, _, _, _, hj, hread⟩ := h.part hc
    obtain ⟨k, l, -, hkl, hl, hplace⟩ := hread.exists_span
    refine ⟨k, l, hkl, Nat.le_trans hl hj, hplace, ?_, ?_⟩
    · rw [hspan]
      exact Nat.zero_le _
    · rw [hspan, hplace, htiles.stop_span hkl (Nat.le_trans hl hj)]
      exact Nat.le_trans (htiles.inside _ (List.mem_append_left _
        (Tokens.token_mem (by omega)))).2 hlength
  · obtain ⟨k, l, hl, hspan, _, _, k', l', hpart, hk, hl', hearly⟩ := hread.exists_part hc
    obtain ⟨m, o, hm, hmo, ho, hplace⟩ := hpart.exists_span
    refine ⟨m, o, hmo, by omega, hplace, ?_⟩
    have hkm : k ≤ m := by
      rcases hm with hm | hm
      · omega
      · exact Nat.le_of_eq (hearly m hm).symm
    rw [show (a.node n).span = _ from hspan, show (a.node c).span = _ from hplace]
    exact htiles.span_inside hkm hmo (Nat.le_trans ho hl') (Nat.le_trans hl hj)

end Arena.ReadIn

namespace Codebase.Holds

variable {sources : Sources} {c : Codebase}

lemma readIn (h : c.Holds sources) {n : NodeId} (hn : n < c.arena.size) :
    ∃ path source tokens names, sources[(c.arena.node n).home]? = some (path, source) ∧
      (c.arena.moduleOf n).lines = Lines.ofText source ∧
      scan source Numbering.empty = (.ok tokens, names) ∧
      c.arena.ReadIn tokens source.utf8ByteSize n := by
  have hparsed := h.parsed
  obtain ⟨r, ⟨module, hmodule, rfl⟩, hbelow⟩ := hparsed.forest.exists_root hparsed.covered hn
  obtain ⟨m, hm⟩ := Array.mem_iff_getElem?.mp hmodule
  obtain ⟨path, source, tokens, names, body, hsource, hlines, hscan, hspan, hform, hread⟩ := h.read hm
  rw [Arena.moduleOf, h.grown.home hm hbelow, Array.getD_eq_getD_getElem?, hm]
  refine ⟨path, source, tokens, names, hsource, hlines, hscan, ?_⟩
  clear hn
  induction hbelow with
  | refl => exact .inl ⟨body, hspan, hform, hread⟩
  | tail _ hpart ih => exact .inr (ih.part hpart)

lemma home_of_part (h : c.Holds sources) {parent n : NodeId}
    (hn : n ∈ c.arena.children parent) : (c.arena.node n).home = (c.arena.node parent).home := by
  have hparsed := h.parsed
  obtain ⟨r, ⟨module, hmodule, rfl⟩, hbelow⟩ :=
    hparsed.forest.exists_root hparsed.covered (Arena.lt_size_of_mem hn)
  obtain ⟨m, hm⟩ := Array.mem_iff_getElem?.mp hmodule
  rw [h.grown.home hm hbelow, h.grown.home hm (hbelow.tail hn)]

lemma spelled (h : c.Holds sources) {parent n : NodeId} (hn : n ∈ c.arena.children parent) :
    ∃ path source tokens names, sources[(c.arena.node n).home]? = some (path, source) ∧
      scan source Numbering.empty = (.ok tokens, names) ∧ c.arena.Spelled tokens parent n := by
  obtain ⟨path, source, tokens, names, hsource, hlines, hscan, hread⟩ :=
    h.readIn (Arena.lt_size_of_mem hn)
  have hhome := h.home_of_part hn
  have htiles := tiles_of_scan hscan
  obtain ⟨k, l, hkl, hl, hspan, hinside⟩ := hread.inside htiles (length_le_utf8ByteSize source) hn
  have hfirst : tokens.token k ∈ tokens.items := Tokens.token_mem (by omega)
  refine ⟨path, source, tokens, names, hhome ▸ hsource, hscan, ?_, ?_, ?_, hinside, ?_⟩
  · rw [hspan]
    exact htiles.start_lt_stop_span hkl hl
  · exact ⟨_, hfirst, by rw [hspan]; rfl⟩
  · refine ⟨tokens.token (l - 1), Tokens.token_mem (by omega), ?_⟩
    rw [hspan, htiles.stop_span hkl hl]
  · rw [Arena.location, Arena.moduleOf, hhome, ← Arena.moduleOf, hlines, hspan]
    exact (line_of_scan hscan (List.mem_append_left _ hfirst)).symm

end Codebase.Holds

/-- **Texts nest.** The text of every node but the roots is not empty, goes from the start of
a token of its module to the end of one, and lies inside the text of its parent; and the
line of the node is the line where the text starts. -/
theorem Program.texts_nest {sources : Sources} {p : Program}
    (h : build sources = .ok p) {n : NodeId} (hn : n < p.arena.size) (hroot : ¬ p.arena.IsRoot n) :
    ∃ parent path source tokens names, p.arena.parent? n = some parent ∧
      sources[(p.arena.node n).home]? = some (path, source) ∧
      scan source Numbering.empty = (.ok tokens, names) ∧ p.arena.Spelled tokens parent n := by
  have hholds := holds_of_build h
  obtain ⟨hforest, -, hcovered, -, -⟩ := hholds.parsed
  cases hparent : p.arena.parent? n with
  | none => exact absurd (hcovered n hn hparent) hroot
  | some parent =>
    obtain ⟨path, source, tokens, names, hsource, hscan, hspelled⟩ :=
      hholds.spelled (hforest.parent.mp hparent)
    exact ⟨parent, path, source, tokens, names, rfl, hsource, hscan, hspelled⟩

/-- An array over two lines in the second of two modules. -/
theorem Program.texts_nest_of_array :
    let sources := [("a.ts", "f(1);"), ("b.ts", "// two\nlet x = [1,\n  2];")]
    ∃ p, build sources = .ok p ∧ (8 < p.arena.size ∧ ¬ p.arena.IsRoot 8) ∧
      (p.arena.node 8).span = ⟨2, 15, 23⟩ ∧
      ∃ parent path source tokens names, p.arena.parent? 8 = some parent ∧
        sources[(p.arena.node 8).home]? = some (path, source) ∧
        scan source Numbering.empty = (.ok tokens, names) ∧ p.arena.Spelled tokens parent 8 := by
  intro sources
  obtain ⟨p, hbuild, hn, hroots, hspan⟩ := exists_of_test sources (fun p => 8 < p.arena.size ∧
    p.arena.modules.toList.map (·.root) = [4, 11] ∧ (p.arena.node 8).span = ⟨2, 15, 23⟩)
    (by decide +kernel)
  have hroot : ¬ p.arena.IsRoot 8 := by
    rintro ⟨source, hsource, hroot⟩
    have hmem : 8 ∈ p.arena.modules.toList.map (·.root) :=
      List.mem_map.mpr ⟨source, Array.mem_toList_iff.mpr hsource, hroot⟩
    rw [hroots] at hmem
    exact absurd hmem (by decide)
  exact ⟨p, hbuild, ⟨hn, hroot⟩, hspan, texts_nest hbuild hn hroot⟩

end ValueFlow
