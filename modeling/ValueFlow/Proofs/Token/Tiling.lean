import ValueFlow.Proofs.Token.Cuts
import ValueFlow.Proofs.Text.Lines

/-!
# Tokens tile the source

The tokens of a source stand in it one behind another. What is left between them
is layout: blanks, line breaks and complete comments (`Scan.Gap`).
-/

namespace ValueFlow

open Scan

variable {cs : List Char} {t : Token} {tokens : Tokens} {source : String}

def gaps (cs : List Char) : Nat → List Token → List (List Char × Token)
  | _, [] => []
  | start, t :: ts => ((cs.take t.start).drop start, t) :: gaps cs t.stop ts

structure Tiles (cs : List Char) (start : Nat) (tokens : Tokens) : Prop where
  finish   : tokens.finish.value = .endOfFile ∧ tokens.finish.start = cs.length ∧
    tokens.finish.stop = cs.length
  proper   : ∀ t ∈ tokens.items, t.value ≠ .endOfFile ∧ t.start < t.stop
  inside   : ∀ t ∈ tokens.toList, start ≤ t.start ∧ t.stop ≤ cs.length
  ordered  : tokens.toList.Pairwise fun t u => t.stop ≤ u.start
  blank    : ∀ g t, (g, t) ∈ gaps cs start tokens.toList → Gap (t.value = .endOfFile) g
  lines    : ∀ t ∈ tokens.toList, t.line = 1 + (cs.take t.start).count '\n'
  newlines : ∀ g t, (g, t) ∈ gaps cs start tokens.toList → t.value ≠ .endOfFile →
    (t.newlineBefore = true ↔ '\n' ∈ g)

lemma Lexeme.enter_ne_endOfFile (names : Names) (l : Lexeme) :
    (l.enter names).1 ≠ .endOfFile := by
  cases l <;> simp [enter]

lemma Tiles.cons {start : Nat} (h : Tiles cs t.stop tokens) (hvalue : t.value ≠ .endOfFile)
    (hstart : start ≤ t.start) (hstop : t.start < t.stop) (hlength : t.stop ≤ cs.length)
    (hgap : Gap false ((cs.take t.start).drop start))
    (hline : t.line = 1 + (cs.take t.start).count '\n')
    (hnewline : t.newlineBefore = true ↔ '\n' ∈ (cs.take t.start).drop start) :
    Tiles cs start ⟨t :: tokens.items, tokens.finish⟩ where
  finish := h.finish
  proper := List.forall_mem_cons.mpr ⟨⟨hvalue, hstop⟩, h.proper⟩
  inside := List.forall_mem_cons.mpr ⟨⟨hstart, hlength⟩, fun u hu =>
    ⟨by have := (h.inside u hu).1; omega, (h.inside u hu).2⟩⟩
  ordered := List.pairwise_cons.mpr ⟨fun u hu => (h.inside u hu).1, h.ordered⟩
  blank g u hg := by
    obtain heq | hg := List.mem_cons.mp hg
    · obtain ⟨rfl, rfl⟩ := Prod.mk.inj heq
      simpa [hvalue] using hgap
    · exact h.blank g u hg
  lines := List.forall_mem_cons.mpr ⟨hline, h.lines⟩
  newlines g u hg hu := by
    obtain heq | hg := List.mem_cons.mp hg
    · obtain ⟨rfl, rfl⟩ := Prod.mk.inj heq
      exact hnewline
    · exact h.newlines g u hg hu

/-- The tokens of a cut text, which stands behind the text `before`, tile it. -/
lemma tiles_of_cuts {ts : List Nat} {rest : List Char} {ps : List Piece} (h : Cuts ts cs ps rest)
    (before : List Char) (names : Names) :
    Tiles (before ++ cs) before.length
      (layOut rest ps before.length (1 + before.count '\n') names).1 := by
  induction h generalizing before names with
  | @done g hg =>
    have hwhole : (before ++ g).take (before.length + g.length) = before ++ g := by
      rw [← List.length_append, List.take_length]
    refine ⟨⟨rfl, ?_, ?_⟩, ?_, ?_, ?_, ?_, ?_, ?_⟩
    · simp [layOut]
    · simp [layOut]
    · simp [layOut]
    · simp [layOut, Tokens.toList]
    · simp [layOut, Tokens.toList]
    · simp [layOut, Tokens.toList, gaps, hwhole, hg]
    · simp [layOut, Tokens.toList, hwhole, Nat.add_assoc]
    · simp [layOut, Tokens.toList, gaps]
  | @read ts ts' g w r l ps rest hg hl hr ih =>
    obtain ⟨c, u, rfl, -⟩ := hl.exists_cons
    have hbefore :
        (before ++ (g ++ (c :: u ++ r))).take (before.length + g.length) = before ++ g := by
      rw [← List.append_assoc, ← List.length_append, List.take_left]
    have hgap : ((before ++ (g ++ (c :: u ++ r))).take (before.length + g.length)).drop
        before.length = g := by
      rw [hbefore, List.drop_left]
    have hrest := ih (before ++ g ++ c :: u) (l.enter names).2
    simp only [List.append_assoc, List.length_append, List.count_append, ← Nat.add_assoc] at hrest
    refine Tiles.cons (t := ⟨(l.enter names).1, 1 + before.count '\n' + g.count '\n',
      before.length + g.length, before.length + g.length + (c :: u).length,
      0 < g.count '\n'⟩) hrest (Lexeme.enter_ne_endOfFile _ _) (Nat.le_add_right _ _) ?_ ?_ ?_ ?_ ?_
    · simp
    · simp only [List.length_append]
      omega
    · rw [hgap]
      exact hg
    · rw [hbefore, List.count_append, Nat.add_assoc]
    · rw [hgap]
      simp

/-! ## The line of an offset -/

lemma byteLength_of_ascii (h : ∀ c ∈ cs, c.toNat < 128) : byteLength cs = cs.length := by
  induction cs with
  | nil => rfl
  | cons c cs ih =>
    obtain ⟨hc, hcs⟩ := List.forall_mem_cons.mp h
    have hsize : c.utf8Size = 1 :=
      Char.utf8Size_eq_one_iff.mpr (UInt32.le_iff_toNat_le.mpr (Nat.le_of_lt_succ hc))
    rw [byteLength_cons, hsize, ih hcs, List.length_cons, Nat.add_comm]

lemma line_location (h : ∀ c ∈ source.toList, c.toNat < 128) {n : Nat}
    (hn : n ≤ source.toList.length) :
    ((Lines.ofText source).location n).line = 1 + (source.toList.take n).count '\n' := by
  have hplace := Lines.location_byteLength (source.toList.take_append_drop n).symm
  rw [byteLength_of_ascii fun c hc => h c (List.mem_of_mem_take hc),
    List.length_take_of_le hn] at hplace
  rw [hplace]

/-! ## Tokens of a source -/

lemma Tiles.start_le {start : Nat} (h : Tiles cs start tokens) (ht : t ∈ tokens.toList) :
    t.start ≤ cs.length := by
  obtain hitem | hlast := List.mem_append.mp ht
  · exact Nat.le_trans (Nat.le_of_lt (h.proper t hitem).2) (h.inside t ht).2
  · rw [List.mem_singleton.mp hlast]
    exact Nat.le_of_eq h.finish.2.1

lemma tiles_of_scan {names names' : Names} (h : scan source names = (.ok tokens, names')) :
    Tiles source.toList 0 tokens := by
  obtain ⟨-, ps, rest, hcuts, hlay⟩ := scan_eq_ok_iff.mp h
  have hall := tiles_of_cuts hcuts [] names
  rw [show layOut rest ps [].length (1 + List.count '\n' []) names = (tokens, names') from hlay]
    at hall
  exact hall

/-- A token carries the line of its offset. -/
lemma line_of_scan {names names' : Names} (h : scan source names = (.ok tokens, names'))
    (ht : t ∈ tokens.toList) : ((Lines.ofText source).location t.start).line = t.line := by
  have htiles := tiles_of_scan h
  have hascii : ∀ c ∈ source.toList, c.toNat < 128 := by simpa using (scan_eq_ok_iff.mp h).1
  rw [line_location hascii (htiles.start_le ht), htiles.lines t ht]

/-- **The tokens of a source tile it.** A source that is scanned is its tokens
with layout between them, and every token has the line of its offset. -/
theorem tokens_tile_source {source : String} {names names' : Names} {tokens : Tokens}
    (h : scan source names = (.ok tokens, names')) :
    Tiles source.toList 0 tokens ∧
      ∀ t ∈ tokens.toList, ((Lines.ofText source).location t.start).line = t.line :=
  ⟨tiles_of_scan h, fun _ => line_of_scan h⟩

/-- A source with both kinds of comment, a template over two lines and a line
feed in the gap before a token. -/
theorem tokens_tile_source_template :
    let source := "a /* b */\n + `c\n$\x7b d \x7d` // e"
    ∃ tokens names', scan source Numbering.empty = (.ok tokens, names') ∧
      tokens.items.map (fun t => (t.start, t.stop, t.line, t.newlineBefore)) =
        [(0, 1, 1, false), (11, 12, 2, true), (13, 18, 2, false), (19, 20, 3, false),
          (21, 23, 3, false)] ∧
      Tiles source.toList 0 tokens ∧
      ∀ t ∈ tokens.toList, ((Lines.ofText source).location t.start).line = t.line := by
  intro source
  exact exists_scan_and (by decide +kernel) tokens_tile_source

end ValueFlow
