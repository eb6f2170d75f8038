import ValueFlow.Proofs.Token.Steps

/-!
# Cutting a source

A source that is scanned is a sequence of lexemes with gaps between them. The
relation `Scan.Cuts` says so without the state of the scanner: each piece is a
gap and a text that is read as a lexeme, given what stands behind it. The tokens
follow from the pieces alone (`Scan.layOut`), so a theorem about the tokens of a
source is an induction on its pieces.
-/

namespace ValueFlow

variable {tokens : Tokens}

namespace Scan

variable {w r : List Char}

/-! ## Gaps and pieces -/

lemma Reads.exists_cons {ts ts' : List Nat} {l : Lexeme} (h : Reads ts w r l ts') :
    ∃ c u, w = c :: u ∧ c ≠ '\n' := by
  cases h with
  | word hc => exact ⟨_, _, rfl, ne_of_test hc (by decide)⟩
  | number hc =>
    refine ⟨_, _, rfl, ?_⟩
    rcases hc with hc | ⟨rfl, -⟩
    · exact ne_of_test hc (by decide)
    · decide
  | string hq =>
    refine ⟨_, _, rfl, ?_⟩
    rcases hq with rfl | rfl <;> decide
  | template | resume | openBrace | closeBrace | outerBrace => exact ⟨_, _, rfl, by decide⟩
  | @mark _ p _ _ hopen hclose =>
    obtain ⟨c, u, htext, hstart, -⟩ := exists_text_eq p hopen hclose
    exact ⟨c, u, htext, ne_of_test hstart (by decide)⟩

lemma Skips.ne_nil (h : Skips w r) : w ≠ [] := by cases h <;> exact List.cons_ne_nil _ _

/-- Blanks, line breaks and complete comments. A comment to the end of the line
ends at a line feed; in the `last` gap of a source it may end with the source. -/
inductive Gap (last : Bool) : List Char → Prop
  | nil : Gap last []
  | blank {c : Char} {g : List Char} (hc : c = '\n' ∨ isBlank c = true) (hg : Gap last g) :
      Gap last (c :: g)
  | line {w g : List Char} (hw : '\n' ∉ w) (hg : Gap last ('\n' :: g)) :
      Gap last ('/' :: '/' :: (w ++ '\n' :: g))
  | lastLine {w : List Char} (hlast : last = true) (hw : '\n' ∉ w) : Gap last ('/' :: '/' :: w)
  | block {w g : List Char} (hw : ¬ ['*', '/'] <:+: w) (hg : Gap last g) :
      Gap last ('/' :: '*' :: (w ++ '*' :: '/' :: g))

structure Piece where
  gap : List Char
  text : List Char
  lexeme : Lexeme

/-- `Cuts outer cs pieces rest`: inside of the substitutions `outer` the text
`cs` is cut into the pieces and a last gap `rest`. -/
inductive Cuts : List Nat → List Char → List Piece → List Char → Prop
  | done {g : List Char} (hg : Gap true g) : Cuts [] g [] g
  | read {ts ts' : List Nat} {g w r : List Char} {l : Lexeme} {ps : List Piece} {rest : List Char}
      (hg : Gap false g) (hl : Reads ts w r l ts') (hr : Cuts ts' r ps rest) :
      Cuts ts (g ++ (w ++ r)) (⟨g, w, l⟩ :: ps) rest

def layOut (rest : List Char) : List Piece → Nat → Nat → Names → Tokens × Names
  | [], offset, line, names =>
    (⟨[], ⟨.endOfFile, line + rest.count '\n', offset + rest.length, offset + rest.length, true⟩⟩,
      names)
  | p :: ps, offset, line, names =>
    let start := offset + p.gap.length
    let line := line + p.gap.count '\n'
    let (value, names) := p.lexeme.enter names
    let (tokens, names) := layOut rest ps (start + p.text.length) (line + p.text.count '\n') names
    (⟨⟨value, line, start, start + p.text.length, 0 < p.gap.count '\n'⟩ :: tokens.items,
      tokens.finish⟩, names)

/-- What is skipped before a piece belongs to the gap before it. -/
lemma Cuts.skip {ts : List Nat} {ps : List Piece} {rest : List Char} (hw : Skips w r)
    (h : Cuts ts r ps rest) : ∃ ps rest, Cuts ts (w ++ r) ps rest := by
  -- the gap that the text `r` starts with, under either constructor
  have hgap : ∀ {last : Bool} {g u : List Char}, Gap last g → r = g ++ u →
      (u = [] → last = true) → u.head? ≠ some '\n' → Gap last (w ++ g) := by
    intro last g u hg hr hu hhead
    cases hw with
    | blank hc => exact .blank hc hg
    | block hw =>
      rw [List.cons_append, List.cons_append, List.append_assoc]
      exact .block hw hg
    | @line w _ hw hstart =>
      cases g with
      | nil =>
        cases u with
        | nil =>
          rw [List.append_nil]
          exact .lastLine (hu rfl) hw
        | cons c u =>
          subst hr
          simp at hhead hstart
          exact absurd hstart hhead
      | cons c g =>
        subst hr
        obtain rfl : c = '\n' := by simpa using hstart
        exact .line hw hg
  cases h with
  | done hg => exact ⟨_, _, .done (hgap hg (List.append_nil _).symm (fun _ => rfl) (by simp))⟩
  | @read _ ts' g u r l ps rest hg hl hr =>
    obtain ⟨c, v, rfl, hc⟩ := hl.exists_cons
    rw [← List.append_assoc]
    exact ⟨_, _, .read (hgap hg rfl (by simp) (by simpa using hc)) hl hr⟩

end Scan

namespace Scanner

open Scan

variable {s t : Scanner} {taken : List Token} {r : List Char} {token : Option Token} {w : List Char}

/-! ## The allowance of a run -/

@[simp] lemma rest_skip (n feeds : Nat) : (s.skip n feeds).rest = s.rest.drop n := rfl

lemma skip_skip (m n f g : Nat) : (s.skip m f).skip n g = s.skip (m + n) (f + g) := by
  have hnewline : ((s.newline || decide (f > 0)) || decide (g > 0)) =
      (s.newline || decide (f + g > 0)) := by
    rw [Bool.or_assoc, ← Bool.decide_or]
    congr 2
    simp only [eq_iff_iff]
    omega
  simp only [skip, advance, List.drop_drop, Nat.add_assoc, hnewline]

lemma skip_zero : s.skip 0 0 = s := by simp [skip, advance]

/-- A step takes at least one character. -/
lemma length_of_next (hne : s.rest ≠ []) (h : s.next = .ok (token, t)) :
    t.rest.length < s.rest.length := by
  obtain ⟨w, r, hs, hskips | ⟨l, ts, hreads⟩⟩ := exists_piece hne h
  · rw [next_of_skips hs hskips] at h
    cases h
    have := List.length_pos_of_ne_nil hskips.ne_nil
    simp only [rest_skip, hs, List.drop_left, List.length_append]
    omega
  · rw [next_of_reads hs rfl hreads] at h
    cases h
    obtain ⟨c, u, rfl, -⟩ := hreads.exists_cons
    have hlen : s.rest.length = (c :: u).length + r.length := by rw [hs, List.length_append]
    have hrest : (s.behind (c :: u) l ts).rest = r := by rw [behind, hs, List.drop_left]
    rw [hrest, hlen, List.length_cons]
    omega

/-- An allowance of one step for each character is enough. -/
lemma run_of_le {fuel : Nat} (hfuel : s.rest.length ≤ fuel) :
    run fuel s taken = run s.rest.length s taken := by
  induction hn : s.rest.length using Nat.strong_induction_on generalizing s taken fuel with
  | _ n ih =>
  subst hn
  by_cases hne : s.rest = []
  · cases fuel <;> simp [run, hne]
  · obtain ⟨k, hk⟩ : ∃ k, s.rest.length = k + 1 :=
      ⟨_, (Nat.succ_pred_eq_of_pos (List.length_pos_of_ne_nil hne)).symm⟩
    obtain ⟨f, rfl⟩ : ∃ f, fuel = f + 1 := ⟨fuel - 1, by omega⟩
    have hempty : s.rest.isEmpty = false := by simpa using hne
    rw [hk, run, run, hempty]
    cases hnext : s.next with
    | error e => rfl
    | ok x =>
      obtain ⟨token, t⟩ := x
      have hlt := length_of_next hne hnext
      have hrun : ∀ n, t.rest.length ≤ n → run n t (token.toList ++ taken) =
          run t.rest.length t (token.toList ++ taken) := fun n hn => ih _ hlt hn rfl
      simp [hrun f (by omega), hrun k (by omega)]

/-! ## From pieces to runs and back -/

lemma run_of_next (hne : s.rest ≠ []) (hnext : s.next = .ok (token, t)) :
    run s.rest.length s taken = run t.rest.length t (token.toList ++ taken) := by
  have hlt := length_of_next hne hnext
  obtain ⟨k, hk⟩ : ∃ k, s.rest.length = k + 1 := ⟨s.rest.length - 1, by omega⟩
  have hempty : s.rest.isEmpty = false := by simpa using hne
  rw [hk, run, hempty, hnext]
  exact run_of_le (by omega)

lemma run_of_skips (hw : Skips w r) (hs : s.rest = w ++ r) :
    run s.rest.length s taken = run r.length (s.skip w.length (w.count '\n')) taken := by
  have hne : s.rest ≠ [] := by simp [hs, hw.ne_nil]
  rw [run_of_next hne (next_of_skips hs hw), rest_skip, hs, List.drop_left]
  rfl

lemma run_of_reads {l : Lexeme} {ts ts' : List Nat} (hs : s.rest = w ++ r)
    (hts : s.templates = ts) (hl : Reads ts w r l ts') :
    run s.rest.length s taken = run r.length (s.behind w l ts') (s.tokenOf w l :: taken) := by
  obtain ⟨c, u, rfl, -⟩ := hl.exists_cons
  have hne : s.rest ≠ [] := by simp [hs]
  rw [run_of_next hne (next_of_reads hs hts hl), behind, hs, List.drop_left]
  rfl

lemma run_of_gap {last : Bool} {g : List Char} (hg : Gap last g) (hr : last = true → r = [])
    (hs : s.rest = g ++ r) :
    run s.rest.length s taken = run r.length (s.skip g.length (g.count '\n')) taken := by
  -- a text that is skipped and the gap behind it
  have hcons : ∀ {s : Scanner} {w g : List Char}, Skips w (g ++ r) → s.rest = w ++ (g ++ r) →
      (∀ {s : Scanner}, s.rest = g ++ r → run s.rest.length s taken =
        run r.length (s.skip g.length (g.count '\n')) taken) →
      run s.rest.length s taken =
        run r.length (s.skip (w ++ g).length ((w ++ g).count '\n')) taken := by
    intro s w g hw hs ih
    have hrest : (s.skip w.length (w.count '\n')).rest = g ++ r := by simp [hs]
    have hrun := ih hrest
    rw [hrest, skip_skip, ← List.length_append, ← List.count_append] at hrun
    rw [run_of_skips hw hs, hrun]
  induction hg generalizing s with
  | nil =>
    rw [List.nil_append] at hs
    rw [List.length_nil, List.count_nil, skip_zero, hs]
  | blank hc hg ih => exact hcons (.blank hc) hs ih
  | line hw hg ih =>
    exact hcons (w := '/' :: '/' :: _) (.line hw (starts_cons.mpr rfl)) (by simp [hs]) ih
  | @lastLine w hlast hw => exact run_of_skips (.line hw (hr hlast ▸ starts_nil _)) hs
  | @block w g hw hg ih =>
    have hsplit : '/' :: '*' :: (w ++ '*' :: '/' :: g) = '/' :: '*' :: (w ++ ['*', '/']) ++ g := by
      simp
    rw [hsplit] at hs ⊢
    exact hcons (.block hw) (by simp [hs]) ih

/-- **What is cut is scanned.** The tokens are those of the pieces. -/
theorem run_of_cuts {ts : List Nat} {cs rest : List Char} {ps : List Piece}
    (h : Cuts ts cs ps rest) (taken : List Token) (hs : s.rest = cs) (hts : s.templates = ts)
    (hnewline : s.newline = false) :
    run s.rest.length s taken =
      (.ok ⟨taken.reverse ++ (layOut rest ps s.offset s.line s.names).1.items,
        (layOut rest ps s.offset s.line s.names).1.finish⟩,
        (layOut rest ps s.offset s.line s.names).2) := by
  induction h generalizing s taken with
  | @done g hg =>
    rw [run_of_gap hg (fun _ => rfl) (hs.trans (List.append_nil g).symm)]
    have hend : s.templates.isEmpty = true := by rw [hts]; rfl
    simp [run, finish, layOut, skip, advance, hend]
  | @read ts ts' g w r l ps rest hg hl hr ih =>
    have hrest : (s.skip g.length (g.count '\n')).rest = w ++ r := by simp [hs]
    have hbehind : ((s.skip g.length (g.count '\n')).behind w l ts').rest = r := by
      rw [behind, hrest, List.drop_left]
    rw [run_of_gap hg (by simp) hs, ← hrest, run_of_reads hrest hts hl, ← hbehind,
      ih _ hbehind rfl rfl]
    simp [behind, tokenOf, layOut, skip, advance, hnewline]

/-- A run that gets to the end has cut the source. -/
lemma cuts_of_run {fuel : Nat} {tokens : Tokens} {names : Names}
    (hfuel : s.rest.length ≤ fuel) (h : run fuel s taken = (.ok tokens, names)) :
    ∃ ps rest, Cuts s.templates s.rest ps rest := by
  have hdone : ∀ {s : Scanner} {taken : List Token}, s.rest = [] → s.finish taken = .ok tokens →
      ∃ ps rest, Cuts s.templates s.rest ps rest := by
    intro s taken hs hfinish
    unfold finish at hfinish
    split at hfinish
    · next hend =>
      rw [List.isEmpty_iff.mp hend, hs]
      exact ⟨[], [], .done .nil⟩
    · cases hfinish
  induction fuel generalizing s taken with
  | zero => exact hdone (List.length_eq_zero_iff.mp (Nat.le_zero.mp hfuel)) (Prod.mk.inj h).1
  | succ fuel ih =>
    by_cases hne : s.rest = []
    · simp only [run, hne, List.isEmpty_nil, if_true, Prod.mk.injEq] at h
      exact hdone hne h.1
    · have hempty : s.rest.isEmpty = false := by simpa using hne
      cases hnext : s.next with
      | error e => simp [run, hempty, hnext] at h
      | ok x =>
        obtain ⟨token, t⟩ := x
        have hlt := length_of_next hne hnext
        simp only [run, hempty, hnext, Bool.false_eq_true, if_false] at h
        obtain ⟨ps, rest, hcuts⟩ := ih (by omega) h
        obtain ⟨w, r, hs, hskips | ⟨l, ts, hreads⟩⟩ := exists_piece hne hnext
        · rw [next_of_skips hs hskips] at hnext
          cases hnext
          rw [rest_skip, hs, List.drop_left] at hcuts
          rw [hs]
          exact hcuts.skip hskips
        · rw [next_of_reads hs rfl hreads] at hnext
          cases hnext
          rw [behind, hs, List.drop_left] at hcuts
          rw [hs]
          exact ⟨_, _, .read .nil hreads hcuts⟩

end Scanner

open Scan

/-- **Scanning is cutting.** A source is scanned if and only if it is ASCII and
can be cut into lexemes with gaps between them, and then the tokens are those of
the pieces. -/
theorem scan_eq_ok_iff {source : String} {names names' : Names} :
    scan source names = (.ok tokens, names') ↔ source.toList.all (·.toNat < 128) = true ∧
      ∃ ps rest, Cuts [] source.toList ps rest ∧ layOut rest ps 0 1 names = (tokens, names') := by
  let s : Scanner := ⟨source.toList, 0, 1, false, [], names⟩
  unfold scan
  dsimp only
  split
  · next hascii =>
    refine ⟨fun h => ?_, ?_⟩
    · obtain ⟨ps, rest, hcuts⟩ := Scanner.cuts_of_run (s := s) .refl h
      have hrun := Scanner.run_of_cuts hcuts [] rfl rfl rfl
      refine ⟨hascii, ps, rest, hcuts, ?_⟩
      cases h.symm.trans hrun
      rfl
    · rintro ⟨-, ps, rest, hcuts, hlay⟩
      have hrun := Scanner.run_of_cuts (s := s) hcuts [] rfl rfl rfl
      rw [show layOut rest ps s.offset s.line s.names = (tokens, names') from hlay] at hrun
      exact hrun
  · next hascii => simp [hascii]

/-- A test that the tokens of a source pass, with what holds of those of every source. -/
lemma exists_scan_and {source : String} {test : Tokens → Prop} [DecidablePred test]
    {P : Tokens → Names → Prop}
    (h : (scan source Numbering.empty).1.toOption.any (fun tokens => decide (test tokens)) = true)
    (hP : ∀ {tokens names'}, scan source Numbering.empty = (.ok tokens, names') → P tokens names') :
    ∃ tokens names', scan source Numbering.empty = (.ok tokens, names') ∧ test tokens ∧
      P tokens names' := by
  obtain ⟨tokens, hok, htest⟩ := Option.any_eq_true _ _ |>.mp h
  rcases hscan : scan source Numbering.empty with ⟨result, names'⟩
  rw [hscan] at hok
  cases result with
  | error e => cases hok
  | ok tokens' =>
    cases hok
    exact ⟨tokens, names', rfl, of_decide_eq_true htest, hP hscan⟩

end ValueFlow
