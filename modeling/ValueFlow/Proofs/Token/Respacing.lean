import ValueFlow.Proofs.Numbering
import ValueFlow.Proofs.Token.Cuts

/-!
# Layout does not matter

What a text is read as depends on the character behind it only as far as the
text could go on with it. A blank goes on with nothing, so the texts of the
tokens of a source, with one blank between any two, are read as the same tokens
again: the comments, the line breaks and the width of the blanks are lost, and
nothing else.
-/

namespace ValueFlow

namespace Scan

variable {c : Char} {w r : List Char} {r' : List Char}

/-! ## Characters that part lexemes -/

/-- Whether a character parts every lexeme before it from what comes: no number,
no name, no punctuator and no comment goes on with it. -/
def isParting (c : Char) : Bool := endsNumber c && !isNamePart c && !isJoint c && c ≠ '/'

structure Parting (c : Char) : Prop where
  number : endsNumber c = true
  name   : isNamePart c = false
  joint  : isJoint c = false
  slash  : c ≠ '/'

lemma Parting.of_isParting (h : isParting c = true) : Parting c := by
  simp only [isParting, Bool.and_eq_true, Bool.not_eq_true', decide_eq_true_eq] at h
  obtain ⟨⟨⟨number, name⟩, joint⟩, slash⟩ := h
  exact ⟨number, name, joint, slash⟩

lemma Parting.star (h : Parting c) : c ≠ '*' := by
  rintro rfl
  exact absurd h.joint (by decide)

lemma Parting.digit (h : Parting c) : c.isDigit = false := (EndsNumber.of_endsNumber h.number).digit

lemma Parting.alpha (h : Parting c) : c.isAlpha = false := (EndsNumber.of_endsNumber h.number).alpha

lemma numberLength_parted (h : numberLength (w ++ r) = w.length) (hr : Starts isParting r') :
    numberLength (w ++ r') = w.length := by
  have hown : numberLength w = w.length := by
    have htake := local_numberLength.take (w ++ r) w.length (Nat.le_of_eq h)
    rwa [List.take_left, h] at htake
  rw [local_numberLength.append w r' (hr.mono fun c hc => (Parting.of_isParting hc).number), hown]

lemma stringBody_parted {q : Char} {b : Body} (h : stringBody q (w ++ r) = some b) (hof : b.Of w)
    (r' : List Char) : stringBody q (w ++ r') = some b := by
  obtain ⟨u, v, heq, hu, hall⟩ := stringBody_spec h
  obtain ⟨rfl, -⟩ := List.append_inj heq (hof.length.symm.trans hu.length)
  exact hall r'

lemma templateBody_parted {b : Body} (h : templateBody (w ++ r) = some b) (hof : b.Of w)
    (r' : List Char) : templateBody (w ++ r') = some b := by
  obtain ⟨u, v, heq, -, hu, hall⟩ := templateBody_spec h
  obtain ⟨rfl, -⟩ := List.append_inj heq (hof.length.symm.trans hu.length)
  exact hall r'

/-- **A lexeme is the same before every text that parts it from what comes.** -/
theorem Reads.parted {ts ts' : List Nat} {l : Lexeme} (h : Reads ts w r l ts')
    (hr : Starts isParting r') : Reads ts w r' l ts' := by
  cases h with
  | word hc hw => exact .word hc hw (hr.mono fun c hc => by simp [(Parting.of_isParting hc).name])
  | number hc hlength =>
    exact .number hc (numberLength_parted hlength hr)
      (hr.mono fun c hc => by simp [(Parting.of_isParting hc).alpha])
  | string hq hb hof => exact .string hq (stringBody_parted hb hof r') hof
  | template hb hof => exact .template (templateBody_parted hb hof r') hof
  | resume hb hof => exact .resume (templateBody_parted hb hof r') hof
  | openBrace => exact .openBrace
  | closeBrace => exact .closeBrace
  | outerBrace => exact .outerBrace
  | @mark _ p _ _ hopen hclose =>
    have hdigit : Starts (fun c => !c.isDigit) r' :=
      hr.mono fun c hc => by simp [(Parting.of_isParting hc).digit]
    have hjoint : Starts (fun c => !isJoint c) r' :=
      hr.mono fun c hc => by simp [(Parting.of_isParting hc).joint]
    have hcomment : Starts (fun c => c ≠ '/' && c ≠ '*') r' :=
      hr.mono fun c hc => by
        simp [(Parting.of_isParting hc).slash, (Parting.of_isParting hc).star]
    exact .mark (punctuator?_text_append p hjoint hdigit) hopen hclose (fun _ => hcomment)
      fun _ => hdigit

/-! ## Other gaps -/

def spaced (ps : List Piece) : List Char := ps.flatMap fun p => ' ' :: p.text

lemma starts_spaced (ps : List Piece) : Starts isParting (spaced ps) := by
  cases ps with
  | nil => exact starts_nil _
  | cons p ps => exact starts_cons.mpr (by decide)

/-- The pieces of a cut text with blanks for their gaps. -/
lemma Cuts.spaced {ts : List Nat} {cs rest : List Char} {ps : List Piece}
    (h : Cuts ts cs ps rest) : Cuts ts (spaced ps) (ps.map ({ · with gap := [' '] })) [] := by
  induction h with
  | done => exact .done .nil
  | @read ts ts' g w r l ps rest hg hl hr ih =>
    exact .read (g := [' ']) (.blank (.inr rfl) .nil) (hl.parted (starts_spaced ps)) ih

lemma intercalate_texts (p : Piece) (ps : List Piece) :
    [' '].intercalate ((p :: ps).map (·.text)) = p.text ++ Scan.spaced ps := by
  induction ps generalizing p with
  | nil => simp [Scan.spaced]
  | cons q ps ih =>
    rw [List.map_cons, List.map_cons, List.intercalate_cons_cons, ← List.map_cons, ih]
    simp [Scan.spaced]

/-- The first gap is empty and the others are single blanks. -/
lemma Cuts.respaced {ts : List Nat} {cs rest : List Char} {ps : List Piece}
    (h : Cuts ts cs ps rest) : ∃ ps' : List Piece,
      Cuts ts ([' '].intercalate (ps.map (·.text))) ps' [] ∧
        ps'.map (·.lexeme) = ps.map (·.lexeme) := by
  cases h with
  | done => exact ⟨[], .done .nil, rfl⟩
  | @read ts ts' g w r l ps rest hg hl hr =>
    refine ⟨⟨[], w, l⟩ :: ps.map ({ · with gap := [' '] }), ?_, ?_⟩
    · rw [intercalate_texts]
      exact .read .nil (hl.parted (starts_spaced ps)) hr.spaced
    · simp

/-! ## Values -/

end Scan

/-- The values of lexemes in a table of names, and the table with all their
texts. -/
def Lexeme.enterAll (names : Names) : List Lexeme → List TokenValue × Names
  | [] => ([], names)
  | l :: ls =>
    let (value, names) := l.enter names
    let (values, names) := enterAll names ls
    (value :: values, names)

namespace Lexeme

/-- Names are only added. -/
lemma extends_enter (names : Names) (l : Lexeme) :
    Numbering.Extends names (l.enter names).2 := by
  cases l with
  | keyword | punct => exact .refl names
  | identifier | number | string | template => exact Numbering.extends_number names _

lemma extends_enterAll (names : Names) (ls : List Lexeme) :
    Numbering.Extends names (enterAll names ls).2 := by
  induction ls generalizing names with
  | nil => exact .refl names
  | cons l ls ih => exact (extends_enter names l).trans (ih _)

end Lexeme

namespace Scan

lemma layOut_values (rest : List Char) (ps : List Piece) (offset line : Nat) (names : Names) :
    ((layOut rest ps offset line names).1.items.map (·.value),
      (layOut rest ps offset line names).2) = Lexeme.enterAll names (ps.map (·.lexeme)) := by
  induction ps generalizing offset line names with
  | nil => rfl
  | cons p ps ih =>
    simp only [List.map_cons, Lexeme.enterAll]
    rw [← ih (offset + p.gap.length + p.text.length) (line + p.gap.count '\n' + p.text.count '\n')]
    rfl

lemma layOut_finish (rest : List Char) (ps : List Piece) (offset line : Nat) (names : Names) :
    (layOut rest ps offset line names).1.finish.value = .endOfFile := by
  induction ps generalizing offset line names with
  | nil => rfl
  | cons p ps ih => exact ih ..

end Scan

open Scan

def Token.slice (t : Token) (cs : List Char) : List Char := (cs.take t.stop).drop t.start

/-- The slices of the tokens of a cut text, which stands behind the text
`before`, are the texts of its pieces. -/
lemma Scan.slices_layOut {ts : List Nat} {cs rest : List Char} {ps : List Piece}
    (h : Cuts ts cs ps rest) (before : List Char) (line : Nat) (names : Names) :
    (layOut rest ps before.length line names).1.items.map (·.slice (before ++ cs)) =
      ps.map (·.text) := by
  induction h generalizing before line names with
  | done => rfl
  | @read ts ts' g w r l ps rest hg hl hr ih =>
    have hrest := ih (before ++ g ++ w) (line + g.count '\n' + w.count '\n') (l.enter names).2
    simp only [List.length_append, List.append_assoc] at hrest
    have hslice : ((before ++ (g ++ (w ++ r))).take (before.length + g.length + w.length)).drop
        (before.length + g.length) = w := by
      rw [← List.append_assoc, ← List.append_assoc, ← List.length_append, ← List.length_append,
        List.take_left, List.drop_left]
    simp only [layOut, List.map_cons, Token.slice, hslice]
    rw [← Nat.add_assoc] at hrest
    exact congrArg _ hrest

/-- The slices of tokens with single blanks between them. -/
def respaced (source : String) (tokens : Tokens) : String :=
  String.ofList ([' '].intercalate (tokens.items.map (·.slice source.toList)))

lemma all_intercalate {test : Char → Bool} (hblank : test ' ' = true) {ws : List (List Char)}
    (h : ∀ w ∈ ws, ∀ c ∈ w, test c = true) : ∀ c ∈ [' '].intercalate ws, test c = true := by
  induction ws with
  | nil => simp
  | cons w ws ih =>
    obtain ⟨hw, hws⟩ := List.forall_mem_cons.mp h
    cases ws with
    | nil => simpa using hw
    | cons v ws =>
      rw [List.intercalate_cons_cons]
      intro c hc
      obtain (hc | hc) | hc := List.mem_append.mp hc |>.imp_left List.mem_append.mp
      · exact hw c hc
      · rw [List.mem_singleton.mp hc, hblank]
      · exact ih hws c hc

lemma ascii_respaced {source : String} (h : source.toList.all (·.toNat < 128) = true)
    (tokens : Tokens) : (respaced source tokens).toList.all (·.toNat < 128) = true := by
  rw [respaced, String.toList_ofList, List.all_eq_true]
  refine all_intercalate (by decide) fun w hw c hc => List.all_eq_true.mp h c ?_
  obtain ⟨t, -, rfl⟩ := List.mem_map.mp hw
  exact List.mem_of_mem_take (List.mem_of_mem_drop hc)

/-- **Scanning is stable under re-spacing.** The slices of the tokens of a
source, joined with single blanks, are scanned, into tokens of the same values
and with the same names. -/
theorem scan_respaced {source : String} {names names' : Names} {tokens : Tokens}
    (h : scan source names = (.ok tokens, names')) :
    ∃ tokens', scan (respaced source tokens) names = (.ok tokens', names') ∧
      tokens'.toList.map (·.value) = tokens.toList.map (·.value) := by
  obtain ⟨hascii, ps, rest, hcuts, hlay⟩ := scan_eq_ok_iff.mp h
  obtain ⟨ps', hcuts', hlexemes⟩ := hcuts.respaced
  have htext : (respaced source tokens).toList = [' '].intercalate (ps.map (·.text)) := by
    rw [respaced, String.toList_ofList, ← slices_layOut hcuts [] 1 names]
    simp only [List.length_nil, List.nil_append, hlay]
  have hvalues := layOut_values rest ps 0 1 names
  have hvalues' := layOut_values [] ps' 0 1 names
  rw [hlexemes, ← hvalues, hlay] at hvalues'
  obtain ⟨hitems, hnames⟩ := Prod.mk.inj hvalues'
  refine ⟨(layOut [] ps' 0 1 names).1, scan_eq_ok_iff.mpr
    ⟨ascii_respaced hascii tokens, ps', [], htext ▸ hcuts', Prod.ext rfl hnames⟩, ?_⟩
  have hfinish : tokens.finish.value = .endOfFile := by
    have hlast := layOut_finish rest ps 0 1 names
    rwa [hlay] at hlast
  simp only [Tokens.toList, List.map_append, List.map_cons, List.map_nil, hitems, hfinish,
    layOut_finish]

/-- The comments and the line feed are gone, and a point stays apart from the
question mark before it. -/
theorem scan_respaced_comments :
    let source := "a?.5:/* b */`c$\x7bd\x7d`//e\n"
    ∃ tokens names', scan source Numbering.empty = (.ok tokens, names') ∧
      respaced source tokens = "a ? .5 : `c$\x7b d \x7d`" ∧
      ∃ tokens', scan (respaced source tokens) Numbering.empty = (.ok tokens', names') ∧
        tokens'.toList.map (·.value) = tokens.toList.map (·.value) := by
  intro source
  exact exists_scan_and (by decide +kernel) scan_respaced

end ValueFlow
