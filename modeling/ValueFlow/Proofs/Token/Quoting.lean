import ValueFlow.Proofs.Numbering
import ValueFlow.Proofs.Token.Cuts

/-!
# Texts in quotes

Every text can be written in each of the three quotes: what cannot stand for
itself is written with a backslash. Such a literal is read as one token, and its
content is the text.
-/

namespace ValueFlow

inductive Quote
  | single
  | double
  | template
  deriving DecidableEq, Repr

namespace Quote

open Scan

variable {c d : Char} (q : Quote) (text : List Char)

def mark : Quote → Char
  | single => '\x27'
  | double => '\x22'
  | template => '\x60'

/-- What stands behind the backslash for a character that cannot stand for
itself. -/
def escape? (q : Quote) (c : Char) : Option Char :=
  if c = '\n' then some 'n'
  else if c = '\r' then some 'r'
  else if c = '\t' then some 't'
  else if c = '\x00' then some '0'
  else if c = '\\' ∨ c = q.mark ∨ q = template ∧ c = '$' then some c
  else none

def spell (q : Quote) (c : Char) : List Char :=
  match q.escape? c with
  | some d => ['\\', d]
  | none => [c]

/-- What is written behind the opening quote. -/
def spelled (q : Quote) (text : List Char) : List Char := text.flatMap q.spell ++ [q.mark]

def literal (q : Quote) (s : String) : String := String.ofList (q.mark :: q.spelled s.toList)

def lexeme : Quote → List Char → Lexeme
  | template => .template .whole
  | _ => .string

def value : Quote → Symbol → TokenValue
  | template => .template .whole
  | _ => .string

/-- How the scanner reads on behind the opening quote. -/
def body? : Quote → List Char → Option Body
  | template => templateBody
  | q => stringBody q.mark

lemma enter_lexeme (s : String) (names : Names) :
    (q.lexeme s.toList).enter names = (names.number s).map q.value id := by
  cases q <;> simp [lexeme, Lexeme.enter, value, String.ofList_toList]

lemma escape?_spec {q : Quote} (h : q.escape? c = some d) :
    unescape d = [c] ∧ d ≠ '\n' ∧ (c.toNat < 128 → d.toNat < 128) := by
  unfold escape? at h
  split_ifs at h with hn hr ht h0 hself <;> cases h
  · exact ⟨by rw [hn]; rfl, by decide, fun _ => by decide⟩
  · exact ⟨by rw [hr]; rfl, by decide, fun _ => by decide⟩
  · exact ⟨by rw [ht]; rfl, by decide, fun _ => by decide⟩
  · exact ⟨by rw [h0]; rfl, by decide, fun _ => by decide⟩
  · refine ⟨?_, hn, id⟩
    rcases hself with rfl | rfl | ⟨-, rfl⟩
    · rfl
    · cases q <;> rfl
    · rfl

lemma of_escape?_eq_none {q : Quote} (h : q.escape? c = none) :
    c ≠ '\n' ∧ c ≠ '\\' ∧ c ≠ q.mark ∧ (q = template → c ≠ '$') := by
  unfold escape? at h
  split_ifs at h with hn hr ht h0 hself
  simp only [not_or, not_and] at hself
  exact ⟨hn, hself⟩

/-- Nothing is written over more than one line. -/
lemma of_mem_spell {q : Quote} (h : d ∈ q.spell c) :
    d ≠ '\n' ∧ (c.toNat < 128 → d.toNat < 128) := by
  unfold spell at h
  cases hc : q.escape? c with
  | some e =>
    rw [hc, List.mem_cons, List.mem_singleton] at h
    rcases h with rfl | rfl
    · exact ⟨by decide, fun _ => by decide⟩
    · exact (escape?_spec hc).2
  | none =>
    rw [hc, List.mem_singleton] at h
    rw [h]
    exact ⟨(of_escape?_eq_none hc).1, id⟩

lemma mark_spec : q.mark ≠ '\n' ∧ q.mark.toNat < 128 := by cases q <;> decide

lemma count_spelled : (q.spelled text).count '\n' = 0 := by
  rw [List.count_eq_zero, spelled]
  intro h
  rcases List.mem_append.mp h with h | h
  · obtain ⟨c, -, hc⟩ := List.mem_flatMap.mp h
    exact (of_mem_spell hc).1 rfl
  · exact q.mark_spec.1 (List.mem_singleton.mp h).symm

/-- The scanner reads one character of the text. -/
lemma body?_spell (c : Char) (rest : List Char) :
    q.body? (q.spell c ++ rest) = (q.body? rest).map (·.after [c] (q.spell c).length 0) := by
  unfold spell
  cases h : q.escape? c with
  | some d =>
    obtain ⟨hc, hfeed, -⟩ := escape?_spec h
    have hfeeds : lineFeedsOf d = 0 := if_neg hfeed
    rw [← hc, ← hfeeds]
    cases q <;> rfl
  | none =>
    obtain ⟨hfeed, hslash, hmark, hdollar⟩ := of_escape?_eq_none h
    have hfeeds : lineFeedsOf c = 0 := if_neg hfeed
    cases q with
    | single | double => exact (stringBody_plain hfeed hslash rest).trans (if_neg hmark)
    | template =>
      rw [← hfeeds]
      exact (templateBody_plain hslash fun hc => absurd hc (hdollar rfl)).trans (if_neg hmark)

/-- The scanner reads the whole text. -/
lemma exists_body_spelled :
    ∃ b, q.body? (q.spelled text) = some b ∧ b.content = text ∧ b.opensSubstitution = false ∧
      b.length = (q.spelled text).length ∧ b.lineFeeds = 0 := by
  induction text with
  | nil =>
    refine ⟨⟨[], 1, 0, false⟩, ?_, rfl, rfl, rfl, rfl⟩
    cases q <;> rfl
  | cons c text ih =>
    obtain ⟨b, hb, hcontent, hends, hlength, hfeeds⟩ := ih
    have hcons : q.spelled (c :: text) = q.spell c ++ q.spelled text := by simp [spelled]
    rw [hcons, body?_spell, hb]
    refine ⟨_, rfl, ?_, hends, ?_, ?_⟩
    · simp [Body.after, hcontent]
    · simp [Body.after, hlength]
    · simp [Body.after, hfeeds]

lemma reads_literal : Reads [] (q.mark :: q.spelled text) [] (q.lexeme text) [] := by
  obtain ⟨b, hb, rfl, hends, hlength, hfeeds⟩ := q.exists_body_spelled text
  have hof : b.Of (q.spelled b.content) := ⟨hlength, hfeeds.trans (q.count_spelled _).symm⟩
  rw [← List.append_nil (q.spelled _)] at hb
  cases q with
  | single => exact .string (.inr rfl) hb hof
  | double => exact .string (.inl rfl) hb hof
  | template =>
    have hread : Reads [] _ [] _ _ := .template hb hof
    simp only [Lexeme.ofBody, entered, hends, Bool.false_eq_true, if_false] at hread
    exact hread

end Quote

open Scan in
/-- **Texts in quotes round trip.** Every text of ASCII characters is the content of its
literal in each of the quotes: the literal is one token, and the name of its symbol is
the text, whatever names are in the table before. -/
theorem scan_literal (q : Quote) (s : String) (hs : s.toList.all (·.toNat < 128) = true)
    (names : Names) :
    ∃ symbol names', scan (q.literal s) names = (.ok ⟨[⟨q.value symbol, 1, 0,
        (q.literal s).length, false⟩], ⟨.endOfFile, 1, (q.literal s).length,
        (q.literal s).length, true⟩⟩, names') ∧
      names'.get? symbol = some s ∧ names.Extends names' := by
  refine ⟨(names.number s).1, (names.number s).2, ?_, Numbering.get?_number names s,
    Numbering.extends_number names s⟩
  have hlist : (q.literal s).toList = q.mark :: q.spelled s.toList := String.toList_ofList
  refine scan_eq_ok_iff.mpr ⟨?_, [⟨[], q.mark :: q.spelled s.toList, q.lexeme s.toList⟩], [],
    ?_, ?_⟩
  · rw [hlist, List.all_cons, Quote.spelled, List.all_append]
    simp [q.mark_spec.2]
    intro c hc d hd
    exact (Quote.of_mem_spell hd).2 (by simpa using List.all_eq_true.mp hs c hc)
  · rw [hlist]
    simpa using Cuts.read .nil (q.reads_literal s.toList) (.done .nil)
  · have hfeeds : (q.mark :: q.spelled s.toList).count '\n' = 0 := by
      rw [List.count_cons_of_ne q.mark_spec.1, q.count_spelled]
    have hlength : (q.mark :: q.spelled s.toList).length = (q.literal s).length := by
      rw [← hlist, String.length_toList]
    simp [layOut, q.enter_lexeme, hfeeds, hlength]

/-- The start of a substitution, a line feed and a closing quote, in a table that has
another name. -/
theorem scan_literal_of_template :
    let s := "$\x7b\n\x60"
    s.toList.all (·.toNat < 128) = true ∧
      Quote.template.literal s = "\x60\\$\x7b\\n\\\x60\x60" ∧
      ∃ symbol names', scan (Quote.template.literal s) (Numbering.empty.number "n").2 =
          (.ok ⟨[⟨.template .whole symbol, 1, 0, 9, false⟩], ⟨.endOfFile, 1, 9, 9, true⟩⟩, names') ∧
        names'.get? symbol = some s ∧ (Numbering.empty.number "n").2.Extends names' := by
  refine ⟨by decide, by decide, ?_⟩
  exact scan_literal .template "$\x7b\n\x60" (by decide) _

end ValueFlow
