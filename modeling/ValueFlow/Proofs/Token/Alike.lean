import Mathlib.Data.List.Forall2
import ValueFlow.Proofs.Token.Respacing
import ValueFlow.Proofs.Token.Tiling

/-!
# Tokens and tables of names

A source is scanned into the same tokens with any table of names: only the numbers
of the symbols differ, and they stand for the same names.
-/

namespace ValueFlow

variable {names : Names} {source : String} {tokens : Tokens} {names' : Names}

def TokenValue.symbol? : TokenValue → Option Symbol
  | .identifier s | .number s | .string s | .template _ s => some s
  | .keyword _ | .punct _ | .endOfFile => none

def Tokens.Named (tokens : Tokens) (names : Names) : Prop :=
  ∀ t ∈ tokens.items, ∀ symbol, t.value.symbol? = some symbol →
    ∃ text, names.get? symbol = some text

/-- Both symbols stand for one name. -/
def Names.Agree (names names' : Names) (s s' : Symbol) : Prop :=
  ∃ text, names.get? s = some text ∧ names'.get? s' = some text

/-- Two values that say the same, each with the symbols of its table. -/
inductive TokenValue.Alike (names names' : Names) : TokenValue → TokenValue → Prop
  | identifier {s s' : Symbol} (h : names.Agree names' s s') :
      Alike names names' (.identifier s) (.identifier s')
  | number {s s' : Symbol} (h : names.Agree names' s s') :
      Alike names names' (.number s) (.number s')
  | string {s s' : Symbol} (h : names.Agree names' s s') :
      Alike names names' (.string s) (.string s')
  | template (part : TemplatePart) {s s' : Symbol} (h : names.Agree names' s s') :
      Alike names names' (.template part s) (.template part s')
  | keyword (word : Keyword) : Alike names names' (.keyword word) (.keyword word)
  | punct (mark : Punctuator) : Alike names names' (.punct mark) (.punct mark)
  | endOfFile : Alike names names' .endOfFile .endOfFile

/-- Two tokens that stand at the same place and say the same. -/
structure Token.Alike (names names' : Names) (t t' : Token) : Prop where
  value   : t.value.Alike names names' t'.value
  line    : t.line = t'.line
  start   : t.start = t'.start
  stop    : t.stop = t'.stop
  newline : t.newlineBefore = t'.newlineBefore

/-- A token is like itself if its symbol stands for a name. -/
lemma Token.alike_self {t : Token}
    (h : ∀ symbol, t.value.symbol? = some symbol → ∃ text, names.get? symbol = some text) :
    t.Alike names names t := by
  have hagree : ∀ symbol, t.value.symbol? = some symbol → names.Agree names symbol symbol := by
    intro symbol hsymbol
    obtain ⟨text, htext⟩ := h symbol hsymbol
    exact ⟨text, htext, htext⟩
  refine ⟨?_, rfl, rfl, rfl, rfl⟩
  generalize t.value = v at hagree
  cases v with
  | identifier s => exact .identifier (hagree s rfl)
  | number s => exact .number (hagree s rfl)
  | string s => exact .string (hagree s rfl)
  | template part s => exact .template part (hagree s rfl)
  | keyword word => exact .keyword word
  | punct mark => exact .punct mark
  | endOfFile => exact .endOfFile

section Extend

variable {names names' later later' : Names} (h : Numbering.Extends names later)
  (h' : Numbering.Extends names' later')
include h h'

lemma Names.Agree.extend {s s' : Symbol} (hs : names.Agree names' s s') :
    later.Agree later' s s' := by
  obtain ⟨text, hget, hget'⟩ := hs
  exact ⟨text, h s text hget, h' s' text hget'⟩

lemma TokenValue.Alike.extend {v v' : TokenValue} (hv : v.Alike names names' v') :
    v.Alike later later' v' := by
  cases hv with
  | identifier hs => exact .identifier (hs.extend h h')
  | number hs => exact .number (hs.extend h h')
  | string hs => exact .string (hs.extend h h')
  | template part hs => exact .template part (hs.extend h h')
  | keyword word => exact .keyword word
  | punct mark => exact .punct mark
  | endOfFile => exact .endOfFile

lemma Token.Alike.extend {t t' : Token} (ht : t.Alike names names' t') :
    t.Alike later later' t' :=
  { ht with value := ht.value.extend h h' }

end Extend

/-- A lexeme has alike values in all tables. -/
lemma Lexeme.alike_enter (names names' : Names) (l : Lexeme) :
    (l.enter names).1.Alike (l.enter names).2 (l.enter names').2 (l.enter names').1 := by
  have hagree : ∀ text : String, Names.Agree (names.number text).2 (names'.number text).2
      (names.number text).1 (names'.number text).1 := fun text =>
    ⟨text, Numbering.get?_number names text, Numbering.get?_number names' text⟩
  cases l with
  | identifier name => exact .identifier (hagree _)
  | number text => exact .number (hagree _)
  | string content => exact .string (hagree _)
  | template part content => exact .template part (hagree _)
  | keyword word => exact .keyword word
  | punct mark => exact .punct mark

namespace Scan

lemma extends_layOut (rest : List Char) (ps : List Piece) (offset line : Nat) (names : Names) :
    Numbering.Extends names (layOut rest ps offset line names).2 := by
  have hvalues := congrArg Prod.snd (layOut_values rest ps offset line names)
  rw [show (layOut rest ps offset line names).2 = _ from hvalues]
  exact Lexeme.extends_enterAll names _

lemma layOut_alike (rest : List Char) (ps : List Piece) (offset line : Nat)
    (names names' : Names) :
    let laid := layOut rest ps offset line names
    let laid' := layOut rest ps offset line names'
    List.Forall₂ (Token.Alike laid.2 laid'.2) laid.1.items laid'.1.items ∧
      laid.1.finish = laid'.1.finish := by
  induction ps generalizing offset line names names' with
  | nil => exact ⟨.nil, rfl⟩
  | cons p ps ih =>
    obtain ⟨hitems, hfinish⟩ := ih (offset + p.gap.length + p.text.length)
      (line + p.gap.count '\n' + p.text.count '\n') (p.lexeme.enter names).2
      (p.lexeme.enter names').2
    refine ⟨.cons ⟨?_, rfl, rfl, rfl, rfl⟩ hitems, hfinish⟩
    exact (p.lexeme.alike_enter names names').extend (extends_layOut _ _ _ _ _)
      (extends_layOut _ _ _ _ _)

end Scan

open Scan

/-- **Scanning does not depend on the table of names.** A source that is scanned with one
table is scanned with every table, into tokens that are alike. -/
theorem scan_of_scan {later : Names} (h : scan source names = (.ok tokens, later)) (names' : Names) :
    ∃ tokens' later', scan source names' = (.ok tokens', later') ∧
      List.Forall₂ (Token.Alike later later') tokens.items tokens'.items ∧
      tokens.finish = tokens'.finish := by
  obtain ⟨hascii, ps, rest, hcuts, hlay⟩ := scan_eq_ok_iff.mp h
  obtain ⟨hitems, hfinish⟩ := layOut_alike rest ps 0 1 names names'
  rw [hlay] at hitems hfinish
  exact ⟨_, _, scan_eq_ok_iff.mpr ⟨hascii, ps, rest, hcuts, rfl⟩, hitems, hfinish⟩

lemma TokenValue.Alike.exists_text {v v' : TokenValue} {symbol : Symbol}
    (h : v.Alike names names' v') (hsymbol : v.symbol? = some symbol) :
    ∃ text, names.get? symbol = some text := by
  cases h with
  | identifier hs | number hs | string hs | template part hs =>
    cases hsymbol
    obtain ⟨text, htext, -⟩ := hs
    exact ⟨text, htext⟩
  | keyword | punct | endOfFile => cases hsymbol

lemma named_of_scan (h : scan source names = (.ok tokens, names')) : tokens.Named names' := by
  obtain ⟨tokens', later', hscan, hitems, -⟩ := scan_of_scan h names
  exact ((List.forall₂_and_left _ _).mp (hitems.imp fun t t' h =>
    ⟨fun symbol hsymbol => h.value.exists_text hsymbol, h⟩)).1

end ValueFlow
