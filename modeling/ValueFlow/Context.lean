import ValueFlow.Numbering

/-!
# Call strings

A context says how a program point was reached: the most recent call sites,
and what lies beyond them. The analysis keeps at most `m` sites, so that a
recursive program has finitely many contexts.

* `Terminal` is what lies beyond the known sites: nothing at all, something
  cut off by the bound, or any caller of one function.
* `Context.push` enters a call, `Context.truncate` applies the bound.
* `Context.refines` is the order "at least as specific as".
* `Context.render` writes a context with given texts for sites and functions.
-/

namespace ValueFlow

inductive Terminal
  | stackBottom
  /-- The rest was cut off by the bound. -/
  | limit
  | question (function : Nat)
  deriving DecidableEq, Repr

/-- Whether a terminal stands for every continuation of a call string. -/
def Terminal.isOpen : Terminal → Bool
  | .stackBottom => false
  | .limit => true
  | .question _ => true

/-- A call string: call sites, the most recent first, and how it ends. -/
structure Context where
  sites : List Nat
  terminal : Terminal
  deriving DecidableEq, Repr

namespace Context

def stackBottom : Context := ⟨[], .stackBottom⟩

def limit : Context := ⟨[], .limit⟩

def question (function : Nat) : Context := ⟨[], .question function⟩

instance : Inhabited Context := ⟨stackBottom⟩

def frame (site : Nat) (tail : Context) : Context := ⟨site :: tail.sites, tail.terminal⟩

def depth (c : Context) : Nat := c.sites.length

def truncate (c : Context) (m : Nat) : Context :=
  if c.depth ≤ m then c else ⟨c.sites.take m, .limit⟩

/-- Enters a call at `site` from `head`, within the bound `m`. -/
def push (site : Nat) (head : Context) (m : Nat) : Context :=
  (frame site head).truncate m

/-- Compares call strings from the most recent site on. -/
def refinesFrom (a b : Terminal) : List Nat → List Nat → Bool
  | as, [] => b.isOpen || (as = [] ∧ a = b)
  | [], _ :: _ => false
  | s :: as, t :: bs => s = t && refinesFrom a b as bs

/-- Whether `a` is at least as specific as `b`: where `b` ends in an open
terminal it accepts anything, and call sites have to agree. -/
def refines (a b : Context) : Bool :=
  refinesFrom a.terminal b.terminal a.sites b.sites

/-- The written form of a context: its sites and its end, with ` :: ` between. -/
def render (siteText functionText : Nat → String) (c : Context) : String :=
  let ending := match c.terminal with
    | .stackBottom => "()"
    | .limit => "*"
    | .question f => "?" ++ functionText f
  c.sites.foldr (fun s text => siteText s ++ " :: " ++ text) ending

end Context

instance : Fingerprint Terminal where
  fingerprint
    | .stackBottom => 1
    | .limit => 2
    | .question f => f + 3

instance : Fingerprint Context where
  fingerprint c := Fingerprint.mix (fingerprint c.terminal) (fingerprint c.sites)

end ValueFlow
