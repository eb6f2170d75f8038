import ValueFlow.Context

/-!
# Arenas of contexts

An arena holds call strings that share their tails. Each context has a number, and a
frame is a call site and the number of the context that it extends. Contexts are
numbered in the order they are first made, so a frame comes after its tail, and walking
down a call string is recursion on numbers. The ends without a caller and beyond the
bound have the numbers `0` and `1` in every arena.

* `depth`, `terminal` and `sites` walk down a call string.
* `truncate` and `push` make contexts within a bound, from the most recent site on.
* `refines` compares two call strings, up to where they share a context.
* `context` is the view: the call string that a number stands for.
-/

namespace ValueFlow

/-- One context of an arena: an end, or a call site and the context below it. -/
inductive Link
  | ending (terminal : Terminal)
  | frame (site tail : Nat)
  deriving DecidableEq, Repr

instance : Fingerprint Link where
  fingerprint
    | .ending terminal => Fingerprint.mix 1 (fingerprint terminal)
    | .frame site tail => Fingerprint.mix (Fingerprint.mix 2 site) tail

/-- Contexts by number. -/
abbrev ContextArena := Numbering Link

namespace ContextArena

def initial : ContextArena := .ofList [.ending .stackBottom, .ending .limit]

def stackBottom : Nat := 0

def limit : Nat := 1

def question (a : ContextArena) (function : Nat) : Nat × ContextArena :=
  a.number (.ending (.question function))

def frame (a : ContextArena) (site tail : Nat) : Nat × ContextArena := a.number (.frame site tail)

/-- The call site and the tail of a frame. -/
def frame? (a : ContextArena) (i : Nat) : Option (Nat × { tail : Nat // tail < i }) :=
  match a.get? i with
  | some (.frame site tail) => if h : tail < i then some (site, ⟨tail, h⟩) else none
  | _ => none

/-- The number of call sites. -/
def depth (a : ContextArena) (i : Nat) : Nat :=
  match a.frame? i with
  | some (_, tail) => a.depth tail + 1
  | none => 0
termination_by i
decreasing_by exact tail.2

/-- The context at the end. -/
def terminal (a : ContextArena) (i : Nat) : Nat :=
  match a.frame? i with
  | some (_, tail) => a.terminal tail
  | none => i
termination_by i
decreasing_by exact tail.2

/-- The call sites, the most recent first. -/
def sites (a : ContextArena) (i : Nat) : List Nat :=
  match a.frame? i with
  | some (site, tail) => site :: a.sites tail
  | none => []
termination_by i
decreasing_by exact tail.2

/-- Keeps at most `m` call sites, and the end of what is not cut off. -/
def truncate (a : ContextArena) (i m : Nat) : Nat × ContextArena :=
  match a.get? i with
  | some (.frame site tail) =>
    match m with
    | 0 => (limit, a)
    | m + 1 =>
      let (tail, a) := a.truncate tail m
      a.frame site tail
  | _ => (i, a)

/-- Enters a call at `site` from `head`, within the bound `m`. -/
def push (a : ContextArena) (site head : Nat) : Nat → Nat × ContextArena
  | 0 => (limit, a)
  | m + 1 =>
    let (tail, a) := a.truncate head m
    a.frame site tail

def isOpen (a : ContextArena) (i : Nat) : Bool :=
  match a.get? i with
  | some (.ending terminal) => terminal.isOpen
  | _ => false

/-- Whether the context `i` is at least as specific as `j`. -/
def refines (a : ContextArena) (i j : Nat) : Bool :=
  if i = j || a.isOpen j then
    true
  else
    match a.frame? i, a.frame? j with
    | some (s, i), some (t, j) => s = t && a.refines i j
    | _, _ => false
termination_by i
decreasing_by exact i.2

/-- The call string that a number stands for. -/
def context (a : ContextArena) (i : Nat) : Context where
  sites := a.sites i
  terminal :=
    match a.get? (a.terminal i) with
    | some (.ending terminal) => terminal
    | _ => .stackBottom

/-- Makes a call string, its oldest site first. -/
def ofSites (terminal : Terminal) : List Nat → ContextArena → Nat × ContextArena
  | [], a => a.number (.ending terminal)
  | site :: sites, a =>
    let (tail, a) := ofSites terminal sites a
    a.frame site tail

/-- Makes call strings one after the other, the last of the list first. -/
def ofContexts : List Context → ContextArena → List Nat × ContextArena
  | [], a => ([], a)
  | c :: cs, a =>
    let (ids, a) := ofContexts cs a
    let (i, a) := a.ofSites c.terminal c.sites
    (i :: ids, a)

end ContextArena

end ValueFlow
