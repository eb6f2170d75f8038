import ValueFlow.Ast.Tree
import ValueFlow.Sort
import ValueFlow.Text.Lines

/-!
# The arena of a program

All the constructs of all the modules of a program, numbered. The parts of a
construct are numbered from left to right and before the construct, and the
modules one after the other, so a part always has a smaller number than the
whole. The analysis speaks of constructs by their numbers only.

Besides its form a node knows its module, its text, its parent and the
functions around it. `Arena.addModule` is the only way to build an arena.
-/

namespace ValueFlow

abbrev NodeId := Nat

abbrev ModuleId := Nat

/-- A construct whose parts are nodes of the same arena. -/
structure Node where
  form : Form NodeId
  home : ModuleId
  span : Span
  parent : Option NodeId
  function : Option NodeId
  /-- How many functions are strictly around the node. -/
  depth : Nat
  deriving Repr

instance : Inhabited Node := ⟨⟨.empty, 0, ⟨0, 0, 0⟩, none, none, 0⟩⟩

structure SourceModule where
  path : String
  lines : Lines
  root : NodeId

instance : Inhabited SourceModule := ⟨⟨"", Lines.ofText "", 0⟩⟩

structure Arena where
  nodes : Array Node
  modules : Array SourceModule

namespace Arena

def empty : Arena := ⟨#[], #[]⟩

instance : Inhabited Arena := ⟨empty⟩

/-! ## Building -/

/-- Appends a construct whose parts are numbered already. -/
def appendNode (home : ModuleId) (span : Span) (form : Form NodeId) :
    StateM (Array Node) NodeId := fun nodes =>
  (nodes.size, nodes.push ⟨form, home, span, none, none, 0⟩)

/-- Tells the parts of the node `n` what is around them. -/
def linkChildren (nodes : Array Node) (n : NodeId) : Array Node :=
  let node := nodes.getD n default
  let (function, depth) :=
    if node.form.isFunction then (some n, node.depth + 1) else (node.function, node.depth)
  node.form.children.foldl (fun nodes child =>
    nodes.modify child fun c => { c with parent := some n, function, depth }) nodes

/-- Links the nodes from `first` on. Wholes come after their parts, so from
the last node down every node is linked before its parts are. -/
def link (nodes : Array Node) (first : NodeId) : Array Node :=
  (List.range' first (nodes.size - first)).reverse.foldl linkChildren nodes

/-- Adds the tree of one more module. -/
def addModule (a : Arena) (path source : String) (tree : Tree) : Arena :=
  let (root, nodes) := (tree.foldM (appendNode a.modules.size)).run a.nodes
  ⟨link nodes a.nodes.size, a.modules.push ⟨path, Lines.ofText source, root⟩⟩

/-! ## Looking around -/

variable (a : Arena)

def size : Nat := a.nodes.size

def node? (n : NodeId) : Option Node := a.nodes[n]?

def node (n : NodeId) : Node := a.nodes.getD n default

def form (n : NodeId) : Form NodeId := (a.node n).form

def parent? (n : NodeId) : Option NodeId := (a.node n).parent

def depth (n : NodeId) : Nat := (a.node n).depth

def children (n : NodeId) : List NodeId := (a.form n).children

def isFunction (n : NodeId) : Bool := (a.form n).isFunction

def isCall (n : NodeId) : Bool := (a.form n).callParts?.isSome

def nodeIds : List NodeId := List.range a.size

def moduleOf (n : NodeId) : SourceModule := a.modules.getD (a.node n).home default

/-- The nodes around `n`, innermost first. Every parent has a greater number,
so as many steps as there are nodes are enough. -/
def ancestorsFrom : Nat → NodeId → List NodeId
  | 0, _ => []
  | fuel + 1, n =>
    match a.parent? n with
    | some p => p :: ancestorsFrom fuel p
    | none => []

def ancestors (n : NodeId) : List NodeId := a.ancestorsFrom a.size n

/-- All the nodes under `n` and `n` itself, in source order. Parts have
smaller numbers, so `n + 1` levels are enough. -/
def descendantsFrom : Nat → NodeId → List NodeId
  | 0, _ => []
  | fuel + 1, n => n :: (a.children n).flatMap (descendantsFrom fuel)

def descendants (n : NodeId) : List NodeId := a.descendantsFrom (n + 1) n

def localFrom : Nat → NodeId → List NodeId
  | 0, _ => []
  | fuel + 1, n =>
    if a.isFunction n then [n] else n :: (a.children n).flatMap (localFrom fuel)

/-- The nodes under `n` and `n` itself, in source order, without what is
inside functions nested in `n`. The nested functions themselves are listed. -/
def localDescendants (n : NodeId) : List NodeId := n :: (a.children n).flatMap (a.localFrom n)

def returnedValues (n : NodeId) : List NodeId :=
  match a.form n with
  | .function _ _ body flags =>
    if flags.expressionBody then [body]
    else (a.localDescendants body).filterMap fun d =>
      match a.form d with
      | .returnStmt value => value
      | _ => none
  | _ => []

/-- The name a function can be referred to by: its own, or that of the
variable or property it is directly stored in. -/
def functionName? (n : NodeId) : Option Symbol :=
  match a.form n with
  | .function (some name) _ _ _ => (a.form name).name?
  | _ => do
    match a.form (← a.parent? n) with
    | .declarator target _ => (a.form target).name?
    | .property (.named key) _ _ => some key
    | .assign _ target _ =>
      match a.form target with
      | .member _ property _ => some property
      | form => form.name?
    | _ => none

def calleeOf? (n : NodeId) : Option NodeId := do
  let p ← a.parent? n
  let (callee, _) ← (a.form p).callParts?
  if callee = n then some p else none

def argumentOf? (n : NodeId) : Option (NodeId × Nat) := do
  let p ← a.parent? n
  let (_, arguments) ← (a.form p).callParts?
  let position ← arguments.findIdx? (· = n)
  return (p, position)

/-- The bindings of a pattern, in source order. -/
def patternBindingsFrom : Nat → NodeId → List NodeId
  | 0, _ => []
  | fuel + 1, n =>
    match a.form n with
    | .binding _ => [n]
    | .objectPattern properties => properties.flatMap (patternBindingsFrom fuel)
    | .arrayPattern elements => (elements.filterMap id).flatMap (patternBindingsFrom fuel)
    | .property _ value _ => patternBindingsFrom fuel value
    | .assignPattern target _ => patternBindingsFrom fuel target
    | .rest argument => patternBindingsFrom fuel argument
    | _ => []

def patternBindings (n : NodeId) : List NodeId := a.patternBindingsFrom (n + 1) n

/-! ## Texts -/

def text (n : NodeId) : List Char :=
  let span := (a.node n).span
  (slice? (a.moduleOf n).lines.text span.start span.stop).getD []

def location (n : NodeId) : Location := (a.moduleOf n).lines.location (a.node n).span.start

/-- The blanks of a source text. Sources are ASCII. -/
def isSpace (c : Char) : Bool := c = ' ' || (9 ≤ c.toNat && c.toNat ≤ 13)

/-- One blank for each run of blanks, none at the ends. -/
def collapse (cs : List Char) : List Char :=
  match cs.dropWhile isSpace with
  | [] => []
  | cs => collapseFrom false cs
where
  collapseFrom (blank : Bool) : List Char → List Char
    | [] => []
    | c :: cs =>
      if isSpace c then collapseFrom true cs
      else if blank then ' ' :: c :: collapseFrom false cs
      else c :: collapseFrom false cs

def shorten (cs : List Char) : String :=
  let cs := collapse cs
  if cs.length > 48 then String.ofList (cs.take 45) ++ "..." else String.ofList cs

/-- A rendering of a node on one line. -/
def label (n : NodeId) : String := shorten (a.text n)

def nodesWithText (home : ModuleId) (text : String) : List NodeId :=
  let found := a.nodeIds.filter fun n => (a.node n).home = home && a.text n = text.toList
  let innermost := found.filter fun n => found.all fun other =>
    (a.node other).span.start ≠ (a.node n).span.start ||
      (a.ancestors other).length ≤ (a.ancestors n).length
  sortBy (fun m n => (a.node m).span.start ≤ (a.node n).span.start) innermost

end Arena

end ValueFlow
