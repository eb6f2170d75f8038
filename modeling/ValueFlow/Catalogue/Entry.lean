import ValueFlow.Catalogue.Kind
import ValueFlow.Text.Quoted

/-!
# Builtins

An entry describes one builtin of the standard library by what the analysis
takes for its results, in place of code. How a builtin is reached is its
*shape*; how it behaves is said by *summaries*:

* the result of a call;
* the named properties, the elements, and the awaited value of what a call
  produces;
* the arguments that the builtin passes to a callback.

A summary names its behaviour, and the rules of the analysis say what the
behaviour comes to. A value that a builtin produces is represented by the
call or `new` expression that produces it, so the property, element and
promise summaries of an entry describe that expression.
-/

namespace ValueFlow

/-- How a builtin is reached from code. -/
inductive Shape
  | global (name : String)
  /-- A member of a global object, `JSON.parse(s)`. The name `*` stands for
  every member that has no entry of its own. -/
  | static (owner name : String)
  | constructor (name : String)
  /-- A method or getter of a kind of value, `[].map(f)`. -/
  | method (kind : Kind) (name : String)
  deriving DecidableEq, Repr

namespace Shape

/-- The last name of a shape, the key of the index of a catalogue. -/
def name : Shape → String
  | global name => name
  | static _ name => name
  | constructor name => name
  | method _ name => name

/-- The written form of a shape. -/
def render : Shape → String
  | global name => name
  | static owner name => owner ++ "." ++ name
  | constructor name => "new " ++ name
  | method kind name => kind.text ++ "#" ++ name

/-- A shape with its sort spelled out. -/
def detail : Shape → String
  | global name => "Global(" ++ Quoted.encode name ++ ")"
  | static owner name => "Static(" ++ Quoted.encode owner ++ ", " ++ Quoted.encode name ++ ")"
  | constructor name => "Constructor(" ++ Quoted.encode name ++ ")"
  | method kind name => "Method(" ++ kind.text ++ ", " ++ Quoted.encode name ++ ")"

end Shape

inductive CallSummary
  | nothing
  /-- A value from outside of the program. -/
  | external
  | receiver
  | receiverElement
  /-- What a reduction comes to: a result of the callback or the start value. -/
  | reduction
  | firstArgument
  /-- Any value stored in the map the method is called on. -/
  | storedValue
  deriving DecidableEq, Repr

inductive PropertySummary
  | errorMessage
  deriving DecidableEq, Repr

/-- The elements of what a builtin produces. -/
inductive ElementSummary
  | external
  /-- What the first argument, a callback, returns. -/
  | callbackResults
  /-- The elements of the object the method is called on. -/
  | receiverElements
  | concatenation
  | flattened
  | converted
  | arguments
  | argumentElements
  | settledElements
  /-- The values stored in the map the method is called on. -/
  | storedValues
  deriving DecidableEq, Repr

/-- What awaiting the promise that a builtin produces comes to. -/
inductive ResolvedSummary
  | nothing
  | firstArgument
  /-- The promise itself stands for its settled value. -/
  | itself
  | anyElement
  /-- What the executor passes to its first parameter. -/
  | executorArguments
  | continuation
  | recovery
  /-- The awaited receiver. -/
  | receiver
  deriving DecidableEq, Repr

/-- What a builtin passes to the parameters of a callback. -/
inductive BinderSummary
  | external
  | iteration
  | reduction
  | receiverElements
  /-- The elements of the first argument, to a callback in second place. -/
  | conversion
  /-- The awaited receiver. -/
  | settled
  | mapIteration
  | setIteration
  deriving DecidableEq, Repr

structure Entry where
  shape : Shape
  /-- The kind of the values that the builtin constructs, if it does. -/
  produces : Option Kind := none
  /-- Whether the builtin is read as a property and not called. -/
  getter : Bool := false
  call : Option CallSummary := none
  property : Option PropertySummary := none
  element : Option ElementSummary := none
  resolved : Option ResolvedSummary := none
  binder : Option BinderSummary := none
  deriving DecidableEq, Repr

namespace Entry

def summaries (e : Entry) : List String :=
  (if e.call.isSome then ["call"] else []) ++
  (if e.property.isSome then ["property"] else []) ++
  (if e.element.isSome then ["element"] else []) ++
  (if e.resolved.isSome then ["resolved"] else []) ++
  (if e.binder.isSome then ["binder"] else [])

/-- An entry in detail, but for its summaries. -/
def detail (e : Entry) : String :=
  let produces := match e.produces with
    | some kind => "Some(" ++ kind.text ++ ")"
    | none => "None"
  "Entry \x7b shape: " ++ e.shape.detail ++ ", produces: " ++ produces ++ ", getter: " ++
    toString e.getter ++ ", .. \x7d"

end Entry

end ValueFlow
