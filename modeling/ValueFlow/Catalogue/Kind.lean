/-!
# Kinds of values

The sorts of values that builtin methods are looked up on.
-/

namespace ValueFlow

inductive Kind
  | array | string | number | boolean | object | function | promise | map | set | date | error
  | regExp
  /-- A global object that serves only as a namespace, like `JSON`. -/
  | globalObject
  deriving DecidableEq, Repr

namespace Kind

def text : Kind → String
  | array => "Array"
  | string => "String"
  | number => "Number"
  | boolean => "Boolean"
  | object => "Object"
  | function => "Function"
  | promise => "Promise"
  | map => "Map"
  | set => "Set"
  | date => "Date"
  | error => "Error"
  | regExp => "RegExp"
  | globalObject => "Namespace"

def all : List Kind :=
  [array, string, number, boolean, object, function, promise, map, set, date, error, regExp,
    globalObject]

/-- The kind with a given name. -/
def ofText? (s : String) : Option Kind := all.find? (·.text = s)

end Kind

end ValueFlow
