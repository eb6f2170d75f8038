import ValueFlow.Catalogue.Entry

/-!
# The standard library

The entries of the builtins that the analysis knows, in a fixed order.
-/

namespace ValueFlow.Standard

def arrays : List Entry := [
  { shape := .method .array "map", produces := some .array, element := some .callbackResults,
    binder := some .iteration },
  { shape := .method .array "filter", produces := some .array,
    element := some .receiverElements, binder := some .iteration },
  { shape := .method .array "forEach", call := some .nothing, binder := some .iteration },
  { shape := .method .array "find", call := some .receiverElement, binder := some .iteration },
  { shape := .method .array "some", produces := some .boolean, binder := some .iteration },
  { shape := .method .array "every", produces := some .boolean, binder := some .iteration },
  { shape := .method .array "reduce", call := some .reduction, binder := some .reduction },
  { shape := .method .array "concat", produces := some .array, element := some .concatenation },
  { shape := .method .array "slice", produces := some .array,
    element := some .receiverElements },
  { shape := .method .array "flat", produces := some .array, element := some .flattened },
  { shape := .method .array "join", produces := some .string },
  { shape := .method .array "includes", produces := some .boolean },
  { shape := .method .array "indexOf", produces := some .number },
  { shape := .method .array "push", produces := some .number },
  { shape := .method .array "pop", call := some .receiverElement },
  { shape := .method .array "shift", call := some .receiverElement },
  { shape := .method .array "sort", call := some .receiver, binder := some .receiverElements },
  { shape := .method .array "reverse", call := some .receiver },
  { shape := .method .array "keys", produces := some .array, element := some .external },
  { shape := .method .array "values", produces := some .array,
    element := some .receiverElements },
  { shape := .method .array "entries", produces := some .array, element := some .external },
  { shape := .method .array "length", produces := some .number, getter := true },
  { shape := .static "Array" "from", produces := some .array, element := some .converted,
    binder := some .conversion },
  { shape := .static "Array" "isArray", produces := some .boolean },
  { shape := .static "Array" "of", produces := some .array, element := some .arguments }]

def strings : List Entry := [
  { shape := .method .string "split", produces := some .array, element := some .external },
  { shape := .method .string "replace", produces := some .string, binder := some .external },
  { shape := .method .string "length", produces := some .number, getter := true }]

def objects : List Entry := [
  { shape := .static "Object" "keys", produces := some .array, element := some .external },
  { shape := .static "Object" "values", produces := some .array,
    element := some .argumentElements },
  { shape := .static "Object" "entries", produces := some .array, element := some .external },
  { shape := .static "Object" "assign", call := some .firstArgument },
  { shape := .static "Object" "freeze", call := some .firstArgument },
  { shape := .method .object "hasOwnProperty", produces := some .boolean },
  { shape := .static "JSON" "parse", call := some .external },
  { shape := .static "JSON" "stringify", produces := some .string }]

def promises : List Entry := [
  { shape := .static "Promise" "resolve", produces := some .promise,
    resolved := some .firstArgument },
  { shape := .static "Promise" "reject", produces := some .promise, resolved := some .nothing },
  { shape := .static "Promise" "all", produces := some .promise, resolved := some .itself,
    element := some .settledElements },
  { shape := .static "Promise" "race", produces := some .promise,
    resolved := some .anyElement },
  { shape := .constructor "Promise", produces := some .promise,
    resolved := some .executorArguments, binder := some .external },
  { shape := .method .promise "then", produces := some .promise,
    resolved := some .continuation, binder := some .settled },
  { shape := .method .promise "catch", produces := some .promise, resolved := some .recovery,
    binder := some .external },
  { shape := .method .promise "finally", produces := some .promise,
    resolved := some .receiver }]

def collections : List Entry := [
  { shape := .constructor "Map", produces := some .map },
  { shape := .method .map "get", call := some .storedValue },
  { shape := .method .map "set", call := some .receiver },
  { shape := .method .map "has", produces := some .boolean },
  { shape := .method .map "delete", produces := some .boolean },
  { shape := .method .map "keys", produces := some .array, element := some .external },
  { shape := .method .map "values", produces := some .array, element := some .storedValues },
  { shape := .method .map "entries", produces := some .array, element := some .external },
  { shape := .method .map "forEach", call := some .nothing, binder := some .mapIteration },
  { shape := .method .map "size", produces := some .number, getter := true },
  { shape := .constructor "Set", produces := some .set },
  { shape := .method .set "add", call := some .receiver },
  { shape := .method .set "has", produces := some .boolean },
  { shape := .method .set "forEach", call := some .nothing, binder := some .setIteration },
  { shape := .method .set "size", produces := some .number, getter := true }]

def others : List Entry := [
  { shape := .constructor "Date", produces := some .date },
  { shape := .static "Date" "now", produces := some .number },
  { shape := .method .date "toISOString", produces := some .string },
  { shape := .method .date "getTime", produces := some .number },
  { shape := .constructor "Error", produces := some .error, property := some .errorMessage },
  { shape := .method .error "message", produces := some .string, getter := true },
  { shape := .method .error "stack", produces := some .string, getter := true },
  { shape := .constructor "RegExp", produces := some .regExp },
  { shape := .method .regExp "test", produces := some .boolean },
  { shape := .static "Math" "*", produces := some .number, call := some .external },
  { shape := .global "parseInt", produces := some .number },
  { shape := .global "parseFloat", produces := some .number },
  { shape := .global "String", produces := some .string },
  { shape := .global "Number", produces := some .number },
  { shape := .global "Boolean", produces := some .boolean },
  { shape := .global "fetch", produces := some .promise },
  { shape := .global "setTimeout", call := some .external, binder := some .external }]

/-- Methods that differ in their names only. -/
def uniform : List Entry :=
  (["trim", "toUpperCase", "toLowerCase", "slice", "substring", "concat", "padStart"].map
    fun name => { shape := .method .string name, produces := some .string }) ++
  (["includes", "startsWith", "endsWith"].map
    fun name => { shape := .method .string name, produces := some .boolean }) ++
  (["log", "error", "warn", "info"].map
    fun name => { shape := .static "console" name, call := some .nothing }) ++
  ([.array, .number, .boolean, .object, .date, .error, .regExp].map
    fun kind => { shape := .method kind "toString", produces := some .string }) ++
  [{ shape := .method .number "toFixed", produces := some .string }]

def entries : List Entry :=
  arrays ++ strings ++ objects ++ promises ++ collections ++ others ++ uniform

end ValueFlow.Standard
