/-!
# Lines and columns

Maps byte offsets of a text to lines and columns, both counted from one. A
column counts characters. An offset in the middle of a character belongs to
no character, and its column counts the bytes since the start of the line.

* `Lines.ofText` finds the starts of the lines.
* `Lines.location` is the place of an offset, `Lines.lineText?` the text of a
  line without its line break.
-/

namespace ValueFlow

/-- A line and a column, both counted from one. -/
structure Location where
  line : Nat
  column : Nat
  deriving DecidableEq, Repr

/-- The written form of a location. -/
def Location.render (l : Location) : String := toString l.line ++ ":" ++ toString l.column

def byteLength (cs : List Char) : Nat := cs.foldl (fun n c => n + c.utf8Size) 0

def dropBytes? : List Char → Nat → Option (List Char)
  | cs, 0 => some cs
  | [], _ + 1 => none
  | c :: cs, n + 1 => if c.utf8Size ≤ n + 1 then dropBytes? cs (n + 1 - c.utf8Size) else none

/-- The first `n` bytes of a text. There are none if that cuts a character or
goes past the end. -/
def takeBytes? : List Char → Nat → Option (List Char)
  | _, 0 => some []
  | [], _ + 1 => none
  | c :: cs, n + 1 =>
    if c.utf8Size ≤ n + 1 then (takeBytes? cs (n + 1 - c.utf8Size)).map (c :: ·) else none

/-- The text between two byte offsets, if both lie between characters. -/
def slice? (cs : List Char) (start stop : Nat) : Option (List Char) := do
  let rest ← dropBytes? cs start
  if start ≤ stop then takeBytes? rest (stop - start) else none

structure Lines where
  text : List Char
  starts : List Nat

namespace Lines

def startsFrom : Nat → List Char → List Nat
  | _, [] => []
  | offset, c :: cs =>
    let next := offset + c.utf8Size
    if c = '\n' then next :: startsFrom next cs else startsFrom next cs

def ofText (text : String) : Lines := ⟨text.toList, 0 :: startsFrom 0 text.toList⟩

def count (l : Lines) : Nat := l.starts.length

/-- The line and column of a byte offset. Offsets past the end count as the
end. -/
def location (l : Lines) (offset : Nat) : Location :=
  let offset := min offset (byteLength l.text)
  let before := l.starts.takeWhile (· ≤ offset)
  let start := before.getLastD 0
  let column := match slice? l.text start offset with
    | some cs => cs.length
    | none => offset - start
  ⟨before.length, column + 1⟩

def lineText? (l : Lines) (line : Nat) : Option String := do
  if line = 0 then none
  let start ← l.starts[line - 1]?
  let stop := match l.starts[line]? with
    | some next => next - 1
    | none => byteLength l.text
  let cs ← slice? l.text start stop
  return String.ofList (cs.reverse.dropWhile (· = '\r')).reverse

end Lines

end ValueFlow
