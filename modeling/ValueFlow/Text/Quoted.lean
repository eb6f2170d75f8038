/-!
# Quoted texts

The written form of a text inside quotes, as lists of values and catalogue
entries show it: quotes and backslashes are escaped, the usual control
characters have their letters, and other characters that would not show are
given by number.
-/

namespace ValueFlow.Quoted

/-- The lower case hexadecimal digits of a number. -/
def hexDigits (n : Nat) : String := String.ofList (Nat.toDigits 16 n)

/-- The ranges of characters that would not show: control, format and private
characters, separators other than the blank, and marks that combine with the
character before them. The marks of single scripts are not among them. -/
def hidden : List (Nat × Nat) :=
  [(0x0, 0x1f), (0x7f, 0xa0), (0xad, 0xad), (0x300, 0x36f), (0x483, 0x489), (0x1ab0, 0x1ace),
    (0x1dc0, 0x1dff), (0x2000, 0x200f), (0x2028, 0x202f), (0x205f, 0x206f), (0x20d0, 0x20f0),
    (0x3000, 0x3000), (0x302a, 0x302d), (0x3099, 0x309a), (0xe000, 0xf8ff), (0xfe00, 0xfe0f),
    (0xfe20, 0xfe2f), (0xfeff, 0xfeff), (0xfff0, 0xfffb), (0xfffe, 0xffff),
    (0xe0000, 0x10ffff)]

def isHidden (c : Char) : Bool := hidden.any fun (first, last) => first ≤ c.toNat && c.toNat ≤ last

/-- How one character is written inside quotes. -/
def escape (c : Char) : String :=
  if c = '\x22' then "\\\x22"
  else if c = '\\' then "\\\\"
  else if c = '\n' then "\\n"
  else if c = '\t' then "\\t"
  else if c = '\r' then "\\r"
  else if c = '\x00' then "\\0"
  else if isHidden c then "\\u\x7b" ++ hexDigits c.toNat ++ "\x7d"
  else c.toString

/-- A text in quotes. -/
def encode (s : String) : String :=
  "\x22" ++ String.join (s.toList.map escape) ++ "\x22"

end ValueFlow.Quoted
