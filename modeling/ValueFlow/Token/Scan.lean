import ValueFlow.Emitter
import ValueFlow.Token

/-!
# Scanning

Cuts a source into tokens. Only ASCII sources are scanned, so characters and
bytes are the same thing here.

Blanks and comments are skipped; a line feed in them is remembered for the
next token. Between `${` and the closing brace of a template substitution the
scanner counts the braces that are open, one count for each substitution it
is in, so that it knows which brace continues the template.

The functions on lexemes (`numberLength`, `stringBody`, `templateBody`,
`blockComment`) are pure functions of the characters ahead; `Scanner.next`
puts them together, and `scan` repeats it to the end of the source.
-/

namespace ValueFlow

/-- Why a source cannot be cut into tokens. -/
inductive ScanIssue
  | notAscii
  | openComment
  | openString
  | openTemplate
  | badNumber
  | unexpected (c : Char)
  deriving DecidableEq, Repr

def ScanIssue.message : ScanIssue → String
  | .notAscii => "Only ASCII input is supported."
  | .openComment => "Multiline comment not closed."
  | .openString => "Unterminated string literal."
  | .openTemplate => "Unterminated template literal."
  | .badNumber => "Invalid number literal."
  | .unexpected c => "Unexpected token: '" ++ c.toString ++ "'."

structure ScanError where
  line : Nat
  issue : ScanIssue
  deriving DecidableEq, Repr

def ScanError.report (e : ScanError) : Report := ⟨.error, e.line, "", e.issue.message⟩

namespace Scan

/-! ## Character classes -/

def isBlank (c : Char) : Bool := c = ' ' || c = '\t' || c = '\r'

def isNameStart (c : Char) : Bool := c.isAlpha || c = '_' || c = '$'

def isNamePart (c : Char) : Bool := c.isAlphanum || c = '_' || c = '$'

def isHexDigit (c : Char) : Bool :=
  c.isDigit || ('a' ≤ c && c ≤ 'f') || ('A' ≤ c && c ≤ 'F')

/-- Letters that, after a zero, announce a number in another base. -/
def isBaseMark (c : Char) : Bool := "xXbBoO".toList.contains c

def isExponentMark (c : Char) : Bool := c = 'e' || c = 'E'

def isSign (c : Char) : Bool := c = '+' || c = '-'

/-! ## Lexemes -/

/-- How many characters of the exponent of a number are ahead. -/
def exponentLength : List Char → Nat
  | e :: rest =>
    if isExponentMark e then
      match rest with
      | s :: digits =>
        if isSign s then 2 + (digits.takeWhile Char.isDigit).length
        else 1 + (rest.takeWhile Char.isDigit).length
      | [] => 1
    else 0
  | [] => 0

def plainNumberLength : List Char → Nat
  | '0' :: mark :: rest =>
    if isBaseMark mark then 2 + (rest.takeWhile fun c => isHexDigit c || c = '_').length
    else decimalLength ('0' :: mark :: rest)
  | cs => decimalLength cs
where
  decimalLength (cs : List Char) : Nat :=
    let n := (cs.takeWhile fun c => c.isDigit || c = '_' || c = '.').length
    n + exponentLength (cs.drop n)

/-- How many characters of a number are ahead. -/
def numberLength (cs : List Char) : Nat :=
  let n := plainNumberLength cs
  match cs.drop n with
  | 'n' :: _ => n + 1
  | _ => n

/-- The text inside quotes or a template, up to where it ends. -/
structure Body where
  content : List Char
  /-- The number of characters read, the end mark included. -/
  length : Nat
  /-- How many line feeds were read. -/
  lineFeeds : Nat
  /-- Whether the text ended at the start of a substitution. -/
  opensSubstitution : Bool

def Body.after (b : Body) (content : List Char) (n lineFeeds : Nat) : Body :=
  { b with
    content := content ++ b.content
    length := n + b.length
    lineFeeds := lineFeeds + b.lineFeeds }

/-- What a backslash before `c` stands for. A line feed stands for nothing. -/
def unescape (c : Char) : List Char :=
  match c with
  | 'n' => ['\n']
  | 't' => ['\t']
  | 'r' => ['\r']
  | '0' => ['\x00']
  | '\n' => []
  | c => [c]

def lineFeedsOf (c : Char) : Nat := if c = '\n' then 1 else 0

/-- The body of a string after its opening quote. A string does not go past
the end of its line. -/
def stringBody (quote : Char) : List Char → Option Body
  | [] => none
  | '\n' :: _ => none
  | '\\' :: c :: rest =>
    (stringBody quote rest).map (·.after (unescape c) 2 (lineFeedsOf c))
  | c :: rest =>
    if c = '\\' then none
    else if c = quote then some ⟨[], 1, 0, false⟩
    else (stringBody quote rest).map (·.after [c] 1 0)

/-- The body of a template up to its end or its next substitution. -/
def templateBody : List Char → Option Body
  | [] => none
  | '\\' :: c :: rest => (templateBody rest).map (·.after (unescape c) 2 (lineFeedsOf c))
  | '$' :: '\x7b' :: _ => some ⟨[], 2, 0, true⟩
  | c :: rest =>
    if c = '\\' then none
    else if c = '\x60' then some ⟨[], 1, 0, false⟩
    else (templateBody rest).map (·.after [c] 1 (lineFeedsOf c))

/-- The length of a comment after its opening mark, with its line feeds. -/
def blockComment : List Char → Option (Nat × Nat)
  | [] => none
  | '*' :: '/' :: _ => some (2, 0)
  | c :: rest => (blockComment rest).map fun (n, feeds) => (n + 1, feeds + lineFeedsOf c)

/-- The punctuator ahead. Before a digit, `?.` is a question mark and the
start of a number. -/
def punctuator? (cs : List Char) : Option Punctuator := do
  let p ← Punctuator.all.find? fun p => p.text.toList.isPrefixOf cs
  if p = .questionDot ∧ (cs[2]?.any Char.isDigit) then return .question
  return p

end Scan

/-- The state of scanning: the characters ahead and where they stand. -/
structure Scanner where
  rest : List Char
  offset : Nat
  line : Nat
  /-- Whether a line feed was skipped since the last token. -/
  newline : Bool
  /-- For each substitution that is open, how many braces are open in it. -/
  templates : List Nat
  names : Names

namespace Scanner

open Scan

def advance (s : Scanner) (n feeds : Nat) : Scanner :=
  { s with rest := s.rest.drop n, offset := s.offset + n, line := s.line + feeds }

def skip (s : Scanner) (n feeds : Nat) : Scanner :=
  { s.advance n feeds with newline := s.newline || feeds > 0 }

def emit (s : Scanner) (value : TokenValue) (n feeds : Nat) : Option Token × Scanner :=
  (some ⟨value, s.line, s.offset, s.offset + n, s.newline⟩,
    { s.advance n feeds with newline := false })

def emitSymbol (s : Scanner) (make : Symbol → TokenValue) (text : List Char) (n feeds : Nat) :
    Option Token × Scanner :=
  let (symbol, names) := s.names.number (String.ofList text)
  { s with names }.emit (make symbol) n feeds

/-- Takes a part of a template; `opening` says whether it starts with the
quote of the template or with the brace that ends a substitution. -/
def template (s : Scanner) (opening : Bool) : Except ScanError (Option Token × Scanner) :=
  match templateBody (s.rest.drop 1) with
  | none => .error ⟨s.line, .openTemplate⟩
  | some body =>
    let s := if body.opensSubstitution then { s with templates := 0 :: s.templates } else s
    let part := match opening, body.opensSubstitution with
      | true, false => .whole
      | true, true => .head
      | false, true => .middle
      | false, false => .tail
    .ok (s.emitSymbol (.template part) body.content (body.length + 1) body.lineFeeds)

def number (s : Scanner) : Except ScanError (Option Token × Scanner) :=
  let n := numberLength s.rest
  if (s.rest[n]?).any Char.isAlpha then .error ⟨s.line, .badNumber⟩
  else .ok (s.emitSymbol .number (s.rest.take n) n 0)

def word (s : Scanner) : Option Token × Scanner :=
  let text := s.rest.takeWhile isNamePart
  match Keyword.ofText? (String.ofList text) with
  | some keyword => s.emit (.keyword keyword) text.length 0
  | none => s.emitSymbol .identifier text text.length 0

/-- Takes a brace, or the template text after a brace that ends a
substitution. -/
def closeBrace (s : Scanner) : Except ScanError (Option Token × Scanner) :=
  match s.templates with
  | 0 :: templates => { s with templates }.template false
  | (depth + 1) :: templates =>
    .ok ({ s with templates := depth :: templates }.emit (.punct .rightBrace) 1 0)
  | [] => .ok (s.emit (.punct .rightBrace) 1 0)

def openBrace (s : Scanner) : Option Token × Scanner :=
  let s := match s.templates with
    | depth :: templates => { s with templates := (depth + 1) :: templates }
    | [] => s
  s.emit (.punct .leftBrace) 1 0

def next (s : Scanner) : Except ScanError (Option Token × Scanner) :=
  match s.rest with
  | [] => .ok (none, s)
  | '/' :: '/' :: rest => .ok (none, s.skip (2 + (rest.takeWhile (· ≠ '\n')).length) 0)
  | '/' :: '*' :: rest =>
    match blockComment rest with
    | some (n, feeds) => .ok (none, s.skip (2 + n) feeds)
    | none => .error ⟨s.line, .openComment⟩
  | c :: rest =>
    if c = '\n' then .ok (none, s.skip 1 1)
    else if isBlank c then .ok (none, s.skip 1 0)
    else if c = '\x22' || c = '\x27' then
      match stringBody c rest with
      | some body => .ok (s.emitSymbol .string body.content (body.length + 1) body.lineFeeds)
      | none => .error ⟨s.line, .openString⟩
    else if c = '\x60' then s.template true
    else if c = '\x7b' then .ok s.openBrace
    else if c = '\x7d' then s.closeBrace
    else if c.isDigit || (c = '.' && rest.head?.any Char.isDigit) then s.number
    else if isNameStart c then .ok s.word
    else
      match punctuator? s.rest with
      | some p => .ok (s.emit (.punct p) p.text.length 0)
      | none => .error ⟨s.line, .unexpected c⟩

def finish (s : Scanner) (taken : List Token) : Except ScanError Tokens :=
  if s.templates.isEmpty then
    .ok ⟨taken.reverse, ⟨.endOfFile, s.line, s.offset, s.offset, true⟩⟩
  else .error ⟨s.line, .openTemplate⟩

/-- Scans to the end of the source. Every step takes a character, so as many
steps as there are characters are enough. -/
def run : Nat → Scanner → List Token → Except ScanError Tokens × Names
  | 0, s, taken => (s.finish taken, s.names)
  | fuel + 1, s, taken =>
    if s.rest.isEmpty then (s.finish taken, s.names)
    else
      match s.next with
      | .error e => (.error e, s.names)
      | .ok (token, s) => run fuel s (token.toList ++ taken)

end Scanner

/-- The tokens of a source, and the table of names with the names met up to
the end or the first error. -/
def scan (source : String) (names : Names) : Except ScanError Tokens × Names :=
  let cs := source.toList
  if cs.all (·.toNat < 128) then
    Scanner.run cs.length ⟨cs, 0, 1, false, [], names⟩ []
  else (.error ⟨1, .notAscii⟩, names)

end ValueFlow
