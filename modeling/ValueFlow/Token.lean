import ValueFlow.Numbering

/-!
# Tokens

The words, literals and punctuators of a JavaScript module. A token carries
the byte offsets and the line of its text, and whether a line break stands
before it, since a line break can end a statement.

Names, string contents and the texts of numbers are *symbols*: numbers in the
table of names that all the modules of a program share.
-/

namespace ValueFlow

abbrev Symbol := Nat

/-- The table of the names of a program. -/
abbrev Names := Numbering String

def Names.text (names : Names) (s : Symbol) : String := (names.get? s).getD ""

/-- Reserved words. They can still be property names. -/
inductive Keyword
  | const | letKw | var | function | async | await | returnKw | ifKw | elseKw | whileKw | forKw
  | inKw | tryKw | catchKw | finallyKw | throwKw | breakKw | continueKw | new | importKw
  | exportKw | default | trueKw | falseKw | null | undefined | this | typeof | void | delete
  | instanceof
  deriving DecidableEq, Repr

namespace Keyword

def text : Keyword → String
  | .const => "const"
  | .letKw => "let"
  | .var => "var"
  | .function => "function"
  | .async => "async"
  | .await => "await"
  | .returnKw => "return"
  | .ifKw => "if"
  | .elseKw => "else"
  | .whileKw => "while"
  | .forKw => "for"
  | .inKw => "in"
  | .tryKw => "try"
  | .catchKw => "catch"
  | .finallyKw => "finally"
  | .throwKw => "throw"
  | .breakKw => "break"
  | .continueKw => "continue"
  | .new => "new"
  | .importKw => "import"
  | .exportKw => "export"
  | .default => "default"
  | .trueKw => "true"
  | .falseKw => "false"
  | .null => "null"
  | .undefined => "undefined"
  | .this => "this"
  | .typeof => "typeof"
  | .void => "void"
  | .delete => "delete"
  | .instanceof => "instanceof"

def all : List Keyword :=
  [.const, .letKw, .var, .function, .async, .await, .returnKw, .ifKw, .elseKw, .whileKw,
  .forKw, .inKw, .tryKw, .catchKw, .finallyKw, .throwKw, .breakKw, .continueKw, .new,
  .importKw, .exportKw, .default, .trueKw, .falseKw, .null, .undefined, .this, .typeof, .void,
  .delete, .instanceof]

/-- The keyword with a given spelling. -/
def ofText? (s : String) : Option Keyword := all.find? (·.text = s)

end Keyword

/-- Separators and operators. -/
inductive Punctuator
  | shiftRightUnsignedAssign | ellipsis | eqEqEq | bangEqEq | starStarAssign | shiftLeftAssign
  | shiftRightAssign | shiftRightUnsigned | ampAmpAssign | pipePipeAssign
  | questionQuestionAssign | arrow | eqEq | bangEq | lessEq | greaterEq | ampAmp | pipePipe
  | questionQuestion | questionDot | starStar | plusPlus | minusMinus | shiftLeft | shiftRight
  | plusAssign | minusAssign | starAssign | slashAssign | percentAssign | ampAssign
  | pipeAssign | caretAssign | leftParen | rightParen | leftBrace | rightBrace | leftBracket
  | rightBracket | semicolon | comma | colon | dot | question | plus | minus | star | slash
  | percent | bang | tilde | amp | pipe | caret | less | greater | assign
  deriving DecidableEq, Repr

namespace Punctuator

def text : Punctuator → String
  | .shiftRightUnsignedAssign => ">>>="
  | .ellipsis => "..."
  | .eqEqEq => "==="
  | .bangEqEq => "!=="
  | .starStarAssign => "**="
  | .shiftLeftAssign => "<<="
  | .shiftRightAssign => ">>="
  | .shiftRightUnsigned => ">>>"
  | .ampAmpAssign => "&&="
  | .pipePipeAssign => "||="
  | .questionQuestionAssign => "??="
  | .arrow => "=>"
  | .eqEq => "=="
  | .bangEq => "!="
  | .lessEq => "<="
  | .greaterEq => ">="
  | .ampAmp => "&&"
  | .pipePipe => "||"
  | .questionQuestion => "??"
  | .questionDot => "?."
  | .starStar => "**"
  | .plusPlus => "++"
  | .minusMinus => "--"
  | .shiftLeft => "<<"
  | .shiftRight => ">>"
  | .plusAssign => "+="
  | .minusAssign => "-="
  | .starAssign => "*="
  | .slashAssign => "/="
  | .percentAssign => "%="
  | .ampAssign => "&="
  | .pipeAssign => "|="
  | .caretAssign => "^="
  | .leftParen => "("
  | .rightParen => ")"
  | .leftBrace => "\x7b"
  | .rightBrace => "\x7d"
  | .leftBracket => "["
  | .rightBracket => "]"
  | .semicolon => ";"
  | .comma => ","
  | .colon => ":"
  | .dot => "."
  | .question => "?"
  | .plus => "+"
  | .minus => "-"
  | .star => "*"
  | .slash => "/"
  | .percent => "%"
  | .bang => "!"
  | .tilde => "~"
  | .amp => "&"
  | .pipe => "|"
  | .caret => "^"
  | .less => "<"
  | .greater => ">"
  | .assign => "="

/-- All the punctuators, longer spellings before their beginnings. -/
def all : List Punctuator :=
  [.shiftRightUnsignedAssign, .ellipsis, .eqEqEq, .bangEqEq, .starStarAssign, .shiftLeftAssign,
  .shiftRightAssign, .shiftRightUnsigned, .ampAmpAssign, .pipePipeAssign,
  .questionQuestionAssign, .arrow, .eqEq, .bangEq, .lessEq, .greaterEq, .ampAmp, .pipePipe,
  .questionQuestion, .questionDot, .starStar, .plusPlus, .minusMinus, .shiftLeft, .shiftRight,
  .plusAssign, .minusAssign, .starAssign, .slashAssign, .percentAssign, .ampAssign,
  .pipeAssign, .caretAssign, .leftParen, .rightParen, .leftBrace, .rightBrace, .leftBracket,
  .rightBracket, .semicolon, .comma, .colon, .dot, .question, .plus, .minus, .star, .slash,
  .percent, .bang, .tilde, .amp, .pipe, .caret, .less, .greater, .assign]

end Punctuator

inductive TemplatePart
  /-- A literal without substitutions. -/
  | whole
  /-- The text up to the first substitution. -/
  | head
  /-- The text between two substitutions. -/
  | middle
  /-- The text after the last substitution. -/
  | tail
  deriving DecidableEq, Repr

inductive TokenValue
  | identifier (name : Symbol)
  | number (text : Symbol)
  | string (content : Symbol)
  | template (part : TemplatePart) (content : Symbol)
  | keyword (word : Keyword)
  | punct (mark : Punctuator)
  | endOfFile
  deriving DecidableEq, Repr

/-- The written form of a token: its spelling, or its class and symbol. -/
def TokenValue.render : TokenValue → String
  | .identifier s => "identifier_" ++ toString s
  | .number s => "number_" ++ toString s
  | .string s => "string_" ++ toString s
  | .template _ s => "template_" ++ toString s
  | .keyword w => w.text
  | .punct p => p.text
  | .endOfFile => "END_OF_FILE"

structure Token where
  value : TokenValue
  line : Nat
  start : Nat
  /-- The byte offset after the last character. -/
  stop : Nat
  /-- Whether a line break separates the token from the previous one. -/
  newlineBefore : Bool
  deriving DecidableEq, Repr

/-- The tokens of a source: those with a text of their own, and the one that
stands for its end. -/
structure Tokens where
  items : List Token
  finish : Token

def Tokens.toList (t : Tokens) : List Token := t.items ++ [t.finish]

end ValueFlow
