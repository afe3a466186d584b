import ScriptLang.Text.Quoted

set_option autoImplicit false

/-! # Tokens

A program text is read as a sequence of tokens: symbols, keywords, names, numbers, texts and
comparison signs, with white space between them. -/

namespace ScriptLang

/-! ## Terminals -/

/-- The symbols with a single spelling. -/
inductive Symbol where
  | comma
  | semicolon
  | equal
  | leftParen
  | rightParen
  | leftBrace
  | rightBrace
  | plus
  | minus
  | star
  | slash
  | define
  | bars
  | ampersands
  deriving DecidableEq

namespace Symbol

/-- The symbols, the longer ones first. -/
def all : List Symbol :=
  [define, bars, ampersands, comma, semicolon, equal, leftParen, rightParen, leftBrace, rightBrace,
    plus, minus, star, slash]

/-- How a symbol is written. -/
def text : Symbol → String
  | comma => ","
  | semicolon => ";"
  | equal => "="
  | leftParen => "("
  | rightParen => ")"
  | leftBrace => "\x7b"
  | rightBrace => "\x7d"
  | plus => "+"
  | minus => "-"
  | star => "*"
  | slash => "/"
  | define => ":="
  | bars => "||"
  | ampersands => "&&"

/-- The name of a symbol in messages. -/
def name : Symbol → String
  | comma => "COMMA"
  | semicolon => "SEMICOLON"
  | equal => "EQUAL"
  | leftParen => "LPAR"
  | rightParen => "RPAR"
  | leftBrace => "LBRACE"
  | rightBrace => "RBRACE"
  | plus => "PLUS"
  | minus => "MINUS"
  | star => "STAR"
  | slash => "SLASH"
  | define => "__ANON_0"
  | bars => "__ANON_1"
  | ampersands => "__ANON_2"

end Symbol

/-- The words with a meaning of their own. -/
inductive Keyword where
  | print
  | elseWord
  | ifWord
  | whileWord
  | fn
  | function
  | returnWord
  | or
  | and
  | trueWord
  | falseWord
  | readNumber
  | readText
  deriving DecidableEq

namespace Keyword

/-- All keywords. -/
def all : List Keyword :=
  [readNumber, readText, function, returnWord, print, whileWord, falseWord, elseWord, trueWord, and,
    ifWord, fn, or]

/-- How a keyword is written. -/
def text : Keyword → String
  | print => "print"
  | elseWord => "else"
  | ifWord => "if"
  | whileWord => "while"
  | fn => "fn"
  | function => "function"
  | returnWord => "return"
  | or => "or"
  | and => "and"
  | trueWord => "true"
  | falseWord => "false"
  | readNumber => "read_number"
  | readText => "read_text"

/-- The name of a keyword in messages. -/
def name : Keyword → String
  | print => "PRINT"
  | elseWord => "ELSE"
  | ifWord => "IF"
  | whileWord => "WHILE"
  | fn => "FN"
  | function => "FUNCTION"
  | returnWord => "RETURN"
  | or => "OR"
  | and => "AND"
  | trueWord => "TRUE"
  | falseWord => "FALSE"
  | readNumber => "READ_NUMBER"
  | readText => "READ_TEXT"

end Keyword

/-- The sorts of tokens. -/
inductive Terminal where
  | symbol (symbol : Symbol)
  | keyword (keyword : Keyword)
  /-- A sign that compares two values. -/
  | comparison
  /-- A number with a decimal point. -/
  | decimal
  /-- A whole number. -/
  | whole
  /-- A name. -/
  | word
  /-- A text between double quotes. -/
  | text
  /-- The end of the program text. -/
  | finish
  deriving DecidableEq

/-- The name of a terminal in messages. -/
def Terminal.name : Terminal → String
  | symbol s => s.name
  | keyword k => k.name
  | comparison => "COMP_OP"
  | decimal => "FLOAT"
  | whole => "INT"
  | word => "IDENT"
  | text => "ESCAPED_STRING"
  | finish => "$END"

/-! ## Positions and tokens -/

/-- A place in a text: how many characters stand before it, and its line and column, counted from
one. -/
structure Position where
  offset : Nat := 0
  line : Nat := 1
  column : Nat := 1
  deriving DecidableEq

namespace Position

/-- The place after one more character; only a line feed ends a line. -/
def advance (p : Position) (c : Char) : Position :=
  if c = '\n' then ⟨p.offset + 1, p.line + 1, 1⟩ else ⟨p.offset + 1, p.line, p.column + 1⟩

/-- The place after some more characters. -/
def advanceBy (p : Position) (cs : List Char) : Position :=
  cs.foldl advance p

end Position

/-- A token: its sort, its text and the place where it starts. -/
structure Token where
  terminal : Terminal
  text : String
  start : Position
  deriving DecidableEq

namespace Token

/-- The offset after the token. -/
def stop (t : Token) : Nat :=
  t.start.offset + t.text.length

/-- The text of a token in messages. -/
def inspect (t : Token) : String :=
  "Token(" ++ Text.quote t.terminal.name ++ ", " ++ Text.quote t.text ++ ")"

end Token

end ScriptLang
