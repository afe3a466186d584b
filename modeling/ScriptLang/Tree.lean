import ScriptLang.Node

set_option autoImplicit false

/-! # Parse trees

A parse tree records which rules of the grammar apply where. Its leaves are the names, numbers,
texts and comparison signs; keywords and symbols leave no trace but the rule. -/

namespace ScriptLang

/-- The rules of the grammar. -/
inductive Rule where
  | program
  | block
  | print
  | definition
  | assignment
  | conditional
  | loop
  | function
  | parameters
  | returning
  | expressionStatement
  | emptyStatement
  | or
  | and
  | comparison
  | add
  | sub
  | mul
  | div
  | negation
  | wholeLiteral
  | decimalLiteral
  | textLiteral
  | trueLiteral
  | falseLiteral
  | reference
  | call
  | arguments
  | readNumber
  | readText
  /-- A rule that the grammar does not have. -/
  | unknown (name : String)
  deriving DecidableEq

namespace Rule

/-- The name of a rule. -/
def name : Rule → String
  | program => "program"
  | block => "block"
  | print => "print_stmt"
  | definition => "definition"
  | assignment => "assignment"
  | conditional => "if_stmt"
  | loop => "while_stmt"
  | function => "function_decl"
  | parameters => "parameters"
  | returning => "return_stmt"
  | expressionStatement => "expr_stmt"
  | emptyStatement => "empty_stmt"
  | or => "or_op"
  | and => "and_op"
  | comparison => "compare"
  | add => "add"
  | sub => "sub"
  | mul => "mul"
  | div => "div"
  | negation => "neg"
  | wholeLiteral => "int_lit"
  | decimalLiteral => "float_lit"
  | textLiteral => "string_lit"
  | trueLiteral => "true_lit"
  | falseLiteral => "false_lit"
  | reference => "variable"
  | call => "function_call"
  | arguments => "arguments"
  | readNumber => "read_number"
  | readText => "read_text"
  | unknown name => name

/-- The rules that the grammar has. -/
def all : List Rule :=
  [program, block, print, definition, assignment, conditional, loop, function, parameters,
    returning, expressionStatement, emptyStatement, or, and, comparison, add, sub, mul, div,
    negation, wholeLiteral, decimalLiteral, textLiteral, trueLiteral, falseLiteral, reference, call,
    arguments, readNumber, readText]

/-- The rule with a given name. -/
def ofName (name : String) : Rule :=
  (all.find? fun rule => rule.name == name).getD (unknown name)

end Rule

/-- A stretch of a text, from one offset up to another. -/
structure Span where
  start : Nat
  stop : Nat
  deriving DecidableEq

namespace Span

/-- The characters of a text that the stretch covers. -/
def slice (span : Span) (cs : List Char) : List Char :=
  (cs.drop span.start).take (span.stop - span.start)

/-- The stretch from the start of the first to the end of the last. -/
def cover (first last : Span) : Span :=
  ⟨first.start, last.stop⟩

end Span

/-- A parse tree. -/
inductive Tree where
  | leaf (text : String)
  /-- A rule, the stretch of text it covers, if that is known, and its parts. -/
  | branch (rule : Rule) (span : Option Span) (children : List Tree)
  /-- A part whose meaning is already given. -/
  | built (node : Node)

/-- The stretch of text that a tree covers, if it is known. -/
def Tree.span? : Tree → Option Span
  | branch _ span _ => span
  | leaf _ | built _ => none

end ScriptLang
