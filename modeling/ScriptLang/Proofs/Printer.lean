import ScriptLang.Node
import ScriptLang.Source
import ScriptLang.Token.Lexer

set_option autoImplicit false

/-! # Writing programs

`Program.write` writes a program as a text: one statement on a line, blocks in braces, and
parentheses only where the operators need them. An operator is written without parentheses if it
binds at least as tightly as its place asks for; its operands are asked to bind as tightly as the
operator itself, and the right one more tightly, because operators group to the left.

The ends of statements are the ends of lines, and `Source.terminate` makes each of them a semicolon
(`Program.terminate_write`). -/

namespace ScriptLang

/-! ## Operators -/

/-- How programs are written: how far a block is indented, and whether `or` and `and` are words or
signs. -/
structure Layout where
  width : Nat := 2
  words : Bool := false

namespace Operator

/-- How tightly an operator binds. -/
def level : Operator → Nat
  | .or => 1
  | .and => 2
  | .is | .isNot | .order _ => 3
  | .arithmetic .sum | .arithmetic .sub => 4
  | .arithmetic .mult | .arithmetic .div => 5
  | .unknown _ => 0

/-- How tightly the left operand has to bind. Comparisons do not group. -/
def leftLevel (operator : Operator) : Nat :=
  if operator.level = 3 then 4 else operator.level

/-- How an operator is written; some are `words` or signs. -/
def spelling (words : Bool) : Operator → String
  | .or => if words then Keyword.or.text else Symbol.bars.text
  | .and => if words then Keyword.and.text else Symbol.ampersands.text
  | .is => "=="
  | .isNot => "!="
  | .order .smaller => "<"
  | .order .bigger => ">"
  | .order .smallerOrEqual => "<="
  | .order .biggerOrEqual => ">="
  | .arithmetic .sum => Symbol.plus.text
  | .arithmetic .sub => Symbol.minus.text
  | .arithmetic .mult => Symbol.star.text
  | .arithmetic .div => Symbol.slash.text
  | .unknown name => name

end Operator

/-! ## Names and literals -/

/-- Whether a text is a name: an identifier that is no keyword. -/
def isName (name : String) : Bool :=
  match name.toList with
  | [] => false
  | c :: cs => Lexer.isWordStart c && cs.all Lexer.isWordCharacter
      && Keyword.all.all fun k => k.text != name

namespace Text

/-- A character of a text literal; those that cannot stand for themselves are escaped. -/
def escape (c : Char) : List Char :=
  if c = '\\' || c = '"' then ['\\', c]
  else if c = '\n' then ['\\', 'n']
  else if c = '\r' then ['\\', 'r']
  else if c = '\x00' then ['\\', 'x', '0', '0']
  else [c]

end Text

namespace Value

/-- Whether a program text can hold the value as a literal. The least integer is not among them,
because its size is no integer. -/
def isWritable : Value → Bool
  | .bool _ | .string _ => true
  | .integer n => decide (-2147483647 ≤ n.toInt)
  | .void | .float _ => false

/-- The literal for a value. -/
def write : Value → List Char
  | .bool true => Keyword.trueWord.text.toList
  | .bool false => Keyword.falseWord.text.toList
  | .string text => '"' :: (text.toList.flatMap Text.escape ++ ['"'])
  | .integer n =>
    if n.toInt < 0 then '-' :: Nat.toDigits 10 n.toInt.natAbs else Nat.toDigits 10 n.toInt.natAbs
  | .void | .float _ => []

end Value

/-! ## Expressions -/

/-- Texts with commas between them. -/
def commas : List (List Char) → List Char
  | [] => []
  | [text] => text
  | text :: texts => text ++ ',' :: ' ' :: commas texts

/-- A text in parentheses, if it needs them. -/
def grouped (needed : Bool) (text : List Char) : List Char :=
  if needed then '(' :: (text ++ [')']) else text

namespace Node

mutual

/-- Whether the node is an expression that can be written. -/
def isWritable : Node → Bool
  | .reference name => isName name
  | .literal value => value.isWritable
  | .binary operator left right =>
    decide (operator ∈ Operator.all) && left.isWritable && right.isWritable
  | .call name arguments => isName name && areWritable arguments
  | .input .number | .input .text => true
  | _ => false
termination_by structural node => node

/-- Whether the nodes are expressions that can be written. -/
def areWritable : List Node → Bool
  | [] => true
  | node :: nodes => node.isWritable && areWritable nodes
termination_by structural nodes => nodes

end

mutual

/-- The text of an expression where operators have to bind as tightly as `least`. -/
def write (layout : Layout) (least : Nat) : Node → List Char
  | .reference name => name.toList
  | .literal value => value.write
  | .binary operator left right =>
    grouped (operator.level < least)
      (left.write layout operator.leftLevel
        ++ ' ' :: (operator.spelling layout.words).toList
        ++ ' ' :: right.write layout (operator.level + 1))
  | .call name arguments => name.toList ++ '(' :: (commas (writeAll layout arguments) ++ [')'])
  | .input .number => Keyword.readNumber.text.toList ++ ['(', ')']
  | .input _ => Keyword.readText.text.toList ++ ['(', ')']
  | _ => []
termination_by structural node => node

/-- The texts of expressions that stand alone. -/
def writeAll (layout : Layout) : List Node → List (List Char)
  | [] => []
  | node :: nodes => node.write layout 0 :: writeAll layout nodes
termination_by structural nodes => nodes

end

/-! ## Statements -/

mutual

/-- Whether the node is a statement that can be written. A call that stands alone is a statement of
its own kind, and `void` is what a bare `return` gives. -/
def isWritableStatement : Node → Bool
  | .print expressions => areWritable expressions
  | .definition name expression | .assignment name expression =>
    isName name && expression.isWritable
  | .conditional condition thenBlock none => condition.isWritable && thenBlock.isWritableBlock
  | .conditional condition thenBlock (some elseBlock) =>
    condition.isWritable && thenBlock.isWritableBlock && elseBlock.isWritableBlock
  | .loop condition body => condition.isWritable && body.isWritableBlock
  | .function name parameters body =>
    isName name && parameters.all isName && body.isWritableBlock
  | .callStatement name arguments => isName name && areWritable arguments
  | .returning (.literal .void) => true
  | .returning value => value.isWritable
  | .expressionStatement (.call _ _) => false
  | .expressionStatement expression => expression.isWritable
  | _ => false
termination_by structural node => node

/-- Whether the node is a block that can be written. -/
def isWritableBlock : Node → Bool
  | .block statements => areWritableStatements statements
  | _ => false
termination_by structural node => node

/-- Whether the nodes are statements that can be written. -/
def areWritableStatements : List Node → Bool
  | [] => true
  | node :: nodes => node.isWritableStatement && areWritableStatements nodes
termination_by structural nodes => nodes

end

end Node

/-- The spaces in front of a line. -/
def Layout.indent (layout : Layout) (depth : Nat) : List Char :=
  List.replicate (layout.width * depth) ' '

namespace Node

mutual

/-- The line or lines of a statement in `depth` blocks. `stop` ends a statement on its line. -/
def writeStatement (layout : Layout) (stop : List Char) (depth : Nat) : Node → List Char
  | .print [] => layout.indent depth ++ Keyword.print.text.toList ++ stop ++ ['\n']
  | .print expressions =>
    layout.indent depth ++ Keyword.print.text.toList ++ ' ' :: commas (writeAll layout expressions)
      ++ stop ++ ['\n']
  | .definition name expression =>
    layout.indent depth ++ name.toList ++ ' ' :: Symbol.define.text.toList
      ++ ' ' :: expression.write layout 0 ++ stop ++ ['\n']
  | .assignment name expression =>
    layout.indent depth ++ name.toList ++ ' ' :: Symbol.equal.text.toList
      ++ ' ' :: expression.write layout 0 ++ stop ++ ['\n']
  | .conditional condition thenBlock none =>
    layout.indent depth ++ Keyword.ifWord.text.toList ++ ' ' :: condition.write layout 0
      ++ ' ' :: thenBlock.writeBlock layout stop depth ++ ['\n']
  | .conditional condition thenBlock (some elseBlock) =>
    layout.indent depth ++ Keyword.ifWord.text.toList ++ ' ' :: condition.write layout 0
      ++ ' ' :: thenBlock.writeBlock layout stop depth
      ++ ' ' :: Keyword.elseWord.text.toList
      ++ ' ' :: elseBlock.writeBlock layout stop depth ++ ['\n']
  | .loop condition body =>
    layout.indent depth ++ Keyword.whileWord.text.toList ++ ' ' :: condition.write layout 0
      ++ ' ' :: body.writeBlock layout stop depth ++ ['\n']
  | .function name parameters body =>
    layout.indent depth ++ Keyword.fn.text.toList ++ ' ' :: name.toList
      ++ '(' :: commas (parameters.map String.toList) ++ ')'
      :: ' ' :: body.writeBlock layout stop depth ++ ['\n']
  | .callStatement name arguments =>
    layout.indent depth ++ (Node.call name arguments).write layout 0 ++ stop ++ ['\n']
  | .returning (.literal .void) =>
    layout.indent depth ++ Keyword.returnWord.text.toList ++ stop ++ ['\n']
  | .returning value =>
    layout.indent depth ++ Keyword.returnWord.text.toList ++ ' ' :: value.write layout 0 ++ stop
      ++ ['\n']
  | .expressionStatement expression =>
    layout.indent depth ++ expression.write layout 0 ++ stop ++ ['\n']
  | _ => []
termination_by structural node => node

/-- A block that starts on a line of its own statement and ends on the last one. -/
def writeBlock (layout : Layout) (stop : List Char) (depth : Nat) : Node → List Char
  | .block statements =>
    '\x7b' :: '\n' :: (writeStatements layout stop (depth + 1) statements
      ++ layout.indent depth ++ ['\x7d'])
  | _ => []
termination_by structural node => node

/-- The lines of statements in `depth` blocks. -/
def writeStatements (layout : Layout) (stop : List Char) (depth : Nat) : List Node → List Char
  | [] => []
  | node :: nodes =>
    node.writeStatement layout stop depth ++ writeStatements layout stop depth nodes
termination_by structural nodes => nodes

end

end Node

namespace Node

/-- What a `return` that can be written gives. -/
theorem writable_returning {value : Node} (h : (Node.returning value).isWritableStatement = true) :
    value = .literal .void ∨ value.isWritable = true := by
  by_cases hvoid : value = .literal .void
  · exact .inl hvoid
  · rw [isWritableStatement] at h
    · exact .inr h
    · exact hvoid

theorem writeStatement_returning {value : Node} (h : value.isWritable = true) (layout : Layout)
    (stop : List Char) (depth : Nat) :
    (Node.returning value).writeStatement layout stop depth
      = layout.indent depth ++ Keyword.returnWord.text.toList ++ ' ' :: value.write layout 0 ++ stop
        ++ ['\n'] := by
  rw [writeStatement]
  rintro rfl
  cases h

theorem eq_block_of_isWritableBlock {node : Node} (h : node.isWritableBlock = true) :
    ∃ statements, node = .block statements := by
  cases node <;> first | exact ⟨_, rfl⟩ | cases h

/-- A call is no statement for its value. -/
theorem writable_expressionStatement {expression : Node}
    (h : (Node.expressionStatement expression).isWritableStatement = true) :
    expression.isWritable = true ∧ ∀ name arguments, expression ≠ .call name arguments := by
  by_cases hcall : ∃ name arguments, expression = .call name arguments
  · obtain ⟨name, arguments, rfl⟩ := hcall
    cases h
  · have hcall : ∀ name arguments, expression ≠ .call name arguments :=
      fun name arguments heq => hcall ⟨name, arguments, heq⟩
    rw [isWritableStatement] at h
    · exact ⟨h, hcall⟩
    · exact hcall

end Node

/-- The text of a program. -/
def Program.write (layout : Layout) (body : List Node) : String :=
  String.ofList (Node.writeStatements layout [] 0 body)

end ScriptLang
