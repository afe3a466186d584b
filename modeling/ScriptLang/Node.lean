import ScriptLang.Operator
import ScriptLang.Value

set_option autoImplicit false

/-! # Syntax trees

A program is a tree of nodes: expressions, statements and blocks. One type holds them all, because a
host may run a tree of its own making, with any node in any place; `Node.isExpression` and
`Node.isStatement` tell the roles apart. -/

namespace ScriptLang

/-- What an input expression reads. -/
inductive InputKind where
  | number
  | text
  /-- A kind that only a tree made by a host can have; it is read as text. -/
  | other (name : String)
  deriving DecidableEq

namespace InputKind

/-- The name of a kind of input in a syntax tree. -/
def name : InputKind → String
  | number => "Number"
  | text => "String"
  | other name => name

/-- The kind of input with a given name. -/
def ofName (name : String) : InputKind :=
  if name = "Number" then number else if name = "String" then text else other name

end InputKind

/-- A node of a syntax tree. -/
inductive Node where
  -- Expressions
  | reference (name : String)
  | literal (value : Value)
  | binary (operator : Operator) (left right : Node)
  | call (name : String) (arguments : List Node)
  | input (kind : InputKind)
  -- Sequences of statements
  | block (statements : List Node)
  | program (body : List Node)
  -- Statements
  | print (expressions : List Node)
  | definition (name : String) (expression : Node)
  | assignment (name : String) (expression : Node)
  | conditional (condition thenBlock : Node) (elseBlock : Option Node)
  | loop (condition body : Node)
  | function (name : String) (parameters : List String) (body : Node)
  | callStatement (name : String) (arguments : List Node)
  | returning (value : Node)
  | expressionStatement (expression : Node)
  /-- A bare value; executing it does nothing. -/
  | valueStatement (value : Value)
  /-- A piece of text, or nothing, that stands where a node belongs. No program text has one. -/
  | fragment (text : Option String)

namespace Node

/-- Whether the node has a value. -/
def isExpression : Node → Bool
  | reference .. | literal .. | binary .. | call .. | input .. => true
  | _ => false

/-- Whether the node can be executed. -/
def isStatement : Node → Bool
  | print .. | definition .. | assignment .. | conditional .. | loop .. | function ..
  | callStatement .. | returning .. | expressionStatement .. | valueStatement .. => true
  | _ => false

/-- The name of the sort of a node. -/
def typeName : Node → String
  | reference .. => "Variable"
  | literal .. => "Literal"
  | binary .. => "BinaryOp"
  | call .. => "FnCall"
  | input .. => "Input"
  | block .. => "Block"
  | program .. => "Program"
  | print .. => "Print"
  | definition .. => "Definition"
  | assignment .. => "Assignment"
  | conditional .. => "IfStmt"
  | loop .. => "WhileStmt"
  | function .. => "FuncDecl"
  | callStatement .. => "CallStmt"
  | returning .. => "ReturnStmt"
  | expressionStatement .. => "ExprStmt"
  | valueStatement .. => "ValueStmt"
  | fragment .. => "Token"

/-! ## The text of a node -/

/-- A node's sort and its fields. -/
def inspectFields (typeName : String) (fields : List (String × String)) : String :=
  typeName ++ "(" ++ ", ".intercalate (fields.map fun (name, text) => name ++ "=" ++ text) ++ ")"

mutual

/-- The text of a node in messages. -/
def inspect : Node → String
  | reference name => inspectFields "Variable" [("name", Text.quote name)]
  | literal value => inspectFields "Literal" [("value", value.inspect)]
  | binary operator left right =>
    inspectFields "BinaryOp"
      [("op", Text.quote operator.name), ("left", left.inspect), ("right", right.inspect)]
  | call name arguments =>
    inspectFields "FnCall"
      [("name", Text.quote name), ("args", Text.parenthesized (inspectAll arguments))]
  | input kind => inspectFields "Input" [("kind", Text.quote kind.name)]
  | block statements =>
    inspectFields "Block" [("statements", Text.parenthesized (inspectAll statements))]
  | program body => inspectFields "Program" [("body", Text.parenthesized (inspectAll body))]
  | print expressions =>
    inspectFields "Print" [("expressions", Text.parenthesized (inspectAll expressions))]
  | definition name expression =>
    inspectFields "Definition" [("name", Text.quote name), ("expr", expression.inspect)]
  | assignment name expression =>
    inspectFields "Assignment" [("name", Text.quote name), ("expr", expression.inspect)]
  | conditional condition thenBlock elseBlock =>
    inspectFields "IfStmt"
      [("condition", condition.inspect), ("then_block", thenBlock.inspect),
        ("else_block", match elseBlock with
          | none => "None"
          | some branch => branch.inspect)]
  | loop condition body =>
    inspectFields "WhileStmt" [("condition", condition.inspect), ("body", body.inspect)]
  | function name parameters body =>
    inspectFields "FuncDecl"
      [("name", Text.quote name),
        ("params", Text.parenthesized (parameters.map Text.quote)), ("body", body.inspect)]
  | callStatement name arguments =>
    inspectFields "CallStmt"
      [("name", Text.quote name), ("args", Text.parenthesized (inspectAll arguments))]
  | returning value => inspectFields "ReturnStmt" [("value", value.inspect)]
  | expressionStatement expression =>
    inspectFields "ExprStmt" [("expr", expression.inspect)]
  | valueStatement value => inspectFields "ValueStmt" [("value", value.inspect)]
  | fragment none => "None"
  | fragment (some text) => Text.quote text
termination_by structural node => node

/-- The texts of several nodes. -/
def inspectAll : List Node → List String
  | [] => []
  | node :: nodes => node.inspect :: inspectAll nodes
termination_by structural nodes => nodes

end

end Node

end ScriptLang
