import ScriptLang.Error
import ScriptLang.Text.Escape
import ScriptLang.Tree

set_option autoImplicit false

/-! # The meaning of parse trees

`Tree.meaning` turns a parse tree into a syntax tree, from the leaves up and from left to right. A
tree that was read from a program text can fail only in its literals and comparison signs; a tree
that a host made itself can fail in many more ways. -/

namespace ScriptLang

/-- The meaning of a part of a parse tree. -/
inductive Part where
  | token (text : String)
  | node (node : Node)
  | nodes (nodes : List Node)
  | names (names : List String)
  /-- The meaning of an empty statement. -/
  | nothing

namespace Part

/-- The text of a part in messages, and where it stands for a name. -/
def text : Part → String
  | .token text => text
  | .node n => n.inspect
  | .nodes ns => Text.parenthesized (Node.inspectAll ns)
  | .names ns => Text.parenthesized (ns.map Text.quote)
  | .nothing => "None"

/-- The part as an expression. -/
def toExpression (part : Part) : Except Failure Node :=
  match part with
  | .node n => if n.isExpression then .ok n else .error (.script (.notAnExpression part.text))
  | _ => .error (.script (.notAnExpression part.text))

/-- The part in a place where any node may stand. -/
def toNode : Part → Node
  | .node n => n
  | .nothing => .fragment none
  | part => .fragment (some part.text)

/-- The part in a place that may be empty. -/
def toNode? : Part → Option Node
  | .nothing => none
  | part => some part.toNode

/-- The part as a sequence of names; a text is the sequence of its characters. -/
def toNames? : Part → Option (List String)
  | .names ns => some ns
  | .token text => some (text.toList.map String.singleton)
  | .nodes ns => some (Node.inspectAll ns)
  | .node _ | .nothing => none

/-- The part as a sequence of arguments. -/
def toArguments? : Part → Option (List Node)
  | .nodes ns => some ns
  | .names ns => some (ns.map fun name => .fragment (some name))
  | .token text => some (text.toList.map fun c => .fragment (some (String.singleton c)))
  | .node _ | .nothing => none

end Part

/-- The place of a rule: a program text, and the stretch of it that the rule covers, if that is
known. -/
structure Place where
  source : List Char
  span : Option Span

/-- The text that a rule covers, without white space at its ends; empty if it is not known. -/
def Place.text (place : Place) : String :=
  match place.span with
  | none => ""
  | some span => String.ofList (Text.trim (span.slice place.source))

/-- The text that a rule covers, or another text if that one is empty. -/
def Place.textOr (place : Place) (other : String) : String :=
  if place.text.isEmpty then other else place.text

namespace Rule

/-- The operator that a comparison sign denotes. -/
def comparisonOperator? : String → Option Operator
  | "==" => some .is
  | "!=" => some .isNot
  | "<" => some (.order .smaller)
  | ">" => some (.order .bigger)
  | "<=" => some (.order .smallerOrEqual)
  | ">=" => some (.order .biggerOrEqual)
  | _ => none

/-- The negation of an operand. A negated number is a number again; anything else is subtracted from
zero. -/
def negated : Node → Node
  | .literal (.integer number) => .literal (Value.ofInt (-number.toInt))
  | .literal (.float number) => .literal (.float number.neg)
  | operand => .binary (.arithmetic .sub) (.literal (.integer 0)) operand

/-- The branch for `else` of a conditional; a conditional there stands in a block of its own. -/
def elseBlock? (part : Part) : Option Node :=
  match part with
  | .node (.conditional condition thenBlock elseBlock) =>
    some (.block [.conditional condition thenBlock elseBlock])
  | part => part.toNode?

/-- The failure of a rule whose parts are missing or unreadable. -/
def broken {α : Type} (rule : Rule) : Except Failure α :=
  .error (.fault (.brokenTree rule.name))

/-- The meaning of a binary expression: its operands are the first and the last part. -/
def binaryMeaning (operator : Operator) (place : Place) (parts : List Part) :
    Except Failure Part :=
  match parts with
  | [] => .error (.script (.incompleteExpression place.text .left))
  | [_] => .error (.script (.incompleteExpression place.text .right))
  | left :: right :: rest => do
    let left ← left.toExpression
    let right ← (rest.getLastD right).toExpression
    return .node (.binary operator left right)

/-- The meaning of a comparison: an operand, a sign and an operand. -/
def comparisonMeaning (place : Place) (parts : List Part) : Except Failure Part :=
  match parts with
  | left :: sign :: rest =>
    match comparisonOperator? sign.text with
    | none => .error (.script (.unsupportedOperator sign.text))
    | some operator => binaryMeaning operator place (left :: rest.take 1)
  | _ => .error (.script (.incompleteExpression place.text .operator))

/-- The meaning of a whole number, which must not exceed the largest integer. -/
def wholeMeaning (rule : Rule) (text : String) : Except Failure Part :=
  match Integer.read? text with
  | none => rule.broken
  | some number =>
    if Int32.maxValue.toInt < number then .error (.script (.unreadableNumber text .integer))
    else .ok (.node (.literal (Value.ofInt number)))

/-- The meaning of a decimal. -/
def decimalMeaning (rule : Rule) (text : String) : Except Failure Part :=
  match Double.readGrouped? text with
  | none => rule.broken
  | some number => .ok (.node (.literal (Value.ofDouble number)))

/-- The meaning of a text literal. -/
def textMeaning (names : Text.Names) (place : Place) (literal : String) : Except Failure Part :=
  match Text.decodeLiteral? names literal with
  | none => .error (.script (.incorrectSyntax (place.textOr literal)))
  | some decoded => .ok (.node (.literal (.string decoded)))

/-- The meaning of a call: a name, and arguments if there are some. -/
def callMeaning (rule : Rule) (place : Place) (parts : List Part) : Except Failure Part :=
  match parts with
  | [.token name] => .ok (.node (.call name []))
  | .token name :: args :: _ =>
    match args.toArguments? with
    | none => rule.broken
    | some args => .ok (.node (.call name args))
  | _ => .error (.script (.incompleteCall place.text))

/-- The meaning of a function: a name, parameters if there are some, and a body. -/
def functionMeaning (rule : Rule) (parts : List Part) : Except Failure Part :=
  match parts with
  | [] => rule.broken
  | [name] => .ok (.node (.function name.text [] name.toNode))
  | [name, body] => .ok (.node (.function name.text [] body.toNode))
  | name :: params :: body :: rest =>
    match params.toNames? with
    | none => rule.broken
    | some params => .ok (.node (.function name.text params (rest.getLastD body).toNode))

/-- The meaning of a rule, given its place and the meanings of its parts. -/
def meaning (names : Text.Names) (rule : Rule) (place : Place) (parts : List Part) :
    Except Failure Part :=
  match rule, parts with
  | .program, _ => .ok (.node (.program (parts.filterMap Part.toNode?)))
  | .block, _ => .ok (.node (.block (parts.filterMap Part.toNode?)))
  | .print, _ => return .node (.print (← parts.mapM Part.toExpression))
  | .definition, name :: expression :: _ =>
    return .node (.definition name.text (← expression.toExpression))
  | .assignment, name :: expression :: _ =>
    return .node (.assignment name.text (← expression.toExpression))
  | .conditional, condition :: rest => do
    let condition ← condition.toExpression
    match rest with
    | [] => broken .conditional
    | [thenBlock] => return .node (.conditional condition thenBlock.toNode none)
    | thenBlock :: elseBlock :: _ =>
      return .node (.conditional condition thenBlock.toNode (elseBlock? elseBlock))
  | .loop, condition :: rest => do
    let condition ← condition.toExpression
    match rest with
    | [] => broken .loop
    | body :: _ => return .node (.loop condition body.toNode)
  | .function, _ => functionMeaning rule parts
  | .parameters, _ => .ok (.names (parts.map Part.text))
  | .returning, [] => .ok (.node (.returning (.literal .void)))
  | .returning, value :: _ => return .node (.returning (← value.toExpression))
  | .expressionStatement, expression :: _ => do
    match ← expression.toExpression with
    | .call name args => return .node (.callStatement name args)
    | expression => return .node (.expressionStatement expression)
  | .emptyStatement, _ => .ok .nothing
  | .or, _ => binaryMeaning .or place parts
  | .and, _ => binaryMeaning .and place parts
  | .add, _ => binaryMeaning (.arithmetic .sum) place parts
  | .sub, _ => binaryMeaning (.arithmetic .sub) place parts
  | .mul, _ => binaryMeaning (.arithmetic .mult) place parts
  | .div, _ => binaryMeaning (.arithmetic .div) place parts
  | .comparison, _ => comparisonMeaning place parts
  | .negation, operand :: _ => return .node (negated (← operand.toExpression))
  | .wholeLiteral, number :: _ => wholeMeaning rule number.text
  | .decimalLiteral, number :: _ => decimalMeaning rule number.text
  | .textLiteral, literal :: _ => textMeaning names place literal.text
  | .trueLiteral, _ => .ok (.node (.literal (.bool true)))
  | .falseLiteral, _ => .ok (.node (.literal (.bool false)))
  | .reference, name :: _ => .ok (.node (.reference name.text))
  | .call, _ => callMeaning rule place parts
  | .arguments, _ => return .nodes (← parts.mapM Part.toExpression)
  | .readNumber, _ => .ok (.node (.input .number))
  | .readText, _ => .ok (.node (.input .text))
  | .unknown name, _ => .error (.script (.incorrectSyntax (place.textOr name)))
  | rule, _ => rule.broken

end Rule

namespace Tree

mutual

/-- The meaning of a parse tree that was read from `source`. -/
def meaning (names : Text.Names) (source : List Char) : Tree → Except Failure Part
  | .leaf text => .ok (.token text)
  | .built node => .ok (.node node)
  | .branch rule span children => do
    rule.meaning names ⟨source, span⟩ (← meanings names source children)
termination_by structural tree => tree

/-- The meanings of several parse trees, from left to right. -/
def meanings (names : Text.Names) (source : List Char) : List Tree → Except Failure (List Part)
  | [] => .ok []
  | tree :: trees => do
    let part ← meaning names source tree
    let parts ← meanings names source trees
    return part :: parts
termination_by structural trees => trees

end

end Tree

end ScriptLang
