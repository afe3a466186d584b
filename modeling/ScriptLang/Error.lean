import ScriptLang.Operator
import ScriptLang.Token
import ScriptLang.Value

set_option autoImplicit false

/-! # Errors

`ScriptError` lists every way in which a script can fail by its own fault, as a cause with what
belongs to it; `Fault` lists what goes wrong around a script. The wording of these causes stands in
`ScriptError.message` and `Fault.message?` only. -/

namespace ScriptLang

/-- The part that a malformed expression lacks. -/
inductive ExpressionPart where
  | left
  | right
  | operator
  deriving DecidableEq

/-- The word for a part of an expression. -/
def ExpressionPart.word : ExpressionPart → String
  | left => "left"
  | right => "right"
  | operator => "operator"

/-- What a text was to be read as. -/
inductive NumberKind where
  | integer
  | float
  deriving DecidableEq

/-- The word for a sort of number. -/
def NumberKind.word : NumberKind → String
  | integer => "integer"
  | float => "float"

/-- The failures that a script can cause. -/
inductive ScriptError where
  /-- A token stands where the grammar has no place for it. -/
  | unexpectedToken (token : Token)
  /-- A character starts no token. -/
  | unexpectedCharacter (character : Char) (position : Position)
  /-- Something else stands where the tree needs an expression. -/
  | notAnExpression (text : String)
  /-- A piece of syntax has no meaning. -/
  | incorrectSyntax (text : String)
  | incompleteExpression (text : String) (missing : ExpressionPart)
  /-- A call has no name. -/
  | incompleteCall (text : String)
  | unsupportedOperator (text : String)
  /-- A text, from the program or from its input, is no number that fits. -/
  | unreadableNumber (text : String) (target : NumberKind)
  /-- Arithmetic met a value of a kind that has none. -/
  | illegalArithmetic (operation : Arithmetic) (kind : Kind)
  /-- Two kinds of values have no order. -/
  | illegalComparison (left right : Kind)
  | notBool (value : Value)
  | divideByZero
  | undefinedVariable (name : String)
  | undefinedFunction (name : String)
  | wrongArgumentCount (name : String) (expected : Int) (actual : Nat)
  /-- The input is closed. -/
  | noInput
  | recursionLimit (limit : Int)
  /-- A strict scope already binds the name. -/
  | alreadyDefined (name : String)
  deriving DecidableEq

namespace ScriptError

/-- Whether the program text lies outside the grammar. -/
def isGrammatical : ScriptError → Bool
  | unexpectedToken _ | unexpectedCharacter _ _ => true
  | _ => false

/-- The text of a failure. -/
def message : ScriptError → String
  | unexpectedToken token =>
    "Parsing failed, reason:\nUnexpected token " ++ token.inspect ++ " at line "
      ++ toString token.start.line ++ ", column " ++ toString token.start.column ++ "."
  | unexpectedCharacter character position =>
    "Parsing failed, reason:\nNo terminal matches '" ++ String.singleton character
      ++ "' in the current parser context, at line " ++ toString position.line ++ " col "
      ++ toString position.column
  | notAnExpression text => "Not an expression:\n" ++ text
  | incorrectSyntax text => "Incorrect syntax:\n" ++ text
  | incompleteExpression text missing =>
    "Incomplete expression, missing " ++ missing.word ++ ":\n" ++ text
  | incompleteCall text => "Incomplete function call, missing identifier:\n" ++ text
  | unsupportedOperator text => "Unsupported operator: " ++ text
  | unreadableNumber text target => "Couldn't parse " ++ text ++ " as a " ++ target.word
  | illegalArithmetic operation kind =>
    "Cannot perform " ++ operation.noun ++ ", between types any and " ++ kind.typeName
  | illegalComparison left right =>
    "Cannot perform comparison, between types " ++ left.typeName ++ " and " ++ right.typeName
  | notBool value => "Couldn't convert " ++ value.inspect ++ " to bool"
  | divideByZero => "attempt to divide by zero"
  | undefinedVariable name => "Variable \"" ++ name ++ "\" not defined"
  | undefinedFunction name => "Function \"" ++ name ++ "\" not defined"
  | wrongArgumentCount name expected actual =>
    "Function " ++ name ++ " expected " ++ toString expected ++ " arguments but "
      ++ toString actual ++ (if actual = 1 then " was" else " were") ++ " supplied"
  | noInput => "Failed to read input"
  | recursionLimit limit =>
    "recursion limit reached: can't go more than " ++ toString limit ++ " levels deep"
  | alreadyDefined name =>
    "can't shadow variable from the same scope: " ++ Text.quote name

end ScriptError

/-- Why a file cannot be used. -/
inductive FileError where
  | notFound
  | isDirectory
  /-- The way leads through a file as if that were a directory. -/
  | notDirectory
  deriving DecidableEq

/-- The failures that are not the script's own: a syntax tree no program text has, a function of the
host that gives up, a file that cannot be opened, or a setting without a value. -/
inductive Fault where
  /-- A node that is no statement was to be executed. -/
  | notAStatement (node : String)
  /-- A node that is no expression was to be evaluated. -/
  | notEvaluable (node : String)
  /-- A node that is no block was to be executed as one. -/
  | notABlock (node : String)
  | unknownOperator (name : String)
  /-- A parse tree has no meaning because a part of it is missing or unreadable. -/
  | brokenTree (rule : String)
  /-- A function of the host failed. -/
  | host (message : String)
  | file (error : FileError)
  /-- The limit of calls was to be set, and no number was given. -/
  | missingLimit
  deriving DecidableEq

/-- The text of a fault, if it has one. -/
def Fault.message? : Fault → Option String
  | notAStatement node => some ("execute: unexpected node type <class 'ptbr.ast." ++ node ++ "'>")
  | notEvaluable node => some ("evaluate: unexpected node type <class 'ptbr.ast." ++ node ++ "'>")
  | notABlock node => some ("'" ++ node ++ "' object is not iterable")
  | unknownOperator name => some ("unknown operator " ++ name)
  | host message => some message
  | missingLimit => some "'<' not supported between instances of 'list' and 'int'"
  | brokenTree _ | file _ => none

/-- How an activity can fail. -/
inductive Failure where
  | script (error : ScriptError)
  | fault (fault : Fault)
  /-- The evaluation nests deeper than there is room for. -/
  | exhausted
  /-- The bound on loops and calls that makes every run finite was used up. -/
  | outOfFuel
  deriving DecidableEq

end ScriptLang
