set_option autoImplicit false

/-! # Binary operators -/

namespace ScriptLang

/-- The arithmetic operators. -/
inductive Arithmetic where
  | sum
  | sub
  | mult
  | div
  deriving DecidableEq

/-- The noun for an arithmetic operation in messages. -/
def Arithmetic.noun : Arithmetic → String
  | sum => "addition"
  | sub => "subtraction"
  | mult => "multiplication"
  | div => "division"

/-- The operators that order two values. -/
inductive Order where
  | smaller
  | bigger
  | smallerOrEqual
  | biggerOrEqual
  deriving DecidableEq

/-- A binary operator. An operator that the language does not know can stand in a syntax tree; it
fails when it is applied. -/
inductive Operator where
  | arithmetic (operation : Arithmetic)
  | is
  | isNot
  | order (relation : Order)
  | and
  | or
  | unknown (name : String)
  deriving DecidableEq

namespace Operator

/-- The name of an operator in a syntax tree. -/
def name : Operator → String
  | arithmetic .sum => "Sum"
  | arithmetic .sub => "Sub"
  | arithmetic .mult => "Mult"
  | arithmetic .div => "Div"
  | is => "Is"
  | isNot => "IsNot"
  | order .smaller => "Smlr"
  | order .bigger => "Bigr"
  | order .smallerOrEqual => "SmlrEq"
  | order .biggerOrEqual => "BigrEq"
  | and => "And"
  | or => "Or"
  | unknown name => name

/-- The operators of the language. -/
def all : List Operator :=
  [arithmetic .sum, arithmetic .sub, arithmetic .mult, arithmetic .div, is, isNot, order .smaller,
    order .bigger, order .smallerOrEqual, order .biggerOrEqual, and, or]

/-- The operator with a given name. -/
def ofName (name : String) : Operator :=
  (all.find? fun operator => operator.name == name).getD (unknown name)

end Operator

end ScriptLang
