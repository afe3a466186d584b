import ScriptLang.Number.Decimal
import ScriptLang.Text.Quoted

set_option autoImplicit false

/-! # Values

A script computes with five kinds of values: nothing (`void`), texts, 32-bit integers, single
precision numbers and truth values. A value has two texts: the one that `print` shows and the one
that messages and traces show. -/

namespace ScriptLang

/-- The kinds of values. -/
inductive Kind where
  | void
  | string
  | integer
  | float
  | bool
  deriving DecidableEq

namespace Kind

/-- The name of a kind in traces. -/
def name : Kind → String
  | void => "Void"
  | string => "String"
  | integer => "Integer"
  | float => "Float"
  | bool => "Bool"

/-- The name of a kind in messages. -/
def typeName : Kind → String
  | void => "void"
  | string => "string"
  | integer => "integer"
  | float => "float"
  | bool => "bool"

/-- Integers and floats are numeric. -/
def isNumeric : Kind → Bool
  | integer | float => true
  | _ => false

end Kind

/-- A value of a script. Integers wrap around at 32 bits, and floats are single precision. -/
inductive Value where
  | void
  | string (text : String)
  | integer (number : Int32)
  | float (number : Single)
  | bool (truth : Bool)
  deriving DecidableEq

namespace Value

/-- The kind of a value. -/
def kind : Value → Kind
  | void => .void
  | string _ => .string
  | integer _ => .integer
  | float _ => .float
  | bool _ => .bool

/-- The integer value of an integer of any size, wrapped to 32 bits. -/
def ofInt (n : Int) : Value :=
  .integer (Integer.wrap n)

/-- The float value nearest to a double. -/
def ofDouble (x : Double) : Value :=
  .float x.convert

/-! ## Texts -/

/-- Shown floats have no exponent, and a whole number has no decimal point. -/
def shownFloat : FloatLayout where
  isPositional _ := true
  afterWhole := ""
  nan := "NaN"

/-- The text that `print` shows. -/
def display : Value → String
  | void => ""
  | string text => text
  | integer number => toString number.toInt
  | float number => shownFloat.write number
  | bool true => "true"
  | bool false => "false"

/-- Traced floats have an exponent if it is below -4 or above 15, and a whole number without an
exponent ends in `.0`. -/
def tracedFloat : FloatLayout where
  isPositional exponent := -4 ≤ exponent && exponent < 16
  afterWhole := ".0"
  nan := "nan"

/-- The text of a truth value in traces. -/
def inspectBool (b : Bool) : String :=
  if b then "True" else "False"

/-- The content of a value in traces. Floats are shown with the digits of the equal double. -/
def inspectData : Value → String
  | void => "None"
  | string text => Text.quote text
  | integer number => toString number.toInt
  | float number => tracedFloat.write (number.convert : Double)
  | bool truth => inspectBool truth

/-- The text that messages and traces show. -/
def inspect (v : Value) : String :=
  "Value(kind=" ++ Text.quote v.kind.name ++ ", data=" ++ v.inspectData ++ ")"

/-- The text of a value that a `return` hands out. -/
def inspectReturned (v : Value) : String :=
  "ReturnSignal(" ++ v.inspect ++ ")"

end Value

end ScriptLang
